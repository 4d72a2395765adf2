import Kernix.Calc.Arithmetic
import Kernix.Library.While

namespace Kernix.Calc
open Library

/-! Powers, towers, roots and logarithms. -/

/-- The first loop of `print_uint32`, with the room left in `buffer`. -/
def storeUint : Nat → U32 → List Byte → List Byte
  | 0, _, buffer => buffer
  | room + 1, value, buffer =>
    if value = 0 then buffer
    else storeUint room (value / 10) (buffer ++ [(0x30 + value % 10).setWidth 8])

/-- `print_uint32` of the shell. The buffer has 11 bytes, and the loop fills 10 of them at most. -/
def printUint32 (value : U32) : List Byte :=
  if value = 0 then [0x30] else (storeUint 10 value []).reverse

/-- How the functions below end. -/
def printUnsigned (result : U32) : List Byte :=
  text "Result: " ++ printUint32 result ++ text "\n"

/-! `calc_pow` and `calc_tetration` are to take no step out of the range of `int`. -/

def powLoop (base : U32) : Nat → U32 → Exact U32
  | 0, result => return result
  | turns + 1, result => do powLoop base turns (← mulInt result base)

def calcPow (base exp : U32) : Exact (List Byte) := do
  let result ← powLoop base exp.toInt.toNat 1
  return printUnsigned result

/-- The inner loop of `calc_tetration`; `none` where a product is refused. -/
def towerPower (base : U32) : Nat → U32 → Exact (Option U32)
  | 0, power => return some power
  | turns + 1, power => do
    let some tmp ← checkedMulInt power base | return none
    towerPower base turns tmp

def tooFast : List Byte := text "Error: tetration grows too fast for int32 evaluation.\n"
def towerOverflow : List Byte := text "Error: tetration overflow.\n"

/-- The outer loop of `calc_tetration`, and what follows it. -/
def tetrationLoop (base : U32) : Nat → U32 → Exact (List Byte)
  | 0, result => written (printResult result)
  | turns + 1, result =>
    if result.toInt < 0 then
      return text "Error: tetration intermediate exponent is invalid.\n"
    else if 31 < result.toInt then return tooFast
    else do
      let some power ← towerPower base result.toInt.toNat 1 | return towerOverflow
      tetrationLoop base turns power

def calcTetration (base height : U32) : Exact (List Byte) := do
  if height.toInt < 0 then return text "Error: tetration height must be >= 0.\n"
  if height = 0 then return ← written (printResult 1)
  if base = 0 then
    let parity ← modInt height 2
    return ← written (printResult (if parity = 0 then 1 else 0))
  if base.toInt < 0 then
    return text "Error: negative base is not supported for tetration in integer mode.\n"
  tetrationLoop base (height.toInt - 1).toNat base

/-! `calc_root` and `calc_log` as compiled: their steps wrap around. -/

/-- The inner loop of `calc_root`. -/
def midPowLoop (mid : U32) : Nat → U32 → U32
  | 0, midPow => midPow
  | turns + 1, midPow => midPowLoop mid turns (midPow * mid)

structure RootSearch where
  low : U32
  high : U32
  result : U32

def rootBody (a n : U32) (s : RootSearch) : RootSearch ⊕ U32 :=
  if s.low.toInt ≤ s.high.toInt then
    let mid := (s.low + s.high).sdiv 2
    let midPow := midPowLoop mid n.toInt.toNat 1
    if midPow = a then .inr mid
    else if midPow.toInt < a.toInt then .inl { s with low := mid + 1, result := mid }
    else .inl { s with high := mid - 1 }
  else .inr s.result

/-- The text that is printed, if the search is over within `fuel` turns. -/
def calcRoot (fuel : Nat) (a n : U32) : Option (List Byte) :=
  if n.toInt ≤ 0 then some (text "Error: Root degree must be positive.\n")
  else (turns (rootBody a n) fuel ⟨1, a, 1⟩).map printUnsigned

structure LogSearch where
  result : U32
  power : U32

def logBody (a base : U32) (s : LogSearch) : LogSearch ⊕ LogSearch :=
  if s.power.toInt < a.toInt then .inl ⟨s.result + 1, s.power * base⟩ else .inr s

/-- What follows the loop of `calc_log`. -/
def logResult (a : U32) (s : LogSearch) : U32 :=
  if a.toInt < s.power.toInt then s.result - 1 else s.result

def calcLog (fuel : Nat) (a base : U32) : Option (List Byte) :=
  if a.toInt ≤ 0 ∨ base.toInt ≤ 1 then some (text "Error: Invalid input for logarithm.\n")
  else (turns (logBody a base) fuel ⟨0, 1⟩).map fun s => printUnsigned (logResult a s)

def calcLog10 (fuel : Nat) (a : U32) : Option (List Byte) := calcLog fuel a 10

end Kernix.Calc
