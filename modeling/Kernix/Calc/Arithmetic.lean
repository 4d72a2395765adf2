import Kernix.Calc.Calculator
import Kernix.Calc.Grammar

namespace Kernix.Calc
open Library

/-! Arithmetic on `int`s in which an overflow is no result. The functions that are to take no such
step are written in it; the others keep the words of the compiled code, which wraps around. -/

/-- What a computation stops short at. `unfinished` is a loop cut off, which no bound below lets
happen. -/
inductive Stop where
  | overflow
  | fault (f : Fault)
  | unfinished
deriving DecidableEq

abbrev Exact := Except Stop

instance (z : Int) : Decidable (Fits z) := inferInstanceAs (Decidable (_ ∧ _))

/-- The `int` that is `z`. -/
def exactly (z : Int) : Exact U32 := if Fits z then .ok (BitVec.ofInt 32 z) else .error .overflow

def addInt (a b : U32) : Exact U32 := exactly (a.toInt + b.toInt)

def subInt (a b : U32) : Exact U32 := exactly (a.toInt - b.toInt)

def mulInt (a b : U32) : Exact U32 := exactly (a.toInt * b.toInt)

def negInt (a : U32) : Exact U32 := exactly (-a.toInt)

def divInt (a b : U32) : Exact U32 :=
  if b = 0 then .error (.fault .divide) else exactly (a.toInt.tdiv b.toInt)

/-- The remainder comes with the quotient, and is none where that is none. -/
def modInt (a b : U32) : Exact U32 := do
  let _ ← divInt a b
  exactly (a.toInt.tmod b.toInt)

/-- Characters written, among such computations. -/
def written (out : Output) : Exact (List Byte) := out.mapError .fault

def int32MaxVal : U32 := 2147483647
def int32MinVal : U32 := -2147483647 - 1

/-- `out`, where the result is true. -/
def checkedMulInt (a b : U32) : Exact (Option U32) := do
  if a = 0 ∨ b = 0 then return some 0
  if a = -1 ∧ b = int32MinVal then return none
  if b = -1 ∧ a = int32MinVal then return none
  if 0 < a.toInt then
    if 0 < b.toInt then
      if (← divInt int32MaxVal b).toInt < a.toInt then return none
    if b.toInt < 0 then
      if b.toInt < (← divInt int32MinVal a).toInt then return none
  else
    if 0 < b.toInt then
      if a.toInt < (← divInt int32MinVal b).toInt then return none
    if b.toInt < 0 ∧ a ≠ 0 then
      if b.toInt < (← divInt int32MaxVal a).toInt then return none
  return some (← mulInt a b)

end Kernix.Calc
