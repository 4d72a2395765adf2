import Mathlib.Data.Rat.Defs
import Kernix.Calc.Trigonometry

namespace Kernix.Calc
open Library

/-! What `print_scaled_result` is for: decimals with a fixed number of places. -/

/-- A numeral with a point and `k` digits behind it. -/
structure FixedNumeral (k : Nat) where
  negative : Bool
  whole : Numeral
  fraction : List Byte
  unsigned : whole.sign = .none
  places : fraction.length = k
  allDigits : ∀ c ∈ fraction, isDigit c = true

variable {k : Nat}

def FixedNumeral.text (n : FixedNumeral k) : List Byte :=
  (if n.negative then [0x2D] else []) ++ n.whole.text ++ [0x2E] ++ n.fraction

/-- The rational the numeral denotes. -/
def FixedNumeral.value (n : FixedNumeral k) : Rat :=
  (if n.negative then -1 else 1) * (n.whole.magnitude + valueFrom 0 n.fraction / 10 ^ k)

/-- The scale of numerals with `k` places. -/
def scaleOf (k : Nat) : U32 := BitVec.ofNat 32 (10 ^ k)

/-- A numeral with `k` places is printed as the result, and it denotes `scaled / 10^k`. -/
def PrintsScaled (out : Exact (List Byte)) (scaled : U32) (k : Nat) : Prop :=
  ∃ n : FixedNumeral k, out = .ok (text "Result: " ++ n.text ++ text "\n") ∧
    n.value = scaled.toInt / 10 ^ k

/-- `print_scaled_result` behind its test of the sign. -/
def printScaledMagnitude (sign : List Byte) (scaled scale : U32) : Exact (List Byte) := do
  let intPart ← divInt scaled scale
  let fracPart ← modInt scaled scale
  let numeral ← written (printInt32 intPart)
  let digits ← fracDigits 11 (← divInt scale 10) fracPart
  return text "Result: " ++ sign ++ numeral ++ text "." ++ digits ++ text "\n"

/-- `print_scaled_result` as compiled, where the negation wraps around. -/
def printScaledCompiled (scaled scale : U32) : Exact (List Byte) :=
  if scaled.toInt < 0 then printScaledMagnitude (text "-") (-scaled) scale
  else printScaledMagnitude [] scaled scale

end Kernix.Calc
