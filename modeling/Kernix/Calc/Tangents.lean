import Kernix.Calc.Trigonometry

namespace Kernix.Calc
open Library

/-! The functions over sine and cosine, and the inverses of these two. -/

/-- What is behind the two numbers, in `calc_tan` and `calc_ctg`. -/
def printQuotient (undefined : List Byte) (numerator divisor : U32) : Exact (List Byte) := do
  if divisor = 0 ∨ divisor = 1 ∨ divisor = -1 then return undefined
  printScaledResult (← divInt (← mulInt numerator fp) divisor) fp

def tanUndefined : List Byte := text "Error: tan is undefined for this angle.\n"

def calcTan (angle : U32) : Exact (List Byte) := do
  let radians ← degToRadFp angle
  let s ← sinFp radians
  let c ← cosFp radians
  printQuotient tanUndefined s c

def ctgUndefined : List Byte := text "Error: ctg is undefined for this angle.\n"

def calcCtg (angle : U32) : Exact (List Byte) := do
  let radians ← degToRadFp angle
  let s ← sinFp radians
  let c ← cosFp radians
  printQuotient ctgUndefined c s

def asinError : List Byte :=
  text "Error: asin input must be -1, 0 or 1 in current integer mode.\n"

def calcAsin (value : U32) : Exact (List Byte) := do
  if value.toInt < -1 ∨ 1 < value.toInt then return asinError
  if value = -1 then return ← printScaledResult (-900000) fp
  if value = 0 then return ← printScaledResult 0 fp
  printScaledResult 900000 fp

def acosError : List Byte :=
  text "Error: acos input must be -1, 0 or 1 in current integer mode.\n"

def calcAcos (value : U32) : Exact (List Byte) := do
  if value.toInt < -1 ∨ 1 < value.toInt then return acosError
  if value = -1 then return ← printScaledResult 1800000 fp
  if value = 0 then return ← printScaledResult 900000 fp
  printScaledResult 0 fp

end Kernix.Calc
