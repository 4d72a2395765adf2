import Kernix.Calc.Powers

namespace Kernix.Calc
open Library

/-! The square, as compiled; the factorial and the Fibonacci numbers, which are to take no step out of
the range of `int`. -/

def calcSqr (a : U32) : List Byte := printUnsigned (a * a)

/-- The loop of `calc_factorial`, over `i` and `result`. -/
def factorialLoop : Nat → U32 → U32 → Exact U32
  | 0, _, result => return result
  | turns + 1, i, result => do
    let result ← mulInt result i
    factorialLoop turns (← addInt i 1) result

def factorialNegative : List Byte :=
  text "Error: factorial is undefined for negative numbers.\n"

def factorialOverflow : List Byte := text "Error: factorial overflows int32 for n > 12.\n"

def calcFactorial (n : U32) : Exact (List Byte) := do
  if n.toInt < 0 then return factorialNegative
  if 12 < n.toInt then return factorialOverflow
  let result ← factorialLoop (n.toInt - 1).toNat 2 1
  written (printResult result)

/-- The loop of `calc_fibonacci`, over `a` and `b`. -/
def fibonacciLoop : Nat → U32 → U32 → Exact U32
  | 0, _, b => return b
  | turns + 1, a, b => do
    let next ← addInt a b
    fibonacciLoop turns b next

def fibonacciNegative : List Byte := text "Error: fibonacci index must be >= 0.\n"

def fibonacciOverflow : List Byte := text "Error: fibonacci overflows int32 for n > 46.\n"

def calcFibonacci (n : U32) : Exact (List Byte) := do
  if n.toInt < 0 then return fibonacciNegative
  if 46 < n.toInt then return fibonacciOverflow
  if n = 0 then return text "Result: 0\n"
  let b ← fibonacciLoop (n.toInt - 1).toNat 0 1
  written (printResult b)

end Kernix.Calc
