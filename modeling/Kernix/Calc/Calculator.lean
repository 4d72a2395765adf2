import Kernix.Calc.Parse

namespace Kernix.Calc
open Library

/-- What stops the processor, or writes where it must not. -/
inductive Fault where
  | divide
  | store
deriving DecidableEq

/-- The characters a function writes, if it comes to its end. -/
abbrev Output := Except Fault (List Byte)

/-- `idivl`, which traps where the quotient is none of an `int`. -/
def idiv (a b : U32) : Except Fault U32 :=
  if b = 0 ∨ (a = BitVec.intMin 32 ∧ b = -1) then .error .divide else .ok (a.sdiv b)

/-- The first loop of `print_int32`: the digits in `buffer`, the last one first. -/
def storeDigits : Nat → U32 → List Byte → Output
  | 0, _, _ => .error .store
  | fuel + 1, number, buffer =>
    if number = 0 then .ok buffer
    else if buffer.length < 11 then
      storeDigits fuel (number / 10) (buffer ++ [(0x30 + number % 10).setWidth 8])
    else .error .store

/-- The buffer is full after 11 turns. -/
def printInt32 (value : U32) : Output :=
  if value = 0 then .ok [0x30]
  else do
    let (sign, number) : List Byte × U32 :=
      if value.toInt < 0 then ([0x2D], (-(value.signExtend 64)).setWidth 32) else ([], value)
    let buffer ← storeDigits 12 number []
    return sign ++ buffer.reverse

def printResult (value : U32) : Output := do
  let numeral ← printInt32 value
  return text "Result: " ++ numeral ++ text "\n"

def calcAdd (a b : U32) : Output := printResult (a + b)

def calcSub (a b : U32) : Output := printResult (a - b)

def calcMul (a b : U32) : Output := printResult (a * b)

def calcDiv (a b : U32) : Output := do
  if b = 0 then return text "Error: Division by zero is not allowed.\n"
  let result ← idiv a b
  printResult result

def calcPrintHelp : List Byte :=
  text "Calculator help\n" ++
  text "Usage:\n" ++
  text "  calc <num1> <op> <num2>\n" ++
  text "  calc help | calc -h | calc --help\n" ++
  text "\n" ++
  text "Supported operators in shell command:\n" ++
  text "  +  Addition\n" ++
  text "  -  Subtraction\n" ++
  text "  *  Multiplication\n" ++
  text "  /  Division\n" ++
  text "\n" ++
  text "Input examples:\n" ++
  text "  calc 2+3\n" ++
  text "  calc 10 / 2\n" ++
  text "  calc -7 * 5\n" ++
  text "  calc 12 - -4\n" ++
  text "\n" ++
  text "Other implemented calc API functions (module-level):\n" ++
  text "  sqr, pow, root, log, log10\n" ++
  text "  sin, cos, tan, ctg, asin, acos, atan, actg\n" ++
  text "  factorial, tetration, fibonacci\n"

def calcInit (args : Option (List Byte)) : Output :=
  if isHelpRequest args then return calcPrintHelp
  else
    match parseExpression args with
    | none => return text "Usage: calc <num1> <op> <num2>\n" ++ text "Try: calc help\n"
    | some (left, op, right) =>
      if op = 0x2B then calcAdd left right
      else if op = 0x2D then calcSub left right
      else if op = 0x2A then calcMul left right
      else if op = 0x2F then calcDiv left right
      else return text "Unknown operator: " ++ [op] ++ text "\n"

end Kernix.Calc
