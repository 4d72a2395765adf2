import Kernix.Calc.Calculator
import Kernix.Calc.Grammar

namespace Kernix.Calc
open Library

/-! What the `calc` command is for: what its text asks for, and how it is answered. -/

def helpWords : List (List Byte) := [text "help", text "-h", text "--help"]

/-- One of the words, and blanks. -/
def AsksForHelp (s : List Byte) : Prop :=
  ∃ before word after, Blank before ∧ word ∈ helpWords ∧ Blank after ∧
    s = before ++ (word ++ after)

def usage : List Byte := text "Usage: calc <num1> <op> <num2>\n" ++ text "Try: calc help\n"

namespace Expression

/-- What the expression stands for; a quotient is cut towards zero. -/
def result (e : Expression) : Int :=
  if e.op = 0x2B then e.left.value + e.right.value
  else if e.op = 0x2D then e.left.value - e.right.value
  else if e.op = 0x2A then e.left.value * e.right.value
  else e.left.value.tdiv e.right.value

/-- An `int` can hold the operands and the result. -/
structure InRange (e : Expression) : Prop where
  left : Fits e.left.value
  right : Fits e.right.value
  result : Fits e.result

def answer (e : Expression) : List Byte :=
  if e.op = 0x2F ∧ e.right.value = 0 then
    Library.text "Error: Division by zero is not allowed.\n"
  else Library.text "Result: " ++ intNumeral e.result ++ Library.text "\n"

end Expression

end Kernix.Calc
