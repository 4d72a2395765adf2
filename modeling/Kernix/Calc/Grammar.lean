import Kernix.Calc.Parse

namespace Kernix.Calc
open Library

/-! What the parser is for: the language of the expressions, and what their numerals stand for. -/

/-- The bytes of a string before the NUL that ends it. -/
structure CString where
  bytes : List Byte
  noNul : (0 : Byte) ∉ bytes

/-- Spaces, tabs, newlines and carriage returns. -/
def Blank (ws : List Byte) : Prop := ∀ c ∈ ws, isSpace c = true

inductive Sign where
  | none
  | plus
  | minus
deriving DecidableEq

def Sign.text : Sign → List Byte
  | none => []
  | plus => [0x2B]
  | minus => [0x2D]

def Sign.factor : Sign → Int
  | minus => -1
  | _ => 1

/-- A sign, if any, and one digit or more. -/
structure Numeral where
  sign : Sign
  digits : List Byte
  nonempty : digits ≠ []
  allDigits : ∀ c ∈ digits, isDigit c = true

def Numeral.text (n : Numeral) : List Byte := n.sign.text ++ n.digits

def Numeral.magnitude (n : Numeral) : Nat := valueFrom 0 n.digits

/-- The integer the numeral denotes. -/
def Numeral.value (n : Numeral) : Int := n.sign.factor * n.magnitude

/-- No sign and no zero that could be left out. -/
structure Numeral.Canonical (n : Numeral) : Prop where
  noPlus : n.sign ≠ .plus
  minus : n.sign = .minus → n.value < 0
  noZero : n.digits.head? = some 0x30 → n.digits = [0x30]

/-- It is canonical and denotes the integer, and no other numeral does. -/
structure Numeral.IsCanonicalOf (n : Numeral) (z : Int) : Prop where
  canonical : n.Canonical
  value : n.value = z
  unique : ∀ m : Numeral, m.Canonical → m.value = z → m = n

/-- Two numerals with an operator between them, and blanks around them. -/
structure Expression where
  before : List Byte
  left : Numeral
  beforeOp : List Byte
  op : Byte
  afterOp : List Byte
  right : Numeral
  after : List Byte
  blanks : Blank before ∧ Blank beforeOp ∧ Blank afterOp ∧ Blank after
  isOp : op = 0x2B ∨ op = 0x2D ∨ op = 0x2A ∨ op = 0x2F

/-- What follows the first numeral. -/
def Expression.rest (e : Expression) : List Byte :=
  e.beforeOp ++ e.op :: (e.afterOp ++ (e.right.text ++ e.after))

def Expression.text (e : Expression) : List Byte := e.before ++ (e.left.text ++ e.rest)

/-- An integer that an `int` can hold. -/
def Fits (z : Int) : Prop := -2147483648 ≤ z ∧ z ≤ 2147483647

/-- The integers the loop of `parse_int_token` goes through from `result` on. -/
def steps (result : Int) : List Byte → List Int
  | [] => []
  | c :: ds => result * 10 :: (result * 10 + digitValue c) :: steps (result * 10 + digitValue c) ds

/-- No step of reading the numeral leaves the range of `int`. -/
def Numeral.StepsFit (n : Numeral) : Prop := (∀ z ∈ steps 0 n.digits, Fits z) ∧ Fits n.value

end Kernix.Calc
