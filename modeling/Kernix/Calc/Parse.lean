import Kernix.Library.Text

namespace Kernix.Calc
open Library

/-! The parser of the calculator. A `const char *` is the bytes from it to the NUL that ends the
string, and `*p` is that NUL where none are left. An `int` is a word, its arithmetic modulo 2^32. -/

def isSpace (c : Byte) : Bool := c = 0x20 ∨ c = 0x09 ∨ c = 0x0A ∨ c = 0x0D

def skipSpaces : List Byte → List Byte
  | [] => []
  | c :: p => if c ≠ 0 ∧ isSpace c then skipSpaces p else c :: p

/-- The loop of `parse_int_token`, with where it stops. -/
def readDigits (result : U32) : List Byte → U32 × List Byte
  | [] => (result, [])
  | c :: p =>
    if 0x30 ≤ c.toInt ∧ c.toInt ≤ 0x39 then readDigits (result * 10 + (c.signExtend 32 - 0x30)) p
    else (result, c :: p)

/-- The sign of `parse_int_token`, and the pointer behind it. -/
def readSign (p : List Byte) : U32 × List Byte :=
  if p.headD 0 = 0x2D then (-1, p.tail)
  else if p.headD 0 = 0x2B then (1, p.tail)
  else (1, p)

/-- The value and the pointer that `parse_int_token` leaves; `none` is false. -/
def parseIntToken (p : List Byte) : Option (U32 × List Byte) :=
  let (sign, p) := readSign (skipSpaces p)
  if (p.headD 0).toInt < 0x30 ∨ 0x39 < (p.headD 0).toInt then none
  else
    let (result, p) := readDigits 0 p
    some (result * sign, p)

/-- `left`, `op` and `right`; `args` is `none` for a null pointer. -/
def parseExpression (args : Option (List Byte)) : Option (U32 × Byte × U32) := do
  let args ← args
  let (left, p) ← parseIntToken args
  let p := skipSpaces p
  let op := p.headD 0
  if op ≠ 0x2B ∧ op ≠ 0x2D ∧ op ≠ 0x2A ∧ op ≠ 0x2F then none
  else
    let (right, p) ← parseIntToken p.tail
    let p := skipSpaces p
    if p.headD 0 = 0 then some (left, op, right) else none

/-- The loop of `is_help_request` over the word at `p`. -/
def skipWord : List Byte → List Byte
  | [] => []
  | c :: p => if c ≠ 0 ∧ ¬ isSpace c then skipWord p else c :: p

def isHelpRequest (args : Option (List Byte)) : Bool :=
  match args with
  | none => false
  | some args =>
    let start := skipSpaces args
    if start.headD 0 = 0 then false
    else
      let p := skipWord start
      let len := start.length - p.length
      let p := skipSpaces p
      if p.headD 0 ≠ 0 then false
      else
        (len = 4 ∧ start.take 4 = text "help") ∨ (len = 2 ∧ start.take 2 = text "-h") ∨
          (len = 6 ∧ start.take 6 = text "--help")

end Kernix.Calc
