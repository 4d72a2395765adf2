import Kernix.Library.Memory

namespace Kernix.Strings
open Library

/-! The string functions. A `char *` is the bytes from it on, and `none` is a read behind the last
of them. -/

/-- Two `char`s are equal where their bytes are; the result is a difference of bytes. -/
def strcmp : List Byte → List Byte → Option U32
  | c :: a, d :: b =>
    if c ≠ 0 ∧ c = d then strcmp a b else some (c.setWidth 32 - d.setWidth 32)
  | _, _ => none

/-- How far the space is from `str`, if one comes before the NUL. -/
def findSpace : List Byte → Option (Option Nat)
  | [] => none
  | c :: str =>
    if c = 0 then some none
    else if c = 0x20 then some (some 0)
    else (findSpace str).map (·.map (· + 1))

/-- The order of bytes without a sign. -/
def ByteLt (c d : Byte) : Prop := c.toNat < d.toNat

end Kernix.Strings
