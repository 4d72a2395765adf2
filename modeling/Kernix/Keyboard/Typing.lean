import Kernix.Keyboard.ShiftKeys

namespace Kernix.Keyboard
open Library

/-! What is typed, apart from the buffer it goes through. -/

/-- The characters that scancodes hand to `push_char`, one after the other. -/
def typing (k : KeyboardState) : List Byte → List Byte
  | [] => []
  | c :: codes => (handed k c).toList ++ typing (keyboardHandleScancode k c) codes

def released (make : Byte) : Byte := make ||| 0x80

/-- The scancodes of the key for a character, pressed and let go; with the left shift key around it
where only the second table has the character. -/
def press (c : Byte) : List Byte :=
  if keymap.contains c then
    let make : Byte := BitVec.ofNat 8 (keymap.idxOf c)
    [make, released make]
  else
    let make : Byte := BitVec.ofNat 8 (keymapShift.idxOf c)
    [leftShift, make, released make, leftRelease]

/-- Scancodes that type nothing and leave the shift keys alone: keys let go, and groups. -/
inductive Silent : List Byte → Prop
  | nil : Silent []
  | release {c : Byte} {codes : List Byte} : c &&& 0x80 ≠ 0 → c ∉ [0xE0, leftRelease, rightRelease] →
      Silent codes → Silent (c :: codes)
  | group {c : Byte} {codes : List Byte} : c ≠ 0xE0 → Silent codes → Silent (0xE0 :: c :: codes)

/-- A character, and the scancodes that come in before the next one. -/
structure Keypress where
  char : Byte
  mem : char ≠ 0 ∧ (char ∈ keymap ∨ char ∈ keymapShift)
  after : List Byte
  silent : Silent after

/-- The scancodes of a text. -/
def pressed (ps : List Keypress) : List Byte := ps.flatMap fun p => press p.char ++ p.after

end Kernix.Keyboard
