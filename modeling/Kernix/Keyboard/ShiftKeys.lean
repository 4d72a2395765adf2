import Kernix.Keyboard.Scancodes

namespace Kernix.Keyboard
open Library

/-! The two shift keys, in the scancodes seen so far. -/

def leftShift : Byte := 0x2A
def rightShift : Byte := 0x36
def leftRelease : Byte := 0xAA
def rightRelease : Byte := 0xB6

/-- The next byte belongs to a group: the last one was 0xE0. -/
def groupOpen (codes : List Byte) : Bool := codes.getLast? = some 0xE0

/-- The bytes outside the groups; `opened` says whether the first one follows a 0xE0. -/
def outsideFrom (opened : Bool) : List Byte → List Byte
  | [] => []
  | c :: codes =>
    if c = 0xE0 then outsideFrom true codes
    else if opened then outsideFrom false codes
    else c :: outsideFrom false codes

def outsideGroups (codes : List Byte) : List Byte := outsideFrom false codes

/-- The last of `keys` that was seen. -/
def lastOf (keys codes : List Byte) : Option Byte := (codes.filter keys.contains).getLast?

def leftHeld (codes : List Byte) : Bool :=
  lastOf [leftShift, leftRelease] (outsideGroups codes) = some leftShift

def rightHeld (codes : List Byte) : Bool :=
  lastOf [rightShift, rightRelease] (outsideGroups codes) = some rightShift

def shiftHeld (codes : List Byte) : Bool := leftHeld codes || rightHeld codes

/-- The last thing done to a shift key was to let it go, while the other one is held. -/
def ReleasedOneOfTwo (codes : List Byte) : Prop :=
  let last := lastOf [leftShift, rightShift, leftRelease, rightRelease] (outsideGroups codes)
  (last = some leftRelease ∧ rightHeld codes = true) ∨
    (last = some rightRelease ∧ leftHeld codes = true)

/-- The character of a make code in one of the two tables. -/
def character (shift : Bool) (scancode : Byte) : Option Byte :=
  let c := if shift then keymapShift.getD scancode.toNat 0 else keymap.getD scancode.toNat 0
  if c = 0 then none else some c

def KeyEvent.scancode? : KeyEvent → Option Byte
  | .interrupt scancode => some scancode
  | _ => none

/-- The scancodes that came in. -/
def scancodes (es : List KeyEvent) : List Byte := es.filterMap KeyEvent.scancode?

end Kernix.Keyboard
