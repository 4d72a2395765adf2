import Mathlib.Logic.Function.Basic
import Kernix.Library.Memory

namespace Kernix.Keyboard
open Library

/-- The byte of a C character constant. -/
def ascii (c : Char) : Byte := BitVec.ofNat 8 c.toNat

/-- The entries the source spells out. The rest of the 128 are 0. -/
def keymap : List Byte :=
  [0, 27] ++ [ '1', '2', '3', '4', '5', '6', '7', '8', '9', '0', '-', '=', '\x08', '\t',
    'q', 'w', 'e', 'r', 't', 'y', 'u', 'i', 'o', 'p', '[', ']', '\n'].map ascii ++ [0] ++
  [ 'a', 's', 'd', 'f', 'g', 'h', 'j', 'k', 'l', ';', '\'', '`'].map ascii ++ [0] ++
  [ '\\', 'z', 'x', 'c', 'v', 'b', 'n', 'm', ',', '.', '/'].map ascii ++ [0, ascii '*', 0, ascii ' ']

def keymapShift : List Byte :=
  [0, 27] ++ [ '!', '@', '#', '$', '%', '^', '&', '*', '(', ')', '_', '+', '\x08', '\t',
    'Q', 'W', 'E', 'R', 'T', 'Y', 'U', 'I', 'O', 'P', '{', '}', '\n'].map ascii ++ [0] ++
  [ 'A', 'S', 'D', 'F', 'G', 'H', 'J', 'K', 'L', ':', '"', '~'].map ascii ++ [0] ++
  [ '|', 'Z', 'X', 'C', 'V', 'B', 'N', 'M', '<', '>', '?'].map ascii ++ [0, ascii '*', 0, ascii ' ']

/-- The globals of the driver. -/
structure KeyboardState where
  keyBuffer : Nat → Byte
  bufHead : Nat
  bufTail : Nat
  shiftPressed : Bool
  extendedScancode : Bool

def pushChar (k : KeyboardState) (c : Byte) : KeyboardState :=
  let next := (k.bufTail + 1) % 256
  if next = k.bufHead then k
  else { k with keyBuffer := Function.update k.keyBuffer k.bufTail c, bufTail := next }

def keyboardInit (k : KeyboardState) : KeyboardState :=
  { k with bufHead := 0, bufTail := 0, shiftPressed := false, extendedScancode := false }

/-- The entry of the table in use. -/
def mapped (k : KeyboardState) (scancode : Byte) : Byte :=
  if k.shiftPressed then keymapShift.getD scancode.toNat 0 else keymap.getD scancode.toNat 0

def keyboardHandleScancode (k : KeyboardState) (scancode : Byte) : KeyboardState :=
  if scancode = 0xE0 then { k with extendedScancode := true }
  else if k.extendedScancode then { k with extendedScancode := false }
  else if scancode = 0x2A ∨ scancode = 0x36 then { k with shiftPressed := true }
  else if scancode = 0xAA ∨ scancode = 0xB6 then { k with shiftPressed := false }
  else if scancode &&& 0x80 ≠ 0 then k
  else
    let c := mapped k scancode
    if c ≠ 0 then pushChar k c else k

def keyboardAvailable (k : KeyboardState) : Bool := k.bufHead ≠ k.bufTail

/-- The two steps of `pop_char`: the read, and the index it moves. -/
def readChar (k : KeyboardState) : Byte := k.keyBuffer k.bufHead

def advanceHead (k : KeyboardState) : KeyboardState :=
  { k with bufHead := (k.bufHead + 1) % 256 }

def popChar (k : KeyboardState) : Byte × KeyboardState := (readChar k, advanceHead k)

/-- The character a scancode hands to `push_char`, if any. -/
def handed (k : KeyboardState) (scancode : Byte) : Option Byte :=
  if scancode = 0xE0 ∨ k.extendedScancode ∨ scancode ∈ [0x2A, 0x36, 0xAA, 0xB6] ∨
      scancode &&& 0x80 ≠ 0 ∨ mapped k scancode = 0 then none
  else some (mapped k scancode)

/-- `push_char` has a slot left. -/
def accepts (k : KeyboardState) : Bool := (k.bufTail + 1) % 256 ≠ k.bufHead

/-- The characters `push_char` stores when a scancode is handled. -/
def acceptedFrom (k : KeyboardState) (scancode : Byte) : List Byte :=
  if accepts k then (handed k scancode).toList else []

/-- Where the code that waits for a key is, with the interrupts on: before the test, before
the read, or with a character read and the index not yet moved. -/
inductive Consumer where
  | checking
  | reading
  | advancing (c : Byte)

/-- The driver and the code that waits for a key, with what has been accepted and consumed so far. -/
structure Session where
  keyboard : KeyboardState
  consumer : Consumer
  accepted : List Byte
  consumed : List Byte

def Session.start (k : KeyboardState) : Session := ⟨k, .checking, [], []⟩

inductive KeyEvent where
  | interrupt (scancode : Byte)
  | check
  | read
  | advance

/-- An interrupt comes at any time; the consumer does its three steps in turn. -/
inductive Session.Step : Session → KeyEvent → Session → Prop
  | interrupt (s : Session) (scancode : Byte) :
      Step s (.interrupt scancode)
        { s with
          keyboard := keyboardHandleScancode s.keyboard scancode
          accepted := s.accepted ++ acceptedFrom s.keyboard scancode }
  | found {s : Session} (hc : s.consumer = .checking) (ha : keyboardAvailable s.keyboard = true) :
      Step s .check { s with consumer := .reading }
  | waits {s : Session} (hc : s.consumer = .checking)
      (ha : keyboardAvailable s.keyboard = false) : Step s .check s
  | read {s : Session} (hc : s.consumer = .reading) :
      Step s .read { s with consumer := .advancing (readChar s.keyboard) }
  | advance {s : Session} {c : Byte} (hc : s.consumer = .advancing c) :
      Step s .advance
        { s with
          keyboard := advanceHead s.keyboard
          consumer := .checking
          consumed := s.consumed ++ [c] }

end Kernix.Keyboard
