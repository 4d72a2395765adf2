import Mathlib.Data.List.Basic
import Mathlib.Logic.Function.Basic
import Kernix.Library.Memory

namespace Kernix.Screen
open Library

abbrev U16 := BitVec 16

def vgaWidth : Nat := 80
def vgaHeight : Nat := 25
def vgaColor : Byte := 0x0F
def vgaCursorBlinkPeriod : U32 := 100

/-- The text buffer and the fields beside it. The ports of the hardware cursor are left out. -/
structure VGABuffer where
  buffer : Nat → Byte
  x : U16
  y : U16
  cursorVisible : Bool
  lastBlinkTick : U32

namespace VGABuffer

/-- An access to the text buffer; `none` is one outside its 4000 bytes. -/
def load (v : VGABuffer) (i : Nat) : Option Byte :=
  if i < 2 * (vgaWidth * vgaHeight) then some (v.buffer i) else none

def store (v : VGABuffer) (i : Nat) (b : Byte) : Option VGABuffer :=
  if i < 2 * (vgaWidth * vgaHeight) then some { v with buffer := Function.update v.buffer i b }
  else none

/-- The two bytes of a cell. -/
def storeCell (v : VGABuffer) (offset : Nat) (c : Byte) : Option VGABuffer := do
  let v ← v.store offset c
  v.store (offset + 1) vgaColor

end VGABuffer

open VGABuffer

/-- The body of the copy loops of `scroll_up`. -/
def copyCell (row : Nat) (v : VGABuffer) (column : Nat) : Option VGABuffer := do
  let source := (row * vgaWidth + column) * 2
  let target := ((row - 1) * vgaWidth + column) * 2
  let c ← v.load source
  let v ← v.store target c
  let color ← v.load (source + 1)
  v.store (target + 1) color

def blankCell (v : VGABuffer) (column : Nat) : Option VGABuffer :=
  v.storeCell (((vgaHeight - 1) * vgaWidth + column) * 2) 0x20

def scrollUp (v : VGABuffer) : Option VGABuffer := do
  let v ← (List.range (vgaHeight - 1)).foldlM
    (fun v i => (List.range vgaWidth).foldlM (copyCell (i + 1)) v) v
  (List.range vgaWidth).foldlM blankCell v

def advanceCursor (v : VGABuffer) : Option VGABuffer := do
  let v := { v with x := 0, y := v.y + 1 }
  if vgaHeight ≤ v.y.toNat then
    let v ← scrollUp v
    return { v with y := BitVec.ofNat 16 (vgaHeight - 1) }
  else return v

/-- The buffer is where it was; the fields are set. -/
def vgaInit (v : VGABuffer) : VGABuffer :=
  { v with x := 0, y := 0, cursorVisible := true, lastBlinkTick := 0 }

namespace VGABuffer

/-- `offset` of `putchar`, in 16 bits. -/
def offset (v : VGABuffer) : U16 := (v.y * BitVec.ofNat 16 vgaWidth + v.x) * 2

/-- Where a backspace takes the cursor. -/
def stepBack (v : VGABuffer) : VGABuffer :=
  if 0 < v.x then { v with x := v.x - 1 }
  else if 0 < v.y then { v with y := v.y - 1, x := BitVec.ofNat 16 (vgaWidth - 1) }
  else v

def putchar (v : VGABuffer) (c : Byte) : Option VGABuffer :=
  if c = 0x08 then
    let v := v.stepBack
    v.storeCell v.offset.toNat 0x20
  else if c = 0x0A then advanceCursor v
  else do
    let v ← v.storeCell v.offset.toNat c
    let v := { v with x := v.x + 1 }
    if vgaWidth ≤ v.x.toNat then advanceCursor v else return v

/-- The bytes of the string, up to the NUL that ends it. -/
def print (v : VGABuffer) (str : List Byte) : Option VGABuffer :=
  (str.takeWhile (· ≠ 0)).foldlM putchar v

def clear (v : VGABuffer) : Option VGABuffer := do
  let v ← (List.range (vgaWidth * vgaHeight)).foldlM (fun v i => v.storeCell (2 * i) 0x20) v
  return { v with x := 0, y := 0, cursorVisible := true, lastBlinkTick := 0 }

def tick (v : VGABuffer) (ticks : U32) : VGABuffer :=
  if ticks - v.lastBlinkTick < vgaCursorBlinkPeriod then v
  else { v with lastBlinkTick := ticks, cursorVisible := !v.cursorVisible }

end VGABuffer

/-- `buffer` is `none` for a null pointer, and otherwise the `size` bytes there. -/
def ksysWrite (v : VGABuffer) (buffer : Option (List Byte)) : Option (U32 × VGABuffer) :=
  match buffer with
  | none => some (0xFFFFFFFF, v)
  | some bytes => (bytes.foldlM putchar v).map (BitVec.ofNat 32 bytes.length, ·)

def ksysPrint (v : VGABuffer) (str : Option (List Byte)) : Option VGABuffer :=
  match str with
  | none => some v
  | some str => (ksysWrite v (some (str.takeWhile (· ≠ 0)))).map Prod.snd

/-- What the kernel does to the screen. -/
inductive ScreenOp where
  | putchar (c : Byte)
  | print (str : List Byte)
  | ksysWrite (buffer : Option (List Byte))
  | clear
  | tick (ticks : U32)

def ScreenOp.apply (v : VGABuffer) : ScreenOp → Option VGABuffer
  | .putchar c => v.putchar c
  | .print str => v.print str
  | .ksysWrite buffer => (Screen.ksysWrite v buffer).map Prod.snd
  | .clear => v.clear
  | .tick ticks => some (v.tick ticks)

end Kernix.Screen
