import Kernix.Library.Devices
import Kernix.Library.Runs
import Kernix.Screen.VgaBuffer

namespace Kernix.Screen
open Library VGABuffer

def vgaCursorCommand : Port := 0x3D4
def vgaCursorData : Port := 0x3D5
def vgaCursorDisable : Byte := 0x20

/-- The screen, and the registers of the display controller that shows the cursor. -/
structure Display where
  screen : VGABuffer
  crtc : Indexed

namespace Display

def outb (d : Display) (port : Port) (value : Byte) : Display :=
  if port = vgaCursorCommand then { d with crtc := d.crtc.select value }
  else if port = vgaCursorData then { d with crtc := d.crtc.write value }
  else d

def inb (d : Display) (port : Port) : Byte :=
  if port = vgaCursorCommand then d.crtc.index
  else if port = vgaCursorData then d.crtc.read
  else 0xFF

end Display

/-- `sync_cursor` or `set_cursor_visible` under way: the display, the argument and the locals. -/
structure CursorCode where
  display : Display
  position : U16
  visible : Bool
  cursorStart : Byte

/-- The steps of the two functions, one access to a port each; `load` reads the field for the call
at the end of `sync_cursor`. -/
inductive CursorStep where
  | select (register : Byte)
  | writeLow
  | writeHigh
  | load
  | readStart
  | writeStart
deriving DecidableEq

def CursorStep.run (s : CursorCode) : CursorStep → CursorCode
  | .select register => { s with display := s.display.outb vgaCursorCommand register }
  | .writeLow =>
    { s with display := s.display.outb vgaCursorData ((s.position &&& 0xFF).setWidth 8) }
  | .writeHigh =>
    { s with display := s.display.outb vgaCursorData (((s.position >>> 8) &&& 0xFF).setWidth 8) }
  | .load => { s with visible := s.display.screen.cursorVisible }
  | .readStart => { s with cursorStart := s.display.inb vgaCursorData }
  | .writeStart =>
    { s with
      display := s.display.outb vgaCursorData
        (if s.visible then s.cursorStart &&& ~~~vgaCursorDisable
        else s.cursorStart ||| vgaCursorDisable) }

def CursorCode.runs (s : CursorCode) (steps : List CursorStep) : CursorCode :=
  steps.foldl CursorStep.run s

def setCursorVisible : List CursorStep :=
  [.select 0x0A, .readStart, .select 0x0A, .writeStart]

def syncCursor : List CursorStep :=
  [.select 0x0F, .writeLow, .select 0x0E, .writeHigh, .load] ++ setCursorVisible

namespace Display

/-- `position` of `sync_cursor`, in 16 bits. -/
def position (d : Display) : U16 := d.screen.y * BitVec.ofNat 16 vgaWidth + d.screen.x

/-- `sync_cursor` at its first port. -/
def enterSync (d : Display) : CursorCode := ⟨d, d.position, false, 0⟩

def blinks (d : Display) (ticks : U32) : Bool :=
  ¬ ticks - d.screen.lastBlinkTick < vgaCursorBlinkPeriod

/-- `tick`, with the call of `set_cursor_visible` where the cursor blinks. -/
def tick (d : Display) (ticks : U32) : Display :=
  let screen := d.screen.tick ticks
  if d.blinks ticks then
    ((⟨{ d with screen := screen }, 0, screen.cursorVisible, 0⟩ : CursorCode).runs
      setCursorVisible).display
  else { d with screen := screen }

end Display

/-- The kernel and the display: what is left of `sync_cursor`, after an operation on the screen. -/
structure CursorMachine where
  code : CursorCode
  todo : List CursorStep

inductive CursorEvent where
  | init
  | putchar (c : Byte)
  | clear
  | port
  | tick (ticks : U32)

namespace CursorMachine

def display (m : CursorMachine) : Display := m.code.display

/-- An operation has left `screen`, and comes to `sync_cursor`. -/
def synchronising (m : CursorMachine) (screen : VGABuffer) : CursorMachine :=
  ⟨{ m.display with screen := screen }.enterSync, syncCursor⟩

/-- The operations one after the other, and the ticks of the timer between any two steps. -/
inductive Step : CursorMachine → CursorEvent → CursorMachine → Prop
  | init {m : CursorMachine} (h : m.todo = []) :
      Step m .init (m.synchronising (vgaInit m.display.screen))
  | putchar {m : CursorMachine} {c : Byte} {v : VGABuffer} (h : m.todo = [])
      (hv : m.display.screen.putchar c = some v) : Step m (.putchar c) (m.synchronising v)
  | clear {m : CursorMachine} {v : VGABuffer} (h : m.todo = [])
      (hv : m.display.screen.clear = some v) : Step m .clear (m.synchronising v)
  | port {m : CursorMachine} {s : CursorStep} {rest : List CursorStep} (h : m.todo = s :: rest) :
      Step m .port ⟨s.run m.code, rest⟩
  | tick {m : CursorMachine} {ticks : U32} :
      Step m (.tick ticks) { m with code := { m.code with display := m.display.tick ticks } }

/-- The steps before which a blink does no harm: those that select a register of the position, and
the read of the field; and none at all. -/
def harmless : List CursorStep → Bool
  | [] => true
  | .select register :: _ => register = 0x0F || register = 0x0E
  | .load :: _ => true
  | _ => false

/-- Where the cursor blinks, it does so before a harmless step. -/
def Undisturbed (m : CursorMachine) : CursorEvent → Prop
  | .tick ticks => m.display.blinks ticks = true → harmless m.todo = true
  | _ => True

end CursorMachine

/-- The cursor stands on the display where the screen has it, and shows where it is visible. -/
structure Display.Shows (d : Display) : Prop where
  position : d.crtc.regs 0x0E ++ d.crtc.regs 0x0F = d.position
  visible : (d.crtc.regs 0x0A).getLsbD 5 = !d.screen.cursorVisible

end Kernix.Screen
