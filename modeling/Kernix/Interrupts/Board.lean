import Kernix.Interrupts.Controllers
import Kernix.Keyboard.ShiftKeys
import Kernix.Library.Runs

namespace Kernix.Interrupts
open Library Keyboard

/-- Where `irq0_handler` is: before it counts, before its end of interrupt, before it returns. -/
inductive Irq0Point where
  | count
  | eoi
  | ret

inductive Irq1Point where
  | inb
  | handle (scancode : Byte)
  | eoi
  | ret

/-- What the processor is at. -/
inductive Doing where
  | init (ws : List PortWrite)
  | main
  | irq0 (i : Irq0Point)
  | irq1 (i : Irq1Point)
  | stray (vector : Byte)

/-- Where a vector of the controllers leads. -/
def Doing.enter (vector : Byte) : Doing :=
  if vector = irq0Vector then .irq0 .count
  else if vector = irq1Vector then .irq1 .inb
  else .stray vector

/-- The machine from the ports of `interrupts_init` on. `kernel` is the keyboard driver with the
code that waits for its characters; `interrupted` holds what the interrupts came upon, with its
flag. -/
structure Board (σ : Type) where
  devices : Devices
  interruptFlag : Bool
  doing : Doing
  interrupted : List (Doing × Bool)
  gTicks : U32
  kernel : σ

inductive BoardEvent where
  | tick
  | missedTick
  | edge (line : Fin 16)
  | key (scancode : Byte)
  | accept
  | cpu
  | main (e : KeyEvent)

namespace Board

variable {σ : Type}

/-- An interrupt handler goes back to what it came upon. -/
def resume (b : Board σ) (d : Doing) (flag : Bool) (rest : List (Doing × Bool)) : Board σ :=
  { b with interruptFlag := flag, doing := d, interrupted := rest }

/-- The devices raise their lines at any time, the keyboard only where its last scancode has been
read. A tick is missed where the one before it still waits. The processor does its own next step, or
takes an interrupt. No task has been started, so that the timer's handler goes back to where it came
from. `sys` is what the kernel does, `halted` tells where it has turned the interrupts off for good.
-/
inductive Step (sys : σ → KeyEvent → σ → Prop) (halted : σ → Bool) :
    Board σ → BoardEvent → Board σ → Prop
  | tick {b : Board σ} (h : b.devices.pics.master.irr.getLsbD 0 = false) :
      Step sys halted b .tick { b with devices := b.devices.edge 0 }
  | missedTick {b : Board σ} (h : b.devices.pics.master.irr.getLsbD 0 = true) :
      Step sys halted b .missedTick b
  | edge {b : Board σ} {line : Fin 16} (h : 2 < line.val) :
      Step sys halted b (.edge line) { b with devices := b.devices.edge line }
  | key {b : Board σ} {scancode : Byte} (h : b.devices.keys.full = false) :
      Step sys halted b (.key scancode) { b with devices := b.devices.keyed scancode }
  | accept {b : Board σ} {vector : Byte} {pics : Pics} (hflag : b.interruptFlag = true)
      (h : b.devices.pics.acknowledge = some (vector, pics)) :
      Step sys halted b .accept
        { b with
          devices := { b.devices with pics := pics }
          interruptFlag := false
          doing := .enter vector
          interrupted := (b.doing, b.interruptFlag) :: b.interrupted }
  | write {b : Board σ} {port : Port} {value : Byte} {ws : List PortWrite}
      (h : b.doing = .init ((port, value) :: ws)) :
      Step sys halted b .cpu { b with devices := b.devices.outb port value, doing := .init ws }
  | enable {b : Board σ} (h : b.doing = .init []) :
      Step sys halted b .cpu { b with interruptFlag := true, doing := .main }
  | main {b : Board σ} {e : KeyEvent} {k : σ} (h : b.doing = .main) (he : e.scancode? = none)
      (hk : sys b.kernel e k) :
      Step sys halted b (.main e)
        { b with kernel := k, interruptFlag := b.interruptFlag && !halted k }
  | count {b : Board σ} (h : b.doing = .irq0 .count) :
      Step sys halted b .cpu { b with gTicks := b.gTicks + 1, doing := .irq0 .eoi }
  | eoi0 {b : Board σ} (h : b.doing = .irq0 .eoi) :
      Step sys halted b .cpu
        { b with devices := b.devices.outb pic1Command picEoi, doing := .irq0 .ret }
  | ret0 {b : Board σ} {d : Doing} {flag : Bool} {rest : List (Doing × Bool)}
      (h : b.doing = .irq0 .ret) (hi : b.interrupted = (d, flag) :: rest) :
      Step sys halted b .cpu (b.resume d flag rest)
  | inb {b : Board σ} (h : b.doing = .irq1 .inb) :
      Step sys halted b .cpu
        { b with
          devices := (b.devices.inb keyPort).2
          doing := .irq1 (.handle (b.devices.inb keyPort).1) }
  | handle {b : Board σ} {scancode : Byte} {k : σ} (h : b.doing = .irq1 (.handle scancode))
      (hk : sys b.kernel (.interrupt scancode) k) :
      Step sys halted b .cpu { b with kernel := k, doing := .irq1 .eoi }
  | eoi1 {b : Board σ} (h : b.doing = .irq1 .eoi) :
      Step sys halted b .cpu
        { b with devices := b.devices.outb pic1Command picEoi, doing := .irq1 .ret }
  | ret1 {b : Board σ} {d : Doing} {flag : Bool} {rest : List (Doing × Bool)}
      (h : b.doing = .irq1 .ret) (hi : b.interrupted = (d, flag) :: rest) :
      Step sys halted b .cpu (b.resume d flag rest)

/-- The scancode in the controller that nobody has read. -/
def unread (b : Board σ) : List Byte := if b.devices.keys.full then [b.devices.keys.data] else []

/-- The scancode that `irq1_handler` has read and not handed on. -/
def inHand (b : Board σ) : List Byte :=
  match b.doing with
  | .irq1 (.handle scancode) => [scancode]
  | _ => []

def tickAccepted : Doing → Nat
  | .irq0 .count => 1
  | _ => 0

/-- The ticks that are not counted yet: one that waits, and one that has been accepted. -/
def uncounted (b : Board σ) : Nat :=
  (b.devices.pics.master.irr.getLsbD 0).toNat + tickAccepted b.doing

end Board

def BoardEvent.key? : BoardEvent → Option Byte
  | .key scancode => some scancode
  | _ => none

/-- The scancodes that the keyboard has sent. -/
def sent (es : List BoardEvent) : List Byte := es.filterMap BoardEvent.key?

def BoardEvent.isTick : BoardEvent → Bool
  | .tick => true
  | _ => false

/-- The ticks of the timer that found no other one waiting. -/
def ticks (es : List BoardEvent) : Nat := es.countP BoardEvent.isTick

end Kernix.Interrupts
