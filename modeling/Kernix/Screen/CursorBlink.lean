import Kernix.Library.Runs
import Kernix.Screen.VgaBuffer

namespace Kernix.Screen
open Library VGABuffer

/-- The tick counter and the screen it blinks the cursor of. `age` is not in the code: the ticks
since the cursor last changed in `tick`, or the screen was cleared, or all began. -/
structure Blinker where
  gTicks : U32
  vgaBuffer : VGABuffer
  age : Nat

inductive BlinkEvent where
  | tick
  | putchar (c : Byte)
  | clear
deriving DecidableEq

namespace Blinker

def start (v : VGABuffer) : Blinker := ⟨0, vgaInit v, 0⟩

/-- The part of `irq0_handler` that concerns the screen. -/
def irq0Handler (b : Blinker) : Blinker :=
  let ticks := b.gTicks + 1
  let v := b.vgaBuffer.tick ticks
  ⟨ticks, v, if v.cursorVisible = b.vgaBuffer.cursorVisible then b.age + 1 else 0⟩

def Step (b : Blinker) : BlinkEvent → Blinker → Prop
  | .tick, b' => b' = b.irq0Handler
  | .putchar c, b' => ∃ v, b.vgaBuffer.putchar c = some v ∧ b' = { b with vgaBuffer := v }
  | .clear, b' => ∃ v, b.vgaBuffer.clear = some v ∧ b' = { b with vgaBuffer := v, age := 0 }

/-- The screen is cleared where the zero that `clear` stores is the time, or all but. -/
def ClearsAtZero (b : Blinker) (e : BlinkEvent) : Prop :=
  e = .clear → b.gTicks = 0 ∨ b.gTicks = 0xFFFFFFFF

end Blinker

end Kernix.Screen
