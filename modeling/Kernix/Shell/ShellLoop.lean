import Kernix.Screen.VgaBuffer

namespace Kernix.Shell
open Library Screen

/-- The locals of `kernel_shell_loop`, and the screen. -/
structure ShellLoop where
  screen : VGABuffer
  input : Nat → Byte
  length : Nat

/-- A store into the 1024 bytes of `input`; `none` is one outside. -/
def storeInput (input : Nat → Byte) (i : Nat) (b : Byte) : Option (Nat → Byte) :=
  if i < 1024 then some (Function.update input i b) else none

/-- What a call of `shell_handle_input` does to the screen, and how it leaves the line it was
passed. -/
structure Command where
  ops : List ScreenOp
  input : Nat → Byte

def prompt : List Byte := [0x0A, 0x3E, 0x20]

/-- One turn of the loop, with what the command does if the character ends the line. The tests of
a printable character are of a signed `char`. -/
def ShellLoop.key (s : ShellLoop) (c : Byte) (command : Command) : Option ShellLoop :=
  if c = 0x0A then do
    let _ ← storeInput s.input s.length 0
    let v ← s.screen.putchar 0x0A
    let v ← command.ops.foldlM ScreenOp.apply v
    let v ← ksysPrint v (some prompt)
    return ⟨v, command.input, 0⟩
  else if c = 0x08 then
    if 0 < s.length then do
      let v ← s.screen.putchar 0x08
      let v ← v.putchar 0x20
      let v ← v.putchar 0x08
      return { s with screen := v, length := s.length - 1 }
    else return s
  else if 32 ≤ c.toInt ∧ c.toInt ≤ 126 ∧ s.length < 1023 then do
    let input ← storeInput s.input s.length c
    let v ← s.screen.putchar c
    return ⟨v, input, s.length + 1⟩
  else return s

/-- A character from `keyboard_getchar`, or a tick of the timer while the loop waits for one. -/
inductive ShellEvent where
  | key (c : Byte) (command : Command)
  | tick (ticks : U32)

def ShellLoop.apply (s : ShellLoop) : ShellEvent → Option ShellLoop
  | .key c command => s.key c command
  | .tick ticks => some { s with screen := s.screen.tick ticks }

end Kernix.Shell
