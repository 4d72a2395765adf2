import Kernix.Keyboard.Typing
import Kernix.Library.Runs
import Kernix.Shell.Console

namespace Kernix.Shell
open Library Keyboard

variable {ω : Type}

/-- The keyboard driver, and `kernel_shell_loop` that takes its characters. -/
structure Machine (ω : Type) where
  session : Session
  console : Console ω

namespace Machine

/-- After `keyboard_init`, at the first `keyboard_getchar`. -/
def start (k : KeyboardState) (input : Nat → Byte) (w : ω) : Machine ω :=
  ⟨Session.start (keyboardInit k), Console.start input w⟩

/-- Scancodes come in at any time, also while a command runs: the command does not touch the driver.
Nothing comes any more where a command has halted the machine. -/
inductive Step (shell : ShellInput ω) : Machine ω → KeyEvent → Machine ω → Prop
  | interrupt {m : Machine ω} {scancode : Byte} {s : Session} (hw : m.console.world ≠ none)
      (hs : m.session.Step (.interrupt scancode) s) :
      Step shell m (.interrupt scancode) { m with session := s }
  | check {m : Machine ω} {s : Session} (hw : m.console.world ≠ none)
      (hs : m.session.Step .check s) : Step shell m .check { m with session := s }
  | read {m : Machine ω} {s : Session} (hw : m.console.world ≠ none)
      (hs : m.session.Step .read s) : Step shell m .read { m with session := s }
  | advance {m : Machine ω} {s : Session} {c : Byte} {console : Console ω}
      (hw : m.console.world ≠ none) (hc : m.session.consumer = .advancing c)
      (hs : m.session.Step .advance s) (hkey : m.console.kernelKey shell c = some console) :
      Step shell m .advance ⟨s, console⟩

/-- A scancode that types a character finds a slot for it. -/
def HasRoom (m : Machine ω) : KeyEvent → Prop
  | .interrupt scancode =>
    handed m.session.keyboard scancode ≠ none → accepts m.session.keyboard = true
  | _ => True

end Machine

/-- A text that is typed as one line: no control characters, and not too long for the buffer. -/
structure TypedLine where
  text : List Keypress
  printable : ∀ p ∈ text, 32 ≤ p.char.toInt ∧ p.char.toInt ≤ 126
  short : text.length ≤ 1023
  enter : Keypress
  newline : enter.char = 0x0A

namespace TypedLine

def line (l : TypedLine) : List Byte := l.text.map Keypress.char

def codes (l : TypedLine) : List Byte := pressed (l.text ++ [l.enter])

end TypedLine

end Kernix.Shell
