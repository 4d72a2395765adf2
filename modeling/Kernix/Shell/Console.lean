import Kernix.Keyboard.Scancodes
import Kernix.Shell.ShellLoop

namespace Kernix.Shell
open Library Screen Keyboard

variable {ω : Type}

/-- What a call of `shell_handle_input` does: to the screen, to the bytes it was passed, and to
the rest of the machine; `none` if it does not return. -/
structure Reply (ω : Type) where
  ops : List ScreenOp
  input : (Nat → Byte) → Nat → Byte
  world : Option ω

/-- Any shell: it sees the rest of the machine and the line. -/
abbrev ShellInput (ω : Type) := ω → List Byte → Reply ω

/-- The locals of a shell loop and the rest of the machine, with the lines the loop has passed on
and all that was written. In a machine that is `none` a command has not returned. -/
structure Console (ω : Type) where
  input : Nat → Byte
  length : Nat
  world : Option ω
  passed : List (List Byte)
  written : List ScreenOp

/-- The loop is entered with nothing in order in its buffer. -/
def Console.start (input : Nat → Byte) (w : ω) : Console ω := ⟨input, 0, some w, [], []⟩

/-- The bytes of the 1024 before the first NUL. -/
def lineOf (input : Nat → Byte) : List Byte := ((List.range 1024).map input).takeWhile (· ≠ 0)

/-- Characters that go to the screen one by one. -/
def puts (cs : List Byte) : List ScreenOp := cs.map .putchar

def Console.write (s : Console ω) (ops : List ScreenOp) : Console ω :=
  { s with written := s.written ++ ops }

def Console.shellHandleInput (shell : ShellInput ω) (s : Console ω) (w : ω) : Console ω :=
  let r := shell w (lineOf s.input)
  { s with
    input := r.input s.input
    world := r.world
    passed := s.passed ++ [lineOf s.input]
    written := s.written ++ r.ops }

/-- The rest of the turn, if the command has returned: the next prompt. -/
def Console.nextLine (s : Console ω) (prompt : List Byte) : Console ω :=
  match s.world with
  | some _ => { s.write (puts prompt) with length := 0 }
  | none => s

/-- One turn of `kernel_shell_loop`. -/
def Console.kernelKey (shell : ShellInput ω) (s : Console ω) (c : Byte) : Option (Console ω) :=
  match s.world with
  | none => some s
  | some w =>
    if c = 0x0A then do
      let input ← storeInput s.input s.length 0
      let s := ({ s with input := input }).write (puts [0x0A])
      let s := s.shellHandleInput shell w
      return s.nextLine (prompt.takeWhile (· ≠ 0))
    else if c = 0x08 then
      if 0 < s.length then
        return ({ s with length := s.length - 1 }).write (puts [0x08, 0x20, 0x08])
      else return s
    else if 32 ≤ c.toInt ∧ c.toInt ≤ 126 ∧ s.length < 1023 then do
      let input ← storeInput s.input s.length c
      return ({ s with input := input, length := s.length + 1 }).write (puts [c])
    else return s

/-- One turn of `user_mode_main`, with the kernel functions for the `sys_` wrappers:
`ksys_getchar` widens the `char`. -/
def Console.userKey (shell : ShellInput ω) (s : Console ω) (key : Byte) : Option (Console ω) :=
  match s.world with
  | none => some s
  | some w =>
    let c : U32 := key.signExtend 32
    if c = 0xFFFFFFFF then some s
    else
      let ch : Byte := c.setWidth 8
      let ch := if ch = 0x0D then 0x0A else ch
      if ch = 0x0A then do
        let input ← storeInput s.input s.length 0
        let s := ({ s with input := input }).write (puts [0x0A])
        let s := if s.input 0 ≠ (0 : Byte) then s.shellHandleInput shell w else s
        return s.nextLine (prompt.take 3)
      else if ch = 0x08 then
        if 0 < s.length then
          return ({ s with length := s.length - 1 }).write (puts [0x08, 0x20, 0x08])
        else return s
      else if 32 ≤ ch.toInt ∧ ch.toInt ≤ 126 ∧ s.length < 1023 then do
        let input ← storeInput s.input s.length ch
        return ({ s with input := input, length := s.length + 1 }).write (puts [ch])
      else return s

/-- Some scancode types the character. -/
def Typed (c : Byte) : Prop := ∃ k scancode, handed k scancode = some c

/-- While the commands return, Enter is never pressed on an empty line. -/
def NoEmptyLine (shell : ShellInput ω) (s : Console ω) (keys : List Byte) : Prop :=
  ∀ before after, keys = before ++ 0x0A :: after →
    ∀ t w, before.foldlM (Console.kernelKey shell) s = some t → t.world = some w → t.length ≠ 0

end Kernix.Shell
