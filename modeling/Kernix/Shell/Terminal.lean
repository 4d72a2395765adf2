import Kernix.Library.LineEditor
import Kernix.Shell.Console

namespace Kernix.Shell
open Library Screen

/-! What the loops are for: a line editor in front of a shell. -/

variable {ω : Type}

def lineLimit : Nat := 1023

/-- What a character from the keyboard means to the loops. -/
def strokeOf (c : Byte) : Stroke Byte :=
  if c = 0x0A then .enter
  else if c = 0x08 then .erase
  else if 32 ≤ c.toInt ∧ c.toInt ≤ 126 then .char c
  else .other

/-- The editor after the keys. -/
def edited (keys : List Byte) : LineEditor Byte :=
  LineEditor.empty.strokes lineLimit (keys.map strokeOf)

structure Terminal (ω : Type) where
  editor : LineEditor Byte
  world : Option ω
  passed : List (List Byte)
  written : List ScreenOp

namespace Terminal

def start (w : ω) : Terminal ω := ⟨LineEditor.empty, some w, [], []⟩

/-- What a line is answered with, if it is one that is passed on. -/
def answer (shell : ShellInput ω) (passes : List Byte → Bool) (w : ω) (line : List Byte) : Reply ω :=
  if passes line then shell w line else ⟨[], id, some w⟩

/-- What is written for a key in front of which `line` stands. -/
def echo (line : List Byte) : Stroke Byte → List ScreenOp
  | .char c => if line.length < lineLimit then puts [c] else []
  | .erase => if line = [] then [] else puts [0x08, 0x20, 0x08]
  | .enter => puts [0x0A]
  | .other => []

/-- Nothing happens after a command that does not return. -/
def stroke (shell : ShellInput ω) (passes : List Byte → Bool) (t : Terminal ω) (k : Stroke Byte) :
    Terminal ω :=
  match t.world with
  | none => t
  | some w =>
    let line := t.editor.line
    let t := { t with
      editor := t.editor.stroke lineLimit k
      written := t.written ++ echo line k }
    match k with
    | .enter =>
      let r := answer shell passes w line
      { t with
        world := r.world
        passed := if passes line then t.passed ++ [line] else t.passed
        written := t.written ++ r.ops ++ if r.world.isSome then puts prompt else [] }
    | _ => t

end Terminal

/-- The lines that come to the shell one after the other, until a command does not return, and the
machine the last of them leaves. -/
def converse (shell : ShellInput ω) : Option ω → List (List Byte) → List (List Byte) × Option ω
  | w, [] => ([], w)
  | none, _ :: _ => ([], none)
  | some w, line :: lines =>
    let (passed, w) := converse shell (shell w line).world lines
    (line :: passed, w)

/-- All that is written while lines are typed without a correction: each line, its reply, and the
next prompt. -/
def dialogue (shell : ShellInput ω) : Option ω → List (List Byte) → List ScreenOp
  | _, [] => []
  | none, _ :: _ => []
  | some w, line :: lines =>
    let r := shell w line
    puts (line ++ [0x0A]) ++ r.ops ++ (if r.world.isSome then puts prompt else []) ++
      dialogue shell r.world lines

/-- `kernel_shell_loop` passes every line on, `user_mode_main` those that are not empty. -/
def anyLine (_ : List Byte) : Bool := true

def nonEmpty (line : List Byte) : Bool := !line.isEmpty

end Kernix.Shell
