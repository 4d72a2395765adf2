import Kernix.Calc.Powers
import Kernix.Shell.Console
import Kernix.Strings.Compare
import Kernix.Syscalls.Dispatch

namespace Kernix.Shell
open Library Screen Strings Calc Syscalls

/-! `shell_handle_input`. -/

/-- Its chain of `if`s, the last `else` apart. -/
inductive Branch where
  | help
  | clear
  | about
  | version
  | ticks
  | systicks
  | syswrite
  | mem
  | panic
  | echo
  | calc
deriving DecidableEq

/-- The tests, in their order. -/
def tests : List (List Byte × Branch) :=
  [(text "help", .help), (text "clear", .clear), (text "about", .about),
    (text "version", .version), (text "ver", .version), (text "-v", .version),
    (text "ticks", .ticks), (text "systicks", .systicks), (text "syswrite", .syswrite),
    (text "mem", .mem), (text "panic", .panic), (text "echo", .echo), (text "calc", .calc)]

/-- The first test that `command` passes; inside, `none` is the last `else`. -/
def findBranch (command : List Byte) : List (List Byte × Branch) → Option (Option Branch)
  | [] => some none
  | (name, c) :: tests => do
    if (← strcmp command (name ++ [0])) = 0 then return some c
    else findBranch command tests

/-- What `shell_handle_input` has made of its argument: the space is a NUL now. -/
structure Call where
  input : List Byte
  space : Option Nat
  branch : Option Branch

def Call.read (input : List Byte) : Option Call := do
  let space ← findSpace input
  let input := match space with
    | some i => input.set i 0
    | none => input
  let branch ← findBranch input tests
  return ⟨input, space, branch⟩

/-- The bytes of a string, up to the NUL that ends it. -/
def stringAt (p : List Byte) : List Byte := p.takeWhile (· ≠ 0)

/-- The string `args`, if it is no null pointer. -/
def Call.args (call : Call) : Option (List Byte) :=
  call.space.map fun i => stringAt (call.input.drop (i + 1))

/-- What the kernel functions return that the shell calls by themselves: `interrupts_get_ticks` and
the sums over the heap. -/
structure Kernel where
  interruptsGetTicks : U32
  kmallocTotal : U32
  kmallocUsed : U32
  kmallocRemaining : U32

/-- `ksys_print` of a string that is not null. -/
def printOp (str : List Byte) : ScreenOp := .ksysWrite (some str)

def helpText : List ScreenOp :=
  [printOp (text "Available commands:\n"),
    printOp (text "help - Show this help message\n"),
    printOp (text "clear - Clear the screen\n"),
    printOp (text "about - About project\n"),
    printOp (text "version - Show kernel version\n"),
    printOp (text "ticks - Show timer ticks (kernel call)\n"),
    printOp (text "systicks - Show ticks via syscall (int 0x90)\n"),
    printOp (text "syswrite <text> - Write text via syscall\n"),
    printOp (text "mem - Show allocator status\n"),
    printOp (text "panic - Trigger a test exception\n"),
    printOp (text "echo <text> - Echo text\n"),
    printOp (text "calc - Simple calculator (usage: calc <num1> <op> <num2>, calc help)\n")]

/-- `ticks` is what `sys_get_ticks` has returned. -/
def systicksReport (ticks : U32) : List ScreenOp :=
  printOp (text "systicks: ") :: puts (printUint32 ticks) ++ puts (text "\n")

/-- `result` is what `sys_write` has returned. -/
def syswriteReport (args : Option (List Byte)) (result : U32) : List ScreenOp :=
  match args with
  | none => [printOp (text "Usage: syswrite <text>\n")]
  | some str =>
    printOp (text "[DEBUG] len=") :: puts (printUint32 (BitVec.ofNat 32 str.length)) ++
      [printOp (text " text="), printOp str, printOp (text " -> "),
        printOp (text "syscall result: ")] ++
      puts (printUint32 result) ++ puts (text "\n")

def memReport (k : Kernel) : List ScreenOp :=
  printOp (text "heap total: ") :: puts (printUint32 k.kmallocTotal) ++ [printOp (text " bytes\n")] ++
    printOp (text "heap used: ") :: puts (printUint32 k.kmallocUsed) ++ [printOp (text " bytes\n")] ++
    printOp (text "heap free: ") :: puts (printUint32 k.kmallocRemaining) ++ [printOp (text " bytes\n")]

/-- What is written, and whether the command returns. The two system calls write nothing themselves
and give their call numbers, 0 and 1, as `int90` does for their wrappers. A division that traps comes
before anything is written, and the kernel halts in the handler of the exception. -/
def Call.run (k : Kernel) (call : Call) : List ScreenOp × Bool :=
  match call.branch with
  | some .help => (helpText, true)
  | some .clear => ([.clear], true)
  | some .about =>
    ([printOp (text "Kernix it is the simple representation of monolith kernel.\n")], true)
  | some .version => ([printOp (text "Kenel v0.0.9\n"), printOp (text "Shell v0.0.3\n")], true)
  | some .ticks =>
    (printOp (text "ticks: ") :: puts (printUint32 k.interruptsGetTicks) ++ puts (text "\n"), true)
  | some .systicks => (systicksReport 0, true)
  | some .syswrite => (syswriteReport call.args 1, true)
  | some .mem => (memReport k, true)
  | some .panic => ([printOp (text "Triggering divide-by-zero exception...\n")], false)
  | some .echo => ((call.args.map printOp).toList ++ puts (text "\n"), true)
  | some .calc =>
    match calcInit call.args with
    | .ok cs => (puts cs, true)
    | .error _ => ([], false)
  | none =>
    (printOp (text "Unknown command: ") :: printOp (stringAt call.input) :: puts (text "\n"), true)

/-- The call's effect on the line it was passed. -/
def Call.store (call : Call) (input : Nat → Byte) : Nat → Byte :=
  match call.space with
  | some i => Function.update input i 0
  | none => input

def Call.reply (k : Kernel) (call : Call) : Reply Kernel :=
  let (ops, returns) := call.run k
  ⟨ops, call.store, if returns then some k else none⟩

def shellHandleInput (k : Kernel) (input : List Byte) : Option (Reply Kernel) := do
  let call ← Call.read input
  return call.reply k

/-- The shell that the loops pass their lines to. The line is in memory, with its NUL. -/
def kernelShell : ShellInput Kernel := fun k line =>
  (shellHandleInput k (line ++ [0])).getD ⟨[], id, none⟩

/-! What a line asks for. -/

/-- The names a branch is for. -/
def Branch.names : Branch → List (List Byte)
  | .help => [text "help"]
  | .clear => [text "clear"]
  | .about => [text "about"]
  | .version => [text "version", text "ver", text "-v"]
  | .ticks => [text "ticks"]
  | .systicks => [text "systicks"]
  | .syswrite => [text "syswrite"]
  | .mem => [text "mem"]
  | .panic => [text "panic"]
  | .echo => [text "echo"]
  | .calc => [text "calc"]

/-- The text before the first space of a line. -/
def firstWord (line : List Byte) : List Byte := line.takeWhile (· ≠ 0x20)

/-- The text behind it, if there is one. -/
def textBehind (line : List Byte) : Option (List Byte) :=
  match line.dropWhile (· ≠ 0x20) with
  | [] => none
  | _ :: args => some args

/-- The call is what `shell_handle_input` has to make of a line. -/
structure Call.Of (call : Call) (line : List Byte) : Prop where
  word : stringAt call.input = firstWord line
  args : call.args = textBehind line
  space : call.space = (textBehind line).map fun _ => (firstWord line).length
  branch : ∀ branch : Branch, call.branch = some branch ↔ firstWord line ∈ branch.names

end Kernix.Shell
