import Kernix.Interrupts.Stubs
import Kernix.Memory.Client
import Kernix.Tasking.Tasks

namespace Kernix.Tasking
open Library Memory Interrupts Interrupts.Cpu

/-! Making the tasks. -/

/-- A call of `task_create` with its result. -/
structure Creation where
  entry : U32
  stackSize : U32
  ok : Bool

def CreateStep (L : Layout) (k : State × Scheduler) (e : Creation) (k' : State × Scheduler) : Prop :=
  taskCreate L k.1 k.2 e.entry e.stackSize = some (e.ok, k'.1, k'.2)

/-- The call does not come to `kmalloc`, or asks it for a size that does not wrap. -/
def Creation.NoWrap (k : State × Scheduler) (e : Creation) : Prop :=
  e.entry = nullptr ∨ maxTasks ≤ k.2.taskCount ∨
    Memory.NoWrap k.1 (alignedStackSize e.stackSize).toNat

/-- The entry points of the tasks made, in order. -/
def entries (es : List Creation) : List U32 := (es.filter Creation.ok).map Creation.entry

/-! Running them. -/

/-- The processor, the tick counter and the scheduler. -/
structure System where
  cpu : Cpu
  ticks : U32
  tasking : Scheduler

/-- `irq0_handler`; the screen and the interrupt controller have no part in it. -/
def irq0Handler (ticks : U32) (t : Scheduler) (currentEsp : U32) : U32 × U32 × Scheduler :=
  let ticks := ticks + 1
  let (esp, t) := taskingSchedule t currentEsp
  (esp, ticks, t)

def Task.InStack (k : Task) (x : U32) : Prop := (x - k.stack).toNat < k.stackSize.toNat

/-- What the running code may write: its own stack if it is a task, else all but the frames the
tasks start from. -/
def Scheduler.Owns (t : Scheduler) (x : U32) : Prop :=
  if t.schedulerStarted = true ∧ t.bootstrapSwitchPending = false then
    (t.tasks t.currentTask).InStack x
  else ∀ i < t.taskCount, 44 ≤ (x - (t.tasks i).esp).toNat

/-- The processor at the first instruction of `irq0_handler`, when the running code is interrupted
at `regs` and `segs`. -/
def tickEntry (regs : Regs) (segs : Segments) (mem : Mem) (stub ret : U32) : Cpu :=
  irq0Entry ret (Cpu.interrupt ⟨regs, segs, mem⟩ (irqGate stub))

/-- A tick: the running code has come to `regs` and `segs` and left the memory at `mem`, the
interrupt and `irq0_stub` push 13 words on its stack, and the handler returns in `back`. -/
structure Tick (s : System) (regs : Regs) (segs : Segments) (mem : Mem) (stub ret : U32)
    (back : Cpu) : Prop where
  runs : ∀ x, ¬ s.tasking.Owns x → mem x = s.cpu.mem x
  room : ∀ x, (x - (regs.esp - 52)).toNat < 52 → s.tasking.Owns x
  returned : Returned 1 11 (tickEntry regs segs mem stub ret) back
  result : back.regs.eax =
    (irq0Handler s.ticks s.tasking ((tickEntry regs segs mem stub ret).argument 0)).1
  writes : ∀ x, ¬ s.tasking.Owns x → back.mem x = (tickEntry regs segs mem stub ret).mem x

/-- A tick that interrupts at the first registers and resumes at the second. -/
def TickStep (s : System) (e : Regs × Regs) (s' : System) : Prop :=
  ∃ segs mem stub ret back, Tick s e.1 segs mem stub ret back ∧ s'.cpu = irq0Exit back ∧
    e.2 = s'.cpu.regs ∧ (s'.ticks, s'.tasking) =
      (irq0Handler s.ticks s.tasking ((tickEntry e.1 segs mem stub ret).argument 0)).2

/-! The tasks as machines of their own. -/

/-- `contexts i` is where task `i` goes on; before the first switch no task is running. -/
structure Machines where
  count : Nat
  contexts : Nat → Regs
  running : Option Nat

/-- A switch saves the registers of the running task and takes up those of the next. -/
inductive Machines.Step (a : Machines) : Regs × Regs → Machines → Prop
  | idle {r : Regs} : a.count = 0 → Step a (r, r) a
  | start {r : Regs} : a.count ≠ 0 → a.running = none →
      Step a (r, a.contexts 0) { a with running := some 0 }
  | switch {r : Regs} {i j : Nat} {contexts : Nat → Regs} : a.count ≠ 0 → a.running = some i →
      j = (i + 1) % a.count → contexts = Function.update a.contexts i r →
      Step a (r, contexts j) { a with contexts := contexts, running := some j }

/-- The registers a task starts with. -/
def startContext (entry : U32) (k : Task) : Regs where
  eax := 0
  ecx := 0
  edx := 0
  ebx := 0
  esp := stackTop k.stack k.stackSize
  ebp := 0
  esi := 0
  edi := 0
  eip := entry
  eflags := 0x202
  cs := 0x08

/-- The machines of the tasks that were just made. -/
def Machines.initial (entries : List U32) (t : Scheduler) : Machines where
  count := t.taskCount
  contexts i := startContext (entries.getD i 0) (t.tasks i)
  running := none

end Kernix.Tasking
