import Kernix.Library.Stack
import Kernix.Memory.Heap

namespace Kernix.Tasking
open Library Memory

def maxTasks : Nat := 8
def minStackSize : U32 := 1024
def stackAlignment : U32 := 16

structure Task where
  id : U32
  stack : U32
  stackSize : U32
  esp : U32
  active : Bool

/-- The globals of the scheduler. -/
structure Scheduler where
  tasks : Nat → Task
  taskCount : Nat
  currentTask : Nat
  schedulerStarted : Bool
  bootstrapSwitchPending : Bool

def taskingInit (t : Scheduler) : Scheduler where
  tasks i := if i < maxTasks then ⟨BitVec.ofNat 32 i, nullptr, 0, 0, false⟩ else t.tasks i
  taskCount := 0
  currentTask := 0
  schedulerStarted := false
  bootstrapSwitchPending := false

def Scheduler.setTask (t : Scheduler) (i : Nat) (k : Task) : Scheduler :=
  { t with tasks := fun j => if j = i then k else t.tasks j }

@[simp] theorem Scheduler.setTask_same (t : Scheduler) (i : Nat) (k : Task) :
    (t.setTask i k).tasks i = k := if_pos rfl

theorem Scheduler.setTask_ne {t : Scheduler} {i j : Nat} (h : j ≠ i) (k : Task) :
    (t.setTask i k).tasks j = t.tasks j := if_neg h

/-- What holds of the task written and of every other one holds of all. -/
theorem Scheduler.forall_setTask {t : Scheduler} {P : Nat → Task → Prop} {n i : Nat} {k : Task}
    (hold : ∀ j < n, j ≠ i → P j (t.tasks j)) (hnew : P i k) :
    ∀ j < n, P j ((t.setTask i k).tasks j) := by
  intro j hj
  by_cases he : j = i
  · rw [he, setTask_same]
    exact hnew
  · rw [setTask_ne he]
    exact hold j hj he

/-- The same of a task behind the others. -/
theorem Scheduler.forall_added {t : Scheduler} {P : Nat → Task → Prop} {k : Task}
    (hold : ∀ j < t.taskCount, P j (t.tasks j)) (hnew : P t.taskCount k) :
    ∀ j < t.taskCount + 1, P j ((t.setTask t.taskCount k).tasks j) := by
  apply forall_setTask
  · intro j hj hne
    exact hold j (Nat.lt_of_le_of_ne (Nat.le_of_lt_succ hj) hne)
  · exact hnew

def alignedStackSize (stackSize : U32) : U32 :=
  alignUp (if stackSize < minStackSize then minStackSize else stackSize) stackAlignment

/-- `stack_top`, rounded down. -/
def stackTop (stack stackSize : U32) : U32 := (stack + stackSize) &&& ~~~(stackAlignment - 1)

/-- What `task_create` pushes on a new stack: for `iretd`, then for `popad`. -/
def startWords (entry : U32) : List U32 :=
  [0x00000202, 0x00000008, entry, 0, 0, 0, 0, 0, 0, 0, 0]

def taskCreate (L : Layout) (s : State) (t : Scheduler) (entry stackSize : U32) :
    Option (Bool × State × Scheduler) := do
  if entry = nullptr ∨ maxTasks ≤ t.taskCount then return (false, s, t)
  let alignedStackSize := alignedStackSize stackSize
  let (rawStack, s) ← kmalloc L s alignedStackSize
  if rawStack = nullptr then return (false, s, t)
  let top := stackTop rawStack alignedStackSize
  let sp := top - BitVec.ofNat 32 (4 * (startWords entry).length)
  let task : Task := ⟨BitVec.ofNat 32 t.taskCount, rawStack, alignedStackSize, sp, true⟩
  return (true, { s with mem := s.mem.pushWords top (startWords entry) },
    { t.setTask t.taskCount task with taskCount := t.taskCount + 1 })

def taskingStart (t : Scheduler) : Scheduler :=
  if t.taskCount = 0 then t
  else { t with schedulerStarted := true, currentTask := 0, bootstrapSwitchPending := true }

/-- The loop of `tasking_schedule`: the first active task of the next `n` ones. -/
def nextTask (t : Scheduler) : Nat → Nat → Option Nat
  | 0, _ => none
  | n + 1, next =>
    let next := (next + 1) % t.taskCount
    if (t.tasks next).active then some next else nextTask t n next

def taskingSchedule (t : Scheduler) (currentEsp : U32) : U32 × Scheduler :=
  if t.schedulerStarted = false ∨ t.taskCount = 0 then (currentEsp, t)
  else if t.bootstrapSwitchPending then
    ((t.tasks t.currentTask).esp, { t with bootstrapSwitchPending := false })
  else
    let t := t.setTask t.currentTask { t.tasks t.currentTask with esp := currentEsp }
    match nextTask t t.taskCount t.currentTask with
    | some next => ((t.tasks next).esp, { t with currentTask := next })
    | none => (currentEsp, t)

end Kernix.Tasking
