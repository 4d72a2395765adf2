import Kernix.Tasking.Tasks

namespace Kernix.Tasking
open Library Memory

/-- A call of `task_create` with its result and the esp a new task starts with, of
`tasking_start`, or of `tasking_schedule` with the esp it is passed and the one it returns. -/
inductive SchedulerCall where
  | create (entry stackSize : U32) (ok : Bool) (esp : U32)
  | start
  | schedule (currentEsp esp : U32)

/-- The calls in any order, on any heap. `tasking_start` is called once, after a task is made. -/
inductive SchedulerStep (L : Layout) (t : Scheduler) : SchedulerCall → Scheduler → Prop
  | create {s s' : State} {entry stackSize : U32} {ok : Bool} {t' : Scheduler}
      (h : taskCreate L s t entry stackSize = some (ok, s', t')) :
      SchedulerStep L t (.create entry stackSize ok (t'.tasks t.taskCount).esp) t'
  | start (hfirst : t.schedulerStarted = false) (hmade : t.taskCount ≠ 0) :
      SchedulerStep L t .start (taskingStart t)
  | schedule (currentEsp : U32) :
      SchedulerStep L t (.schedule currentEsp (taskingSchedule t currentEsp).1)
        (taskingSchedule t currentEsp).2

/-- The task each of the next calls selects. -/
def selections : Scheduler → List U32 → List Nat
  | _, [] => []
  | t, esp :: esps =>
    (taskingSchedule t esp).2.currentTask :: selections (taskingSchedule t esp).2 esps

/-! What the scheduler is for: tasks that take turns. -/

inductive Turn where
  | notStarted
  | first
  | running (i : Nat)

/-- `esps` says where each task goes on: the esp it was last preempted with, or else the one it
was made with. -/
structure RoundRobin where
  esps : List U32
  turn : Turn

inductive RoundRobin.Step (a : RoundRobin) : SchedulerCall → RoundRobin → Prop
  | created {entry stackSize esp : U32} :
      Step a (.create entry stackSize true esp) { a with esps := a.esps ++ [esp] }
  | refused {entry stackSize esp : U32} : Step a (.create entry stackSize false esp) a
  | start (h : a.turn = .notStarted) (hmade : a.esps ≠ []) :
      Step a .start { a with turn := .first }
  | idle {currentEsp : U32} (h : a.turn = .notStarted) :
      Step a (.schedule currentEsp currentEsp) a
  | first {currentEsp esp : U32} (h : a.turn = .first) (he : a.esps[0]? = some esp) :
      Step a (.schedule currentEsp esp) { a with turn := .running 0 }
  | switch {currentEsp esp : U32} {i j : Nat} (h : a.turn = .running i)
      (hj : j = (i + 1) % a.esps.length) (he : (a.esps.set i currentEsp)[j]? = some esp) :
      Step a (.schedule currentEsp esp) ⟨a.esps.set i currentEsp, .running j⟩

end Kernix.Tasking
