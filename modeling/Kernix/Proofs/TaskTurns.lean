import Mathlib.Data.List.Rotate
import Kernix.Library.Runs
import Kernix.Proofs.ContextSwitches
import Kernix.Tasking.RoundRobin

namespace Kernix.Proofs
open Library Memory Tasking

variable {L : Layout} {s s' : State} {t t' : Scheduler} {a : RoundRobin} {entry size : U32}
  {es : List SchedulerCall}

/-- Where the scheduler keeps what the turns are about. -/
structure Turns (t : Scheduler) (a : RoundRobin) : Prop where
  count : t.taskCount = a.esps.length
  limit : t.taskCount ≤ maxTasks
  esp : ∀ i < t.taskCount, a.esps[i]? = some (t.tasks i).esp
  active : ∀ i < t.taskCount, (t.tasks i).active = true
  turn : match a.turn with
    | .notStarted => t.schedulerStarted = false
    | .first => t.schedulerStarted = true ∧ t.bootstrapSwitchPending = true ∧
        t.currentTask = 0 ∧ 0 < t.taskCount
    | .running i => t.schedulerStarted = true ∧ t.bootstrapSwitchPending = false ∧
        t.currentTask = i ∧ i < t.taskCount

theorem taskingInit_turns (t : Scheduler) : Turns (taskingInit t) ⟨[], .notStarted⟩ where
  count := rfl
  limit := Nat.zero_le _
  esp i hi := absurd hi (Nat.not_lt_zero i)
  active i hi := absurd hi (Nat.not_lt_zero i)
  turn := rfl

/-- A task is made behind the others, or nothing changes. -/
theorem taskCreate_adds {ok : Bool} (h : taskCreate L s t entry size = some (ok, s', t')) :
    (ok = false ∧ t' = t) ∨
      (ok = true ∧ t.taskCount < maxTasks ∧ ∃ k : Task, k.active = true ∧
        t' = { t.setTask t.taskCount k with taskCount := t.taskCount + 1 }) := by
  rcases taskCreate_cases h with ⟨-, hok, -, ht⟩ | ⟨-, hcount, q, s₁, -, hcase⟩
  · exact .inl ⟨hok, ht⟩
  · rcases hcase with ⟨-, hok, -, ht⟩ | ⟨-, hok, -, ht⟩
    · exact .inl ⟨hok, ht⟩
    · exact .inr ⟨hok, hcount, _, rfl, ht⟩

theorem Turns.create {ok : Bool} (ht : Turns t a)
    (h : taskCreate L s t entry size = some (ok, s', t')) :
    ∃ a', RoundRobin.Step a (.create entry size ok (t'.tasks t.taskCount).esp) a' ∧
      Turns t' a' := by
  rcases taskCreate_adds h with ⟨rfl, rfl⟩ | ⟨rfl, hroom, k, hactive, rfl⟩
  · exact ⟨a, .refused, ht⟩
  have hcount := ht.count
  have hesp : ∀ i < t.taskCount + 1,
      (a.esps ++ [k.esp])[i]? = some ((t.setTask t.taskCount k).tasks i).esp := by
    refine Scheduler.forall_added (P := fun i k' => (a.esps ++ [k.esp])[i]? = some k'.esp) ?_ ?_
    · intro i hi
      rw [List.getElem?_append_left (hcount ▸ hi)]
      exact ht.esp i hi
    · rw [hcount, List.getElem?_concat_length]
  have hactive := Scheduler.forall_added (P := fun _ k => k.active = true) ht.active hactive
  have hnew : ((t.setTask t.taskCount k).tasks t.taskCount).esp = k.esp := by
    rw [Scheduler.setTask_same]
  dsimp only
  rw [hnew]
  refine ⟨_, .created, ?_, hroom, hesp, hactive, ?_⟩
  · simp [hcount]
  · have hturn := ht.turn
    cases hphase : a.turn with
    | notStarted =>
      rw [hphase] at hturn
      exact hturn
    | first =>
      rw [hphase] at hturn
      exact ⟨hturn.1, hturn.2.1, hturn.2.2.1, Nat.succ_pos _⟩
    | running i =>
      rw [hphase] at hturn
      exact ⟨hturn.1, hturn.2.1, hturn.2.2.1, Nat.lt_succ_of_lt hturn.2.2.2⟩

theorem Turns.start (ht : Turns t a) (hfirst : t.schedulerStarted = false)
    (hmade : t.taskCount ≠ 0) :
    ∃ a', RoundRobin.Step a .start a' ∧ Turns (taskingStart t) a' := by
  have hturn := ht.turn
  have hphase : a.turn = .notStarted := by
    cases hphase : a.turn with
    | notStarted => rfl
    | first => simp [hphase, hfirst] at hturn
    | running i => simp [hphase, hfirst] at hturn
  have hne : a.esps ≠ [] := by
    rintro hnil
    exact hmade (by rw [ht.count, hnil]; rfl)
  rw [taskingStart, if_neg hmade]
  exact ⟨_, .start hphase hne, ht.count, ht.limit, ht.esp, ht.active, rfl, rfl, rfl,
    Nat.pos_of_ne_zero hmade⟩

/-- Before the start. -/
theorem schedule_notStarted (esp : U32) (hstarted : t.schedulerStarted = false) :
    taskingSchedule t esp = (esp, t) := by
  rw [taskingSchedule, if_pos (.inl hstarted)]

theorem Turns.schedule (ht : Turns t a) (esp : U32) :
    ∃ a', RoundRobin.Step a (.schedule esp (taskingSchedule t esp).1) a' ∧
      Turns (taskingSchedule t esp).2 a' := by
  have hcount := ht.count
  have hturn := ht.turn
  cases hphase : a.turn with
  | notStarted =>
    rw [hphase] at hturn
    rw [schedule_notStarted esp hturn]
    exact ⟨a, .idle hphase, ht⟩
  | first =>
    rw [hphase] at hturn
    obtain ⟨hstarted, hpending, hcurrent, hpos⟩ := hturn
    rw [schedule_start esp hstarted (Nat.ne_of_gt hpos) hpending]
    refine ⟨_, .first hphase ?_, hcount, ht.limit, ht.esp, ht.active, hstarted, rfl, hcurrent, hpos⟩
    rw [hcurrent]
    exact ht.esp 0 hpos
  | running i =>
    rw [hphase] at hturn
    obtain ⟨hstarted, hpending, hcurrent, hi⟩ := hturn
    have hpos : 0 < t.taskCount := Nat.zero_lt_of_lt hi
    have hnext : (i + 1) % t.taskCount < t.taskCount := Nat.mod_lt _ hpos
    have hsaved : ∀ j < t.taskCount, (a.esps.set i esp)[j]? =
        some ((t.setTask i { t.tasks i with esp := esp }).tasks j).esp := by
      refine Scheduler.forall_setTask (P := fun j k => (a.esps.set i esp)[j]? = some k.esp) ?_ ?_
      · intro j hj hne
        rw [List.getElem?_set_ne (Ne.symm hne)]
        exact ht.esp j hj
      · rw [List.getElem?_set_self (hcount ▸ hi)]
    have hactive : ∀ j < t.taskCount,
        ((t.setTask i { t.tasks i with esp := esp }).tasks j).active = true :=
      Scheduler.forall_setTask (P := fun _ k => k.active = true) (fun j hj _ => ht.active j hj)
        (ht.active i hi)
    rw [schedule_switch esp hstarted (Nat.ne_of_gt hpos) hpending ht.active (hcurrent ▸ hi),
      hcurrent]
    refine ⟨_, .switch hphase (by rw [hcount]) (hsaved _ hnext), ?_, ht.limit, hsaved, hactive,
      hstarted, hpending, rfl, hnext⟩
    rw [List.length_set]
    exact hcount

/-- Each call is a step of the turns. -/
theorem Turns.step {e : SchedulerCall} (ht : Turns t a) (hstep : SchedulerStep L t e t') :
    ∃ a', RoundRobin.Step a e a' ∧ Turns t' a' := by
  cases hstep with
  | create h => exact ht.create h
  | start hfirst hmade => exact ht.start hfirst hmade
  | schedule esp => exact ht.schedule esp

/-! Who is selected, call after call. -/

theorem selections_cons (t : Scheduler) (esp : U32) (esps : List U32) :
    selections t (esp :: esps) =
      (taskingSchedule t esp).2.currentTask :: selections (taskingSchedule t esp).2 esps := rfl

theorem Turns.running (ht : Turns t a) (hstarted : t.schedulerStarted = true)
    (hpending : t.bootstrapSwitchPending = false) :
    a.turn = .running t.currentTask ∧ t.currentTask < t.taskCount := by
  have hturn := ht.turn
  cases hphase : a.turn with
  | notStarted => simp [hphase, hstarted] at hturn
  | first => simp [hphase, hpending] at hturn
  | running i =>
    rw [hphase] at hturn
    obtain ⟨-, -, rfl, hi⟩ := hturn
    exact ⟨rfl, hi⟩

/-- Once a task runs, each call moves on to the next one, round and round. -/
theorem Turns.selections_running (ht : Turns t a) (hstarted : t.schedulerStarted = true)
    (hpending : t.bootstrapSwitchPending = false) (esps : List U32) :
    selections t esps =
      (List.range esps.length).map fun k => (t.currentTask + 1 + k) % t.taskCount := by
  induction esps generalizing t a with
  | nil => rfl
  | cons esp esps ih =>
    have hcurrent := (ht.running hstarted hpending).2
    have hswitch := schedule_switch esp hstarted (Nat.ne_of_gt (Nat.zero_lt_of_lt hcurrent))
      hpending ht.active hcurrent
    obtain ⟨a', -, ht'⟩ := ht.schedule esp
    rw [hswitch] at ht'
    rw [selections_cons, hswitch, ih ht' hstarted hpending, List.length_cons,
      List.range_succ_eq_map, List.map_cons, List.map_map, Nat.add_zero]
    congr 1
    apply List.map_congr_left
    intro k _
    change ((t.currentTask + 1) % t.taskCount + 1 + k) % t.taskCount =
      (t.currentTask + 1 + (k + 1)) % t.taskCount
    rw [Nat.add_assoc, Nat.mod_add_mod, Nat.add_comm 1 k]

/-- Counting on from any number, modulo `n`. -/
theorem range_rotate (n a : Nat) :
    (List.range n).rotate a = (List.range n).map fun k => (a + k) % n := by
  apply List.ext_getElem (by simp)
  intro k hk _
  simp only [List.getElem_rotate, List.getElem_range, List.getElem_map, List.length_range]
  rw [Nat.add_comm]

/-- As many calls as there are tasks, with none made in between, select each task once. -/
theorem Turns.selections_perm (ht : Turns t a) (hstarted : t.schedulerStarted = true)
    {esps : List U32} (hlen : esps.length = t.taskCount) :
    (selections t esps).Perm (List.range t.taskCount) := by
  cases hpending : t.bootstrapSwitchPending with
  | false =>
    rw [ht.selections_running hstarted hpending, hlen, ← range_rotate]
    exact List.rotate_perm _ _
  | true =>
    -- the first call takes up task 0, the others go on from there
    have hturn := ht.turn
    cases hphase : a.turn with
    | notStarted => simp [hphase, hstarted] at hturn
    | running i => simp [hphase, hpending] at hturn
    | first =>
      rw [hphase] at hturn
      obtain ⟨-, -, hcurrent, hpos⟩ := hturn
      cases esps with
      | nil => exact absurd hlen (Nat.ne_of_lt hpos)
      | cons esp esps =>
        have hfirst := schedule_start esp hstarted (Nat.ne_of_gt hpos) hpending
        obtain ⟨a', -, ht'⟩ := ht.schedule esp
        rw [hfirst] at ht'
        have hrest := ht'.selections_running hstarted rfl esps
        have hall : selections t (esp :: esps) =
            (List.range t.taskCount).map fun k => (0 + k) % t.taskCount := by
          rw [List.length_cons] at hlen
          rw [selections_cons, hfirst, hrest, ← hlen, List.range_succ_eq_map, List.map_cons,
            List.map_map]
          refine List.cons_eq_cons.mpr ⟨by simp [hcurrent], List.map_congr_left ?_⟩
          intro k _
          change (t.currentTask + 1 + k) % (esps.length + 1) = (0 + (k + 1)) % (esps.length + 1)
          rw [hcurrent, Nat.zero_add, Nat.zero_add, Nat.add_comm]
        rw [hall, ← range_rotate, List.rotate_zero]

/-- In every run of the scheduler its tasks take turns: it answers as the turns do, and as many
calls as there are tasks, with none made in between, select each task once. -/
theorem scheduler_is_round_robin (L : Layout) (t₀ : Scheduler)
    (hrun : Run (SchedulerStep L) (taskingInit t₀) es t) :
    (∃ a, Run RoundRobin.Step ⟨[], .notStarted⟩ es a ∧ Turns t a) ∧
      ∀ esps : List U32, t.schedulerStarted = true → esps.length = t.taskCount →
        (selections t esps).Perm (List.range t.taskCount) := by
  have hturns : ∃ a, Run RoundRobin.Step ⟨[], .notStarted⟩ es a ∧ Turns t a := by
    apply hrun.simulate (taskingInit_turns t₀)
    intro t e t' a ht hstep
    exact ht.step hstep
  refine ⟨hturns, ?_⟩
  intro esps hstarted hlen
  obtain ⟨a, -, ht⟩ := hturns
  exact ht.selections_perm hstarted hlen

/-- One task made on the heap just initialised, started, and taken up by the first tick. -/
theorem first_task_run : Run (SchedulerStep bootLayout) noTasks
    [.create 0x100000 1024 true (firstMade.2.2.tasks 0).esp, .start,
      .schedule 0x90000 (taskingSchedule (taskingStart firstMade.2.2) 0x90000).1]
    (taskingSchedule (taskingStart firstMade.2.2) 0x90000).2 :=
  .snoc (.snoc (.single (.create firstMade_eq)) (.start rfl (by decide))) (.schedule 0x90000)

theorem scheduler_is_round_robin_boot :
    (∃ a, Run RoundRobin.Step ⟨[], .notStarted⟩
        [.create 0x100000 1024 true (firstMade.2.2.tasks 0).esp, .start,
          .schedule 0x90000 (taskingSchedule (taskingStart firstMade.2.2) 0x90000).1] a ∧
      Turns (taskingSchedule (taskingStart firstMade.2.2) 0x90000).2 a) ∧
    (selections (taskingSchedule (taskingStart firstMade.2.2) 0x90000).2 [0x8F000]).Perm
      (List.range 1) := by
  obtain ⟨hturns, hperm⟩ := scheduler_is_round_robin bootLayout
    ⟨fun _ => ⟨0, 0, 0, 0, false⟩, 0, 0, false, false⟩ first_task_run
  exact ⟨hturns, hperm [0x8F000] rfl rfl⟩

end Kernix.Proofs
