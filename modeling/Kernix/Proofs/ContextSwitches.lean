import Kernix.Proofs.Growth
import Kernix.Proofs.HeapGuarantees
import Kernix.Proofs.TaskSwitching

namespace Kernix.Proofs
open Library Memory Memory.HeapBlock Interrupts Interrupts.Cpu Tasking

variable {L : Layout} {s s' : System} {a : Machines} {e : Regs × Regs} {st : State}
  {t : Scheduler} {h : Heap} {entryPoints : List U32} {kernelEnd : U32}

/-- The scheduler follows the machines; without a task it never switches. -/
def Follows (s : System) (a : Machines) : Prop :=
  s.tasking.taskCount = 0 ∧ a.count = 0 ∨ Switching s a

theorem Follows.step (hf : Follows s a) (hstep : TickStep s e s') :
    ∃ a', a.Step e a' ∧ Follows s' a' := by
  obtain ⟨regs, regs'⟩ := e
  obtain ⟨cpu, ticks, tasking⟩ := s'
  obtain ⟨segs, mem, stub, ret, back, ht, rfl, rfl, hsys⟩ := hstep
  have hresult := ht.result
  rw [tickEntry_argument] at hresult hsys
  have htasking : tasking = (taskingSchedule s.tasking (regs.esp - 44)).2 :=
    congrArg Prod.snd hsys
  have hres : (back.regs.eax, tasking) = taskingSchedule s.tasking (regs.esp - 44) :=
    Prod.ext hresult htasking
  rcases hf with ⟨hnone, hcount⟩ | hs
  · have hsame : taskingSchedule s.tasking (regs.esp - 44) = (regs.esp - 44, s.tasking) := by
      simp only [taskingSchedule, hnone, or_true, if_true]
    obtain ⟨heax, rfl⟩ := Prod.mk.inj (hres.trans hsame)
    have hframe := irq0_frame (c := ⟨regs, segs, mem⟩) (g := irqGate stub) ht.returned
    have hregs : (irq0Exit back).regs = regs := by
      apply irq0Exit_resumes (heax.symm ▸ hframe)
      rw [heax]
      exact (BitVec.sub_add_cancel _ _).symm
    refine ⟨a, ?_, .inl ⟨hnone, hcount⟩⟩
    change a.Step (regs, (irq0Exit back).regs) a
    rw [hregs]
    exact .idle hcount
  · cases hrun : a.running with
    | none =>
      obtain ⟨hregs, hs'⟩ := hs.start hrun ht hres ticks
      refine ⟨_, ?_, .inr hs'⟩
      change a.Step (regs, (irq0Exit back).regs) _
      rw [hregs]
      exact .start hs.pos hrun
    | some i =>
      obtain ⟨hregs, hs'⟩ := hs.switch hrun ht hres ticks
      refine ⟨_, ?_, .inr hs'⟩
      change a.Step (regs, (irq0Exit back).regs) _
      rw [hregs]
      exact .switch hs.pos hrun rfl rfl

/-- `tasking_start` with the tasks made so far. -/
theorem Made.follows (hm : Made st t h entryPoints) {cpu : Cpu} (hcpu : cpu.mem = st.mem)
    (ticks : U32) : Follows ⟨cpu, ticks, taskingStart t⟩ (.initial entryPoints t) := by
  by_cases hcount : t.taskCount = 0
  · refine .inl ⟨?_, hcount⟩
    change (taskingStart t).taskCount = 0
    rw [taskingStart, if_pos hcount, hcount]
  · have hstart : taskingStart t =
        { t with schedulerStarted := true, currentTask := 0, bootstrapSwitchPending := true } :=
      if_neg hcount
    rw [hstart]
    refine .inr ⟨rfl, hcount, rfl, rfl, rfl, Nat.pos_of_ne_zero hcount, hm.active, ?_, ?_⟩
    · exact fun i hi j hj x hx hx' => hm.apart hi hj hx hx'
    · intro i hi _
      change Saved cpu.mem (t.tasks i) (startContext (entryPoints.getD i 0) (t.tasks i))
      rw [hcpu]
      exact hm.saved i hi

theorem entries_snoc (es : List Creation) (e : Creation) :
    entries (es ++ [e]) = entries es ++ if e.ok then [e.entry] else [] := by
  unfold entries
  rw [List.filter_append, List.map_append]
  cases hok : e.ok <;> simp [hok]

/-- The tasks that a run of `task_create` has made on a heap in order. -/
theorem run_made {st : State} {t₀ : Scheduler} {k : State × Scheduler} {es : List Creation}
    (hs : Holds st h)
    (hrun : Run (Guarded (fun k e => e.NoWrap k) (CreateStep L)) (st, taskingInit t₀) es k) :
    ∃ h', Made k.1 k.2 h' (entries es) := by
  induction hrun with
  | nil => exact ⟨h, made_init hs t₀⟩
  | snoc _ hstep ih =>
    obtain ⟨h', hm⟩ := ih
    rw [entries_snoc]
    exact hm.create hstep.1 hstep.2

/-- On a heap in order, tasks made without a size that wraps go on, after `tasking_start` and any
ticks, as machines of their own would: each starts at its entry and goes on where it was
interrupted. -/
theorem switches_follow_machines (L : Layout) (kernelEnd : U32) (s : State)
    (hk : kernelEnd < identityMapLimit)
    (hon : (kmallocInit kernelEnd s).gHeapHead ≠ nullptr) {c : Client} {hs : List Event}
    (hheap : Run (Guarded (fun c e => NoWrap c.state e.1.bytes) (Client.Step L))
      (Client.start (kmallocInit kernelEnd s)) hs c)
    {t₀ : Scheduler} {es : List Creation} {k : State × Scheduler}
    (hmake : Run (Guarded (fun k e => e.NoWrap k) (CreateStep L)) (c.state, taskingInit t₀) es k)
    {cpu : Cpu} (hcpu : cpu.mem = k.1.mem) {ticks : U32} {labels : List (Regs × Regs)}
    {sys : System} (hrun : Run TickStep ⟨cpu, ticks, taskingStart k.2⟩ labels sys) :
    ∃ a, Run Machines.Step (.initial (entries es) k.2) labels a := by
  obtain ⟨h, hc⟩ := run_backed hk hon hheap
  obtain ⟨h', hm⟩ := run_made hc.holds hmake
  obtain ⟨a, ha, -⟩ := hrun.simulate (R := Follows) (hm.follows hcpu ticks)
    fun _ _ _ _ hf hstep => hf.step hstep
  exact ⟨a, ha⟩

/-! A tick whose handler does nothing else, and a machine just booted that takes it. -/

/-- The state such a tick leaves. -/
def plainTick (s : System) (regs : Regs) : System :=
  let entry := tickEntry regs s.cpu.segs s.cpu.mem 0x102000 0x101000
  let result := irq0Handler s.ticks s.tasking (regs.esp - 44)
  ⟨irq0Exit (entry.ret result.1), result.2.1, result.2.2⟩

theorem plainTick_step (s : System) (regs : Regs)
    (hroom : ∀ x, (x - (regs.esp - 52)).toNat < 52 → s.tasking.Owns x) :
    TickStep s (regs, (plainTick s regs).cpu.regs) (plainTick s regs) := by
  have harg := tickEntry_argument regs s.cpu.segs s.cpu.mem 0x102000 0x101000
  refine ⟨s.cpu.segs, s.cpu.mem, 0x102000, 0x101000, _, ⟨fun _ _ => rfl, hroom, returned_ret ..,
    ?_, fun _ _ => rfl⟩, rfl, rfl, ?_⟩
  · rw [harg]
    rfl
  · rw [harg]
    rfl

def bootRegs : Regs := ⟨0, 0, 0, 0, 0x90000, 0, 0, 0, 0x100000, 0x202, 0x08⟩

def bootCpu (m : Mem) : Cpu := ⟨bootRegs, ⟨0x10, 0x10, 0x10, 0x10⟩, m⟩

def noTasks : Scheduler := taskingInit ⟨fun _ => ⟨0, 0, 0, 0, false⟩, 0, 0, false, false⟩

/-- A heap of 1024 bytes. -/
def tightState : State := kmallocInit 0x3FFBE8 blankState

/-- The task that takes them all for its stack. -/
def firstMade : Bool × State × Scheduler :=
  (taskCreate bootLayout tightState noTasks 0x100000 1024).get (by decide)

theorem firstMade_eq : taskCreate bootLayout tightState noTasks 0x100000 1024 = some firstMade :=
  (Option.some_get _).symm

theorem firstMade_step : CreateStep bootLayout (tightState, noTasks) ⟨0x100000, 1024, true⟩
    (firstMade.2.1, firstMade.2.2) := by
  have hok : firstMade.1 = true := by decide
  refine firstMade_eq.trans ?_
  rw [← hok]

/-- Code whose stack ends below the tasks' frames has room for the first tick. -/
theorem boot_room {t : Scheduler} (hpending : t.bootstrapSwitchPending = true)
    (hesp : ∀ i < t.taskCount, 0x100000 ≤ (t.tasks i).esp.toNat ∧
      (t.tasks i).esp.toNat + 44 ≤ 2 ^ 32) :
    ∀ x, (x - (bootRegs.esp - 52)).toNat < 52 → t.Owns x := by
  intro x hx
  rw [Scheduler.Owns, if_neg (by simp [hpending])]
  intro i hi
  have hi := hesp i hi
  have hx : (x - 0x8FFCC).toNat < 52 := hx
  bv_omega

def firstSystem : System := ⟨bootCpu firstMade.2.1.mem, 0, taskingStart firstMade.2.2⟩

theorem switches_follow_machines_boot : ∃ a, Run Machines.Step (.initial [0x100000] firstMade.2.2)
    [(bootRegs, (plainTick firstSystem bootRegs).cpu.regs)] a := by
  have hmake : Run (Guarded (fun k e => e.NoWrap k) (CreateStep bootLayout)) (tightState, noTasks)
      [⟨0x100000, 1024, true⟩] (firstMade.2.1, firstMade.2.2) :=
    .single ⟨.inr (.inr (noWrap_of_small (by decide))), firstMade_step⟩
  have hroom := boot_room (t := firstSystem.tasking) (by decide) (by decide)
  have hrun : Run TickStep firstSystem [(bootRegs, (plainTick firstSystem bootRegs).cpu.regs)]
      (plainTick firstSystem bootRegs) := .single (plainTick_step firstSystem bootRegs hroom)
  exact switches_follow_machines bootLayout 0x3FFBE8 blankState (by decide) (by decide) .nil hmake rfl
    hrun

/-! A stack whose size wraps. -/

theorem taskCreate_remapped {s : State} {entry size : U32} (pg : Paging) (ph me : U32)
    (hpages : kmallocPages s (alignedStackSize size) = 0) :
    taskCreate L (remapped pg ph me s) t entry size =
      (taskCreate L s t entry size).map fun x => (x.1, remapped pg ph me x.2.1, x.2.2) := by
  unfold taskCreate
  by_cases hskip : entry = nullptr ∨ maxTasks ≤ t.taskCount
  · rw [if_pos hskip, if_pos hskip]
    rfl
  rw [if_neg hskip, if_neg hskip]
  dsimp only
  rw [kmalloc_remapped hpages]
  cases kmalloc L s (alignedStackSize size) with
  | none => rfl
  | some x =>
    obtain ⟨q, s₁⟩ := x
    simp only [Option.map_some, Option.bind_eq_bind, Option.bind_some, Prod.map, id]
    split
    · rfl
    · rfl

/-- The task made with a stack of 0xFFFFFFE0 bytes. -/
def wrappedMade : Bool × State × Scheduler :=
  (taskCreate bootLayout firstMade.2.1 firstMade.2.2 0x200000 0xFFFFFFE0).get (by decide)

theorem wrappedMade_eq :
    taskCreate bootLayout firstMade.2.1 firstMade.2.2 0x200000 0xFFFFFFE0 = some wrappedMade :=
  (Option.some_get _).symm

theorem spentMade : ∃ pg ph me,
    taskCreate bootLayout firstMade.2.1 firstMade.2.2 0x100000 0x08000000 =
      some (false, remapped pg ph me firstMade.2.1, firstMade.2.2) := by
  have hlast : lastBlock firstMade.2.1 = some 0x3FFBE8 := by decide
  have hsize : (0x08000000 : U32) ≠ 0 := by decide
  obtain ⟨pg, ph, me, hrun⟩ := kmalloc_spent (L := bootLayout) hsize (by decide) (by decide) hlast
    (by decide) (by decide) (by decide) (by decide) (by decide)
  refine ⟨pg, ph, me, ?_⟩
  have hround : alignedStackSize 0x08000000 = 0x08000000 := by decide
  have hgo : ¬ ((0x100000 : U32) = nullptr ∨ maxTasks ≤ firstMade.2.2.taskCount) := by decide
  rw [taskCreate, if_neg hgo, hround]
  dsimp only
  rw [hrun]
  rfl

def wrappedSystem : System := ⟨bootCpu wrappedMade.2.1.mem, 0, taskingStart wrappedMade.2.2⟩

/-- A large request uses the heap up without a block; the next stack then wraps around to the
first one, and the first task starts with other registers. -/
theorem wrapped_stack_breaks_task : ∃ (es : List Creation) (k : State × Scheduler) (s : System)
    (e : Regs × Regs) (s' : System),
    Run (CreateStep bootLayout) (tightState, noTasks) es k ∧
      s = ⟨bootCpu k.1.mem, 0, taskingStart k.2⟩ ∧ TickStep s e s' ∧
      e.2.ecx ≠ (startContext ((entries es).getD 0 0) (k.2.tasks 0)).ecx := by
  obtain ⟨pg, ph, me, hspent⟩ := spentMade
  have hwrapped : taskCreate bootLayout (remapped pg ph me firstMade.2.1) firstMade.2.2 0x200000
      0xFFFFFFE0 = some (wrappedMade.1, remapped pg ph me wrappedMade.2.1, wrappedMade.2.2) := by
    rw [taskCreate_remapped pg ph me (by decide), wrappedMade_eq]
    rfl
  have hok : wrappedMade.1 = true := by decide
  rw [hok] at hwrapped
  have h2 : CreateStep bootLayout (firstMade.2.1, firstMade.2.2) ⟨0x100000, 0x08000000, false⟩
      (remapped pg ph me firstMade.2.1, firstMade.2.2) := hspent
  have h3 : CreateStep bootLayout (remapped pg ph me firstMade.2.1, firstMade.2.2)
      ⟨0x200000, 0xFFFFFFE0, true⟩ (remapped pg ph me wrappedMade.2.1, wrappedMade.2.2) := hwrapped
  have hroom := boot_room (t := wrappedSystem.tasking) (by decide) (by decide)
  refine ⟨_, _, wrappedSystem, _, _, ((Run.single firstMade_step).snoc h2).snoc h3, rfl,
    plainTick_step wrappedSystem bootRegs hroom, ?_⟩
  change (plainTick wrappedSystem bootRegs).cpu.regs.ecx ≠ 0
  decide

end Kernix.Proofs
