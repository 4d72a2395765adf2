import Kernix.Proofs.TaskStacks

namespace Kernix.Proofs
open Library Memory Interrupts Interrupts.Cpu Tasking

variable {s s' : System} {a : Machines} {c back : Cpu} {regs r : Regs} {segs : Segments}
  {mem : Mem} {stub ret : U32} {g : Gate} {e : Regs × Regs} {i : Nat} {x : U32}

/-! What a tick leaves on the stack. -/

theorem irq0Entry_esp (c : Cpu) (g : Gate) (ret : U32) :
    (irq0Entry ret (c.interrupt g)).regs.esp = c.regs.esp - 52 := by
  change c.regs.esp - 12 - 32 - 4 - 4 = c.regs.esp - 52
  rw [sub_sub, sub_sub, sub_sub]
  rfl

theorem pushad_esp (c : Cpu) (g : Gate) :
    (c.interrupt g).pushad.regs.esp = c.regs.esp - 44 := by
  change c.regs.esp - 12 - 32 = c.regs.esp - 44
  rw [sub_sub]
  rfl

/-- The stack of `irq0_handler` at its first instruction. -/
theorem irq0Entry_stacked (c : Cpu) (g : Gate) (ret : U32) :
    Stacked (irq0Entry ret (c.interrupt g))
      ([ret, c.regs.esp - 44] ++ frame c.regs (c.regs.esp - 12)) := by
  have hpushed := (interrupt_stacked c g).pushad (by simp)
  have hsaved : Stacked ((c.interrupt g).pushad.withEax (c.interrupt g).pushad.regs.esp)
      (frame c.regs (c.regs.esp - 12)) := hpushed
  rw [pushad_esp] at hsaved
  have hargs := (hsaved.push (c.regs.esp - 44) (by simp [frame])).push ret (by simp [frame])
  rw [irq0Entry, pushad_esp]
  exact hargs

theorem pushes_outside {ws : List U32} (hlen : 4 * ws.length ≤ 2 ^ 32)
    (hx : 4 * ws.length ≤ (x - (c.pushes ws).regs.esp).toNat) : (c.pushes ws).mem x = c.mem x :=
  Mem.pushWords_outside hlen hx

theorem push_outside {v : U32} (hx : 4 ≤ (x - (c.regs.esp - 4)).toNat) :
    (c.push v).mem x = c.mem x := by
  change (c.pushes [v]).mem x = c.mem x
  exact pushes_outside (by simp) hx

/-- The interrupt and the stub write 13 words below the stack pointer. -/
theorem irq0Entry_outside (hx : 52 ≤ (x - (c.regs.esp - 52)).toNat) :
    (irq0Entry ret (c.interrupt g)).mem x = c.mem x := by
  have hgate : (c.interrupt g).mem x = c.mem x := by
    change (c.pushes [c.regs.eflags, c.regs.cs.setWidth 32, c.regs.eip]).mem x = c.mem x
    apply pushes_outside (by simp)
    change 12 ≤ (x - (c.regs.esp - 12)).toNat
    bv_omega
  have hpushad : (c.interrupt g).pushad.mem x = (c.interrupt g).mem x := by
    apply pushes_outside (by simp)
    change 32 ≤ (x - (c.interrupt g).pushad.regs.esp).toNat
    rw [pushad_esp]
    bv_omega
  have hcall : (irq0Entry ret (c.interrupt g)).mem x = (c.interrupt g).pushad.mem x := by
    rw [irq0Entry, pushad_esp]
    refine (push_outside ?_).trans (push_outside ?_)
    · change 4 ≤ (x - ((c.interrupt g).pushad.regs.esp - 4 - 4)).toNat
      rw [pushad_esp]
      bv_omega
    · change 4 ≤ (x - ((c.interrupt g).pushad.regs.esp - 4)).toNat
      rw [pushad_esp]
      bv_omega
  rw [hcall, hpushad, hgate]

/-- `tasking_schedule` is given the address of the frame. -/
theorem irq0Entry_argument (c : Cpu) (g : Gate) (ret : U32) :
    (irq0Entry ret (c.interrupt g)).argument 0 = c.regs.esp - 44 :=
  (irq0Entry_stacked c g ret).slot (i := 1) (by simp)

/-- The frame of the interrupted code is there when the handler has returned. -/
theorem irq0_frame (h : Returned 1 11 (irq0Entry ret (c.interrupt g)) back) :
    back.mem.Words (c.regs.esp - 44) (frame c.regs (c.regs.esp - 12)) := by
  have hback := (irq0Entry_stacked c g ret).returned h rfl rfl (by simp [frame])
  have hesp : (back.drop 1).regs.esp = c.regs.esp - 44 := by
    have hdrop : (back.drop 1).regs.esp = back.regs.esp + 4 := rfl
    rw [hdrop, h.esp, irq0Entry_esp]
    bv_omega
  rw [Stacked, hesp] at hback
  exact hback

theorem tickEntry_argument (regs : Regs) (segs : Segments) (mem : Mem) (stub ret : U32) :
    (tickEntry regs segs mem stub ret).argument 0 = regs.esp - 44 :=
  irq0Entry_argument ⟨regs, segs, mem⟩ (irqGate stub) ret

/-- What the running code does not own is as before. -/
theorem tick_keeps (ht : Tick s regs segs mem stub ret back) (hx : ¬ s.tasking.Owns x) :
    back.mem x = s.cpu.mem x := by
  have hout : 52 ≤ (x - (regs.esp - 52)).toNat := by
    by_contra hin
    exact hx (ht.room x (Nat.not_le.mp hin))
  have hentry : (tickEntry regs segs mem stub ret).mem x = mem x :=
    irq0Entry_outside (c := ⟨regs, segs, mem⟩) hout
  exact (ht.writes x hx).trans (hentry.trans (ht.runs x hx))

theorem frame_in_window {esp : U32} (hx : (x - (esp - 44)).toNat < 44) :
    (x - (esp - 52)).toNat < 52 := by
  bv_omega

/-- `irq0_stub` resumes at the frame whose address the handler returned. -/
theorem irq0Exit_resumes {word : U32} (hframe : back.mem.Words back.regs.eax (frame r word))
    (hesp : r.esp = back.regs.eax + 44) : (irq0Exit back).regs = r :=
  (Stacked.resume (c := (back.drop 1).withEsp (back.drop 1).regs.eax) hframe hesp).1

theorem Saved.resumes {k : Task} (h : Saved back.mem k r) (heax : back.regs.eax = k.esp) :
    (irq0Exit back).regs = r := by
  obtain ⟨⟨word, hframe⟩, hesp, -⟩ := h
  exact irq0Exit_resumes (heax ▸ hframe) (heax ▸ hesp)

/-! The scheduler. -/

/-- One active task after another: the next one is taken. -/
theorem nextTask_next {t : Scheduler} {n next : Nat} (hpos : 0 < n) (hcount : 0 < t.taskCount)
    (hactive : ∀ i < t.taskCount, (t.tasks i).active = true) :
    nextTask t n next = some ((next + 1) % t.taskCount) := by
  obtain ⟨n, rfl⟩ := Nat.exists_eq_add_of_lt hpos
  rw [Nat.zero_add, nextTask, if_pos (hactive _ (Nat.mod_lt _ hcount))]

/-- The scheduler and the machines of its tasks go together: what is not running has its
registers in a frame on its own stack. -/
structure Switching (s : System) (a : Machines) : Prop where
  count : s.tasking.taskCount = a.count
  pos : a.count ≠ 0
  started : s.tasking.schedulerStarted = true
  pending : s.tasking.bootstrapSwitchPending = a.running.isNone
  current : s.tasking.currentTask = a.running.getD 0
  inRange : s.tasking.currentTask < a.count
  active : ∀ i < a.count, (s.tasking.tasks i).active = true
  apart : ∀ i < a.count, ∀ j < a.count, ∀ x, (s.tasking.tasks i).InStack x →
    (s.tasking.tasks j).InStack x → i = j
  saved : ∀ i < a.count, a.running ≠ some i → Saved s.cpu.mem (s.tasking.tasks i) (a.contexts i)

theorem schedule_start {t : Scheduler} (esp : U32) (hstarted : t.schedulerStarted = true)
    (hcount : t.taskCount ≠ 0) (hpending : t.bootstrapSwitchPending = true) :
    taskingSchedule t esp =
      ((t.tasks t.currentTask).esp, { t with bootstrapSwitchPending := false }) := by
  simp only [taskingSchedule, hstarted, hcount, hpending, Bool.true_eq_false, or_self, if_false,
    if_true]

theorem schedule_switch {t : Scheduler} (esp : U32) (hstarted : t.schedulerStarted = true)
    (hcount : t.taskCount ≠ 0) (hpending : t.bootstrapSwitchPending = false)
    (hactive : ∀ i < t.taskCount, (t.tasks i).active = true) (hcur : t.currentTask < t.taskCount) :
    let t₁ := t.setTask t.currentTask { t.tasks t.currentTask with esp := esp }
    let next := (t.currentTask + 1) % t.taskCount
    taskingSchedule t esp = ((t₁.tasks next).esp, { t₁ with currentTask := next }) := by
  intro t₁ next
  have hpos := Nat.pos_of_ne_zero hcount
  have hactive₁ : ∀ i < t₁.taskCount, (t₁.tasks i).active = true :=
    Scheduler.forall_setTask (P := fun _ k => k.active = true) (fun i hi _ => hactive i hi)
      (hactive _ hcur)
  have hnext : nextTask t₁ t.taskCount t.currentTask = some next :=
    nextTask_next (t := t₁) hpos hpos hactive₁
  simp only [taskingSchedule, hstarted, hcount, hpending, Bool.true_eq_false, or_self, if_false,
    Bool.false_eq_true]
  rw [show nextTask (t.setTask t.currentTask { t.tasks t.currentTask with esp := esp })
    (t.setTask t.currentTask { t.tasks t.currentTask with esp := esp }).taskCount
    (t.setTask t.currentTask { t.tasks t.currentTask with esp := esp }).currentTask = some next
    from hnext]

/-- The first tick takes up the first task. -/
theorem Switching.start {t : Scheduler} (hs : Switching s a) (hrun : a.running = none)
    (ht : Tick s regs segs mem stub ret back)
    (hres : (back.regs.eax, t) = taskingSchedule s.tasking (regs.esp - 44)) (ticks : U32) :
    (irq0Exit back).regs = a.contexts 0 ∧
      Switching ⟨irq0Exit back, ticks, t⟩ { a with running := some 0 } := by
  have hpending : s.tasking.bootstrapSwitchPending = true := by rw [hs.pending, hrun]; rfl
  have hcurrent : s.tasking.currentTask = 0 := by rw [hs.current, hrun]; rfl
  have hzero : 0 < a.count := Nat.pos_of_ne_zero hs.pos
  rw [schedule_start _ hs.started (hs.count ▸ hs.pos) hpending, hcurrent] at hres
  obtain ⟨heax, rfl⟩ := Prod.mk.inj hres
  have hsaved : ∀ i < a.count, Saved back.mem (s.tasking.tasks i) (a.contexts i) := by
    intro i hi
    refine (hs.saved i hi (by simp [hrun])).congr_frame fun x hx => tick_keeps ht ?_
    intro hown
    rw [Scheduler.Owns, if_neg (by simp [hpending])] at hown
    have := hown i (hs.count ▸ hi)
    omega
  refine ⟨(hsaved 0 hzero).resumes heax, ?_⟩
  exact ⟨hs.count, hs.pos, hs.started, rfl, rfl, hzero, hs.active,
    hs.apart, fun i hi _ => hsaved i hi⟩

/-- Every later tick saves the registers of the running task and takes up the next one. -/
theorem Switching.switch {t : Scheduler} {i : Nat} (hs : Switching s a) (hrun : a.running = some i)
    (ht : Tick s regs segs mem stub ret back)
    (hres : (back.regs.eax, t) = taskingSchedule s.tasking (regs.esp - 44)) (ticks : U32) :
    let contexts := Function.update a.contexts i regs
    let next := (i + 1) % a.count
    (irq0Exit back).regs = contexts next ∧
      Switching ⟨irq0Exit back, ticks, t⟩ { a with contexts := contexts, running := some next } := by
  intro contexts next
  have hpending : s.tasking.bootstrapSwitchPending = false := by rw [hs.pending, hrun]; rfl
  have hcurrent : s.tasking.currentTask = i := by rw [hs.current, hrun]; rfl
  have hcount := hs.count
  have hi : i < a.count := hcurrent ▸ hs.inRange
  have hnext : next < a.count := Nat.mod_lt _ (Nat.pos_of_ne_zero hs.pos)
  rw [schedule_switch _ hs.started (hcount ▸ hs.pos) hpending (hcount ▸ hs.active)
    (hcount ▸ hs.inRange), hcurrent, hcount] at hres
  obtain ⟨heax, rfl⟩ := Prod.mk.inj hres
  have howns : ∀ x, s.tasking.Owns x ↔ (s.tasking.tasks i).InStack x := by
    intro x
    rw [Scheduler.Owns, if_pos ⟨hs.started, hpending⟩, hcurrent]
  let k : Task := { s.tasking.tasks i with esp := regs.esp - 44 }
  have hstack : ∀ j x, ((s.tasking.setTask i k).tasks j).InStack x ↔ (s.tasking.tasks j).InStack x := by
    intro j x
    by_cases hj : j = i
    · rw [hj, Scheduler.setTask_same]
      rfl
    · rw [Scheduler.setTask_ne hj]
  have hsaved : ∀ j < a.count, Saved back.mem ((s.tasking.setTask i k).tasks j) (contexts j) := by
    refine Scheduler.forall_setTask (P := fun j k => Saved back.mem k (contexts j)) ?_ ?_
    · intro j hj hne
      rw [show contexts j = a.contexts j from Function.update_of_ne hne ..]
      have hnot : a.running ≠ some j := fun h => hne (Option.some.inj (h.symm.trans hrun))
      refine (hs.saved j hj hnot).congr fun x hx => tick_keeps ht ?_
      intro hown
      exact hne (hs.apart j hj i hi x hx ((howns x).mp hown))
    · rw [show contexts i = regs from Function.update_self ..]
      have hframe := irq0_frame (c := ⟨regs, segs, mem⟩) (g := irqGate stub) ht.returned
      refine ⟨⟨_, hframe⟩, (BitVec.sub_add_cancel _ _).symm, ?_⟩
      intro x hx
      exact (howns x).mp (ht.room x (frame_in_window hx))
  have hactive : ∀ j < a.count, ((s.tasking.setTask i k).tasks j).active = true :=
    Scheduler.forall_setTask (P := fun _ k => k.active = true) (fun j hj _ => hs.active j hj)
      (hs.active i hi)
  refine ⟨(hsaved next hnext).resumes heax, ?_⟩
  refine ⟨hcount, hs.pos, hs.started, hpending, rfl, hnext, hactive, ?_,
    fun j hj _ => hsaved j hj⟩
  intro j hj l hl x hx hx'
  exact hs.apart j hj l hl x ((hstack j x).mp hx) ((hstack l x).mp hx')

end Kernix.Proofs
