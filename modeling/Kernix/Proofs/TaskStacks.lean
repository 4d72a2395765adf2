import Mathlib.Data.List.GetD
import Kernix.Proofs.Frames
import Kernix.Proofs.Served
import Kernix.Tasking.Ticks

namespace Kernix.Proofs
open Library Memory Memory.HeapBlock Interrupts Tasking

variable {L : Layout} {s s' : State} {t t' : Scheduler} {h : Heap} {m m' : Mem} {k : Task}
  {r : Regs} {entry size : U32} {es : List U32}

/-- The frame of `r` lies on the stack of `k`, where `k.esp` says. -/
structure Saved (m : Mem) (k : Task) (r : Regs) : Prop where
  words : ∃ word, m.Words k.esp (frame r word)
  esp : r.esp = k.esp + 44
  inside : ∀ x, (x - k.esp).toNat < 44 → k.InStack x

theorem Saved.congr_frame (h : Saved m k r) (hm : ∀ x, (x - k.esp).toNat < 44 → m' x = m x) :
    Saved m' k r := by
  obtain ⟨⟨word, hwords⟩, hesp, hinside⟩ := h
  exact ⟨⟨word, hwords.congr (by simp [frame]) hm⟩, hesp, hinside⟩

theorem Saved.congr (h : Saved m k r) (hm : ∀ x, k.InStack x → m' x = m x) : Saved m' k r :=
  h.congr_frame fun x hx => hm x (h.inside x hx)

/-! The stack of a new task. -/

/-- A stack that is not of no bytes is as large as asked for, and of 1024 at least. -/
theorem alignedStackSize_ge (hne : alignedStackSize size ≠ 0) :
    max 1024 size.toNat ≤ (alignedStackSize size).toNat := by
  have hround := toNat_and_not_low
    ((if size < minStackSize then minStackSize else size) + stackAlignment - 1) 4
  have hle : max 1024 size.toNat ≤ (if size < minStackSize then minStackSize else size).toNat := by
    have hmin : minStackSize.toNat = 1024 := rfl
    split
    · rename_i hlt
      have hlt : size.toNat < minStackSize.toNat := hlt
      omega
    · rename_i hlt
      have hlt : minStackSize.toNat ≤ size.toNat := BitVec.not_lt.mp hlt
      omega
  have hround : (alignedStackSize size).toNat = _ := hround
  have hne : (alignedStackSize size).toNat ≠ 0 := fun h0 => hne (BitVec.eq_of_toNat_eq h0)
  refine hle.trans ?_
  generalize (if size < minStackSize then minStackSize else size) = v at *
  unfold stackAlignment at hround
  bv_omega

theorem toNat_stackTop (stack size : U32) :
    (stackTop stack size).toNat = (stack + size).toNat / 16 * 16 :=
  toNat_and_not_low (stack + size) 4

/-- Where the frame of a new task lies: below the top, and inside the stack. -/
theorem startFrame_inside {stack x : U32} (hsize : 1024 ≤ size.toNat)
    (hx : (x - (stackTop stack size - 44)).toNat < 44) :
    (x - stack).toNat < size.toNat := by
  have htop := toNat_stackTop stack size
  bv_omega

/-- All a call of `task_create` can do: skip, fail with `kmalloc`, or put one more task on the block
it gets. -/
theorem taskCreate_cases {ok : Bool} (h : taskCreate L s t entry size = some (ok, s', t')) :
    ((entry = nullptr ∨ maxTasks ≤ t.taskCount) ∧ ok = false ∧ s' = s ∧ t' = t) ∨
    (entry ≠ nullptr ∧ t.taskCount < 8 ∧ ∃ q s₁,
      kmalloc L s (alignedStackSize size) = some (q, s₁) ∧
      ((q = nullptr ∧ ok = false ∧ s' = s₁ ∧ t' = t) ∨
      (q ≠ nullptr ∧ ok = true ∧ s' = { s₁ with
          mem := s₁.mem.pushWords (stackTop q (alignedStackSize size)) (startWords entry) } ∧
        t' = { t.setTask t.taskCount ⟨BitVec.ofNat 32 t.taskCount, q, alignedStackSize size,
          stackTop q (alignedStackSize size) - 44, true⟩ with taskCount := t.taskCount + 1 }))) := by
  unfold taskCreate at h
  by_cases hskip : entry = nullptr ∨ maxTasks ≤ t.taskCount
  · rw [if_pos hskip] at h
    cases h
    exact .inl ⟨hskip, rfl, rfl, rfl⟩
  rw [if_neg hskip] at h
  obtain ⟨hentry, hcount⟩ := not_or.mp hskip
  refine .inr ⟨hentry, Nat.not_le.mp hcount, ?_⟩
  dsimp only at h
  cases hrun : kmalloc L s (alignedStackSize size) with
  | none =>
    rw [hrun] at h
    cases h
  | some r =>
    obtain ⟨q, s₁⟩ := r
    rw [hrun, Option.bind_eq_bind, Option.bind_some] at h
    refine ⟨q, s₁, rfl, ?_⟩
    by_cases hq : q = nullptr
    · rw [if_pos hq] at h
      cases h
      exact .inl ⟨hq, rfl, rfl, rfl⟩
    · rw [if_neg hq] at h
      cases h
      exact .inr ⟨hq, rfl, rfl, rfl⟩

/-- A stack that is given is not of no bytes. -/
theorem kmalloc_size_ne {q : U32} (h : kmalloc L s size = some (q, s')) (hq : q ≠ nullptr) :
    size ≠ 0 := by
  intro he
  subst he
  rw [kmalloc, if_pos (.inl rfl)] at h
  cases h
  exact hq rfl

theorem startWords_frame (entry : U32) (k : Task) :
    (startWords entry).reverse = frame (startContext entry k) 0 := rfl

/-- A new task's stack holds the registers it starts with. -/
theorem saved_start (m : Mem) (entry id : U32) {stack : U32} (hsize : 1024 ≤ size.toNat) :
    let k : Task := ⟨id, stack, size, stackTop stack size - 44, true⟩
    Saved (m.pushWords (stackTop stack size) (startWords entry)) k (startContext entry k) := by
  intro k
  have hempty : m.Words (stackTop stack size) [] := trivial
  have hwords := Mem.words_pushWords hempty (startWords entry) (by simp [startWords])
  rw [List.append_nil, startWords_frame entry k] at hwords
  refine ⟨⟨0, hwords⟩, ?_, fun x hx => startFrame_inside hsize hx⟩
  exact (BitVec.sub_add_cancel _ _).symm

/-- The frame of a new task lies in the block it got for its stack. -/
theorem startFrame_outside {b : Block} {stack : U32} (hb : b.payload = stack) (hle : size ≤ b.size)
    (hsize : 1024 ≤ size.toNat) (m : Mem) (entry : U32) {x : U32} (hx : ¬ InPayload b x) :
    m.pushWords (stackTop stack size) (startWords entry) x = m x := by
  apply Mem.pushWords_outside (by simp [startWords])
  by_contra hin
  have hstack : (x - stack).toNat < size.toNat := startFrame_inside hsize (Nat.not_le.mp hin)
  rw [InPayload, hb] at hx
  exact hx (Nat.lt_of_lt_of_le hstack hle)

/-! The tasks made so far. -/

/-- The tasks have blocks of the heap for their stacks, each with the frame of its start. -/
structure Made (s : State) (t : Scheduler) (h : Heap) (es : List U32) : Prop where
  holds : Holds s h
  count : t.taskCount = es.length
  limit : t.taskCount ≤ 8
  off : t.schedulerStarted = false
  active : ∀ i < t.taskCount, (t.tasks i).active = true
  blocks : ∀ i < t.taskCount, ∃ b ∈ used h.blocks, b.payload = (t.tasks i).stack ∧
    (t.tasks i).stackSize ≤ b.size
  distinct : ∀ i < t.taskCount, ∀ j < t.taskCount, (t.tasks i).stack = (t.tasks j).stack → i = j
  saved : ∀ i < t.taskCount, Saved s.mem (t.tasks i) (startContext (es.getD i 0) (t.tasks i))

theorem made_init (hs : Holds s h) (t : Scheduler) : Made s (taskingInit t) h [] := by
  refine ⟨hs, rfl, by simp [taskingInit], rfl, ?_, ?_, ?_, ?_⟩
  all_goals
    intro i hi
    exact absurd hi (Nat.not_lt_zero i)

/-- The bytes of a task's stack are bytes of its block. -/
theorem Made.inPayload (hm : Made s t h es) {i : Nat} (hi : i < t.taskCount) {x : U32}
    (hx : (t.tasks i).InStack x) :
    ∃ b ∈ used h.blocks, b.payload = (t.tasks i).stack ∧ InPayload b x := by
  obtain ⟨b, hb, hstack, hsize⟩ := hm.blocks i hi
  refine ⟨b, hb, hstack, ?_⟩
  rw [InPayload, hstack]
  exact Nat.lt_of_lt_of_le hx hsize

/-- The stacks share no byte. -/
theorem Made.apart (hm : Made s t h es) {i j : Nat} (hi : i < t.taskCount) (hj : j < t.taskCount)
    {x : U32} (hxi : (t.tasks i).InStack x) (hxj : (t.tasks j).InStack x) : i = j := by
  obtain ⟨b, hb, hbi, hxb⟩ := hm.inPayload hi hxi
  obtain ⟨c, hc, hcj, hxc⟩ := hm.inPayload hj hxj
  apply hm.distinct i hi j hj
  by_contra hne
  have hbc : b ≠ c := fun he => hne (by rw [← hbi, ← hcj, he])
  exact hm.holds.rep.placed.payload_disjoint (mem_of_used hb) (mem_of_used hc) hbc hxb hxc

/-- A new task gets a block of its own, and its frame leaves the other tasks alone. -/
theorem Made.add {s₁ : State} {h' : Heap} {q : U32} (hm : Made s t h es) (hcount : t.taskCount < 8)
    (ha : Allocates s s₁ h h' size.toNat q) (hq : q ≠ nullptr) (hsize : 1024 ≤ size.toNat)
    (entry id : U32) :
    Made { s₁ with mem := s₁.mem.pushWords (stackTop q size) (startWords entry) }
      { t.setTask t.taskCount ⟨id, q, size, stackTop q size - 44, true⟩ with
        taskCount := t.taskCount + 1 } h' (es ++ [entry]) := by
  obtain ⟨c, hc, hcsize, hfree, hfresh, hmem⟩ := ha.given hq
  have hcu : c ∈ used h'.blocks := (hmem c).mpr (.inr rfl)
  have hrest : ∀ x, ¬ InPayload c x →
      s₁.mem.pushWords (stackTop q size) (startWords entry) x = s₁.mem x :=
    fun x hx => startFrame_outside hc hcsize hsize s₁.mem entry hx
  have hold : ∀ i < t.taskCount, ∀ x, (t.tasks i).InStack x →
      s₁.mem.pushWords (stackTop q size) (startWords entry) x = s.mem x := by
    intro i hi x hx
    obtain ⟨b, hb, -, hxb⟩ := hm.inPayload hi hx
    have hbc : b ≠ c := fun he => hfresh b hb (he ▸ hc)
    have hb' := mem_of_used ((hmem b).mpr (.inl hb))
    refine (hrest x ?_).trans (ha.others b hb x hxb)
    exact ha.holds.rep.placed.payload_disjoint hb' (mem_of_used hcu) hbc hxb
  have hother : ∀ i < t.taskCount, (t.tasks i).stack ≠ q := by
    intro i hi he
    obtain ⟨b, hb, hbi, -⟩ := hm.blocks i hi
    exact hfresh b hb (hbi.trans he)
  let k : Task := ⟨id, q, size, stackTop q size - 44, true⟩
  have hblocks : ∀ i < t.taskCount + 1, ∃ b ∈ used h'.blocks,
      b.payload = ((t.setTask t.taskCount k).tasks i).stack ∧
        ((t.setTask t.taskCount k).tasks i).stackSize ≤ b.size := by
    refine Scheduler.forall_added
      (P := fun _ k => ∃ b ∈ used h'.blocks, b.payload = k.stack ∧ k.stackSize ≤ b.size) ?_ ?_
    · intro i hi
      obtain ⟨b, hb, hstack⟩ := hm.blocks i hi
      exact ⟨b, (hmem b).mpr (.inl hb), hstack⟩
    · exact ⟨c, hcu, hc, hcsize⟩
  have hdistinct : ∀ i < t.taskCount + 1, ∀ j < t.taskCount + 1,
      ((t.setTask t.taskCount k).tasks i).stack = ((t.setTask t.taskCount k).tasks j).stack →
        i = j := by
    refine Scheduler.forall_added (P := fun i ki => ∀ j < t.taskCount + 1,
      ki.stack = ((t.setTask t.taskCount k).tasks j).stack → i = j) ?_ ?_
    · intro i hi
      refine Scheduler.forall_added (P := fun j kj => (t.tasks i).stack = kj.stack → i = j) ?_ ?_
      · exact hm.distinct i hi
      · exact fun he => absurd he (hother i hi)
    · refine Scheduler.forall_added (P := fun j kj => k.stack = kj.stack → t.taskCount = j) ?_ ?_
      · exact fun j hj he => absurd he.symm (hother j hj)
      · exact fun _ => rfl
  have hsaved : ∀ i < t.taskCount + 1,
      Saved (s₁.mem.pushWords (stackTop q size) (startWords entry))
        ((t.setTask t.taskCount k).tasks i)
        (startContext ((es ++ [entry]).getD i 0) ((t.setTask t.taskCount k).tasks i)) := by
    refine Scheduler.forall_added (P := fun i k => Saved
      (s₁.mem.pushWords (stackTop q size) (startWords entry)) k
      (startContext ((es ++ [entry]).getD i 0) k)) ?_ ?_
    · intro i hi
      rw [List.getD_append _ _ _ _ (hm.count ▸ hi)]
      exact (hm.saved i hi).congr (hold i hi)
    · rw [hm.count, List.getD_append_right _ _ _ _ (Nat.le_refl _), Nat.sub_self]
      exact saved_start s₁.mem entry id hsize
  have hactive := Scheduler.forall_added (k := k) (P := fun _ k => k.active = true) hm.active rfl
  refine ⟨⟨ha.holds.rep.congr_payload (mem_of_used hcu) hrest, ha.holds.mappedEnd⟩, ?_,
    Nat.succ_le_of_lt hcount, hm.off, hactive, hblocks, hdistinct, hsaved⟩
  rw [List.length_append, ← hm.count]
  rfl

/-- One more call of `task_create`. -/
theorem Made.create {e : Creation} (hm : Made s t h es) (hn : e.NoWrap (s, t))
    (hstep : CreateStep L (s, t) e (s', t')) :
    ∃ h', Made s' t' h' (es ++ if e.ok then [e.entry] else []) := by
  obtain ⟨entry, stackSize, ok⟩ := e
  rcases taskCreate_cases hstep with ⟨-, hok, hs', ht'⟩ | ⟨hentry, hcount, q, s₁, hrun, hcase⟩
  · dsimp only at hok hs' ht' ⊢
    subst hok hs' ht'
    exact ⟨h, by simpa using hm⟩
  dsimp only at hrun hcase hcount ⊢
  have hn : NoWrap s (alignedStackSize stackSize).toNat :=
    (hn.resolve_left hentry).resolve_left (Nat.not_le.mpr hcount)
  obtain ⟨q', s₁', h', hrun', ha⟩ := kmalloc_allocates L hm.holds hn
  rw [hrun'] at hrun
  cases hrun
  have hkeep : ∀ i < t.taskCount, ∀ x, (t.tasks i).InStack x → s₁.mem x = s.mem x := by
    intro i hi x hx
    obtain ⟨b, hb, -, hxb⟩ := hm.inPayload hi hx
    exact ha.others b hb x hxb
  rcases hcase with ⟨hq, rfl, rfl, rfl⟩ | ⟨hq, rfl, rfl, rfl⟩
  · refine ⟨h', ha.holds, by simpa using hm.count, hm.limit, hm.off, hm.active, ?_,
      hm.distinct, ?_⟩
    · intro i hi
      obtain ⟨b, hb, hrest⟩ := hm.blocks i hi
      exact ⟨b, (ha.failed hq b).mpr hb, hrest⟩
    · intro i hi
      simpa using (hm.saved i hi).congr (hkeep i hi)
  · have hge := alignedStackSize_ge (kmalloc_size_ne hrun' hq)
    exact ⟨h', hm.add hcount ha hq ((Nat.le_max_left ..).trans hge) entry _⟩

end Kernix.Proofs
