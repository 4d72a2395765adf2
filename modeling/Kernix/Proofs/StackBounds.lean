import Kernix.Proofs.ContextSwitches
import Kernix.Tasking.Stacks

namespace Kernix.Proofs
open Library Memory Tasking

variable {L : Layout} {s s' : State} {t t' : Scheduler} {live live' : List Extent}
  {call : StackCall} {calls : List StackCall} {block : Extent} {q size requested : U32}

/-- The stacks are of live blocks, and share no byte. -/
structure StacksApart (t : Scheduler) (live : List Extent) : Prop where
  blocks : ∀ i < t.taskCount, ∃ e ∈ live, (t.tasks i).stack = e.base ∧
    (t.tasks i).stackSize.toNat ≤ e.bytes
  apart : ∀ i < t.taskCount, ∀ j < t.taskCount, i ≠ j →
    ∀ x, (t.tasks i).InStack x → ¬ (t.tasks j).InStack x

theorem stacksApart_init (t : Scheduler) : StacksApart (taskingInit t) [] := by
  refine ⟨?_, ?_⟩
  all_goals
    intro i hi
    exact absurd hi (Nat.not_lt_zero i)

/-- The frame ends at a multiple of 16, wherever the block of 8-byte units lies. -/
theorem stack_bounded (id : U32) (hsize : max 1024 requested.toNat ≤ size.toNat) :
    Task.Bounded ⟨id, q, size, stackTop q size - 44, true⟩ requested := by
  refine ⟨?_, ?_, hsize⟩
  · intro x hx
    exact startFrame_inside ((Nat.le_max_left ..).trans hsize) hx
  · have htop := toNat_stackTop q size
    change (stackTop q size - 44 + 44).toNat % 16 = 0
    rw [BitVec.sub_add_cancel, htop]
    exact Nat.mul_mod_left _ 16

/-- A task whose block meets no live one. -/
theorem StacksApart.add (h : StacksApart t live) {k : Task} (hstack : k.stack = block.base)
    (hsize : k.stackSize.toNat ≤ block.bytes) (hblock : ∀ e ∈ live, block.Apart e) :
    StacksApart { t.setTask t.taskCount k with taskCount := t.taskCount + 1 } (block :: live) := by
  have hnew : ∀ x, k.InStack x → (x - block.base).toNat < block.bytes := by
    intro x hx
    rw [Task.InStack, hstack] at hx
    exact Nat.lt_of_lt_of_le hx hsize
  have hold : ∀ i < t.taskCount, ∀ x, k.InStack x → ¬ (t.tasks i).InStack x := by
    intro i hi x hx hxi
    obtain ⟨e, he, hbase, hle⟩ := h.blocks i hi
    rw [Task.InStack, hbase] at hxi
    exact hblock e he x (hnew x hx) (Nat.lt_of_lt_of_le hxi hle)
  refine ⟨?_, ?_⟩
  · refine Scheduler.forall_added
      (P := fun _ k => ∃ e ∈ block :: live, k.stack = e.base ∧ k.stackSize.toNat ≤ e.bytes) ?_ ?_
    · intro i hi
      obtain ⟨e, he, hrest⟩ := h.blocks i hi
      exact ⟨e, List.mem_cons_of_mem _ he, hrest⟩
    · exact ⟨block, List.mem_cons_self, hstack, hsize⟩
  · refine Scheduler.forall_added (P := fun i ki => ∀ j < t.taskCount + 1, i ≠ j →
      ∀ x, ki.InStack x → ¬ ((t.setTask t.taskCount k).tasks j).InStack x) ?_ ?_
    · intro i hi
      refine Scheduler.forall_added (P := fun j kj => i ≠ j →
        ∀ x, (t.tasks i).InStack x → ¬ kj.InStack x) ?_ ?_
      · exact h.apart i hi
      · exact fun _ x hxi hx => hold i hi x hx hxi
    · refine Scheduler.forall_added (P := fun j kj => t.taskCount ≠ j →
        ∀ x, k.InStack x → ¬ kj.InStack x) ?_ ?_
      · exact fun j hj _ x hx => hold j hj x hx
      · exact fun hne => absurd rfl hne

/-- A call that succeeds adds a task with a stack of its own, and one that fails adds nothing. -/
theorem StacksApart.create (h : StacksApart t live)
    (hstep : StackStep L (t, live) call (t', live')) :
    StacksApart t' live' ∧
      (call.ok = true → t'.taskCount = t.taskCount + 1 ∧
        (t'.tasks t.taskCount).Bounded call.stackSize) ∧
      (call.ok = false → t' = t) := by
  obtain ⟨hpromise, ⟨s, hrun⟩, hlive⟩ := hstep
  dsimp only at hpromise hrun hlive
  rcases taskCreate_cases hrun with ⟨-, hok, -, ht'⟩ | ⟨-, hcount, q, s₁, hq, hcase⟩
  · rw [hok] at hlive ⊢
    subst hlive ht'
    exact ⟨h, fun hok => absurd hok (by simp), fun _ => rfl⟩
  rcases hcase with ⟨-, hok, -, ht'⟩ | ⟨hne, hok, -, ht'⟩
  · rw [hok] at hlive ⊢
    subst hlive ht'
    exact ⟨h, fun hok => absurd hok (by simp), fun _ => rfl⟩
  · obtain ⟨hbase, -, hbytes, happart⟩ := (hpromise q s₁ hq).resolve_left hne
    have hsize := alignedStackSize_ge (kmalloc_size_ne hq hne)
    rw [hok] at hlive ⊢
    subst hlive ht'
    refine ⟨h.add hbase hbytes fun e he => happart e (by simp [he]), ?_, fun hok => nomatch hok⟩
    intro _
    refine ⟨rfl, ?_⟩
    rw [show ({ t.setTask t.taskCount _ with taskCount := t.taskCount + 1 } : Scheduler).tasks
      t.taskCount = _ from if_pos rfl]
    exact stack_bounded _ hsize

theorem StacksApart.run (hrun : Run (StackStep L) (taskingInit t, []) calls (t', live)) :
    StacksApart t' live :=
  hrun.invariant (I := fun k => StacksApart k.1 k.2) (stacksApart_init t)
    fun _ _ _ h hstep => (h.create hstep).1

/-- Where `kmalloc` keeps its promise, the stacks of any tasks hold their first frames and share no
byte, and a call that fails leaves the tasks alone. -/
theorem task_stacks_bounded (L : Layout) (t₀ : Scheduler) {calls : List StackCall}
    {k k' : Scheduler × List Extent} {call : StackCall}
    (hrun : Run (StackStep L) (taskingInit t₀, []) calls k) (hstep : StackStep L k call k') :
    (call.ok = true → k'.1.taskCount = k.1.taskCount + 1 ∧
      (k'.1.tasks k.1.taskCount).Bounded call.stackSize) ∧
    (∀ i < k'.1.taskCount, ∀ j < k'.1.taskCount, i ≠ j →
      ∀ x, (k'.1.tasks i).InStack x → ¬ (k'.1.tasks j).InStack x) ∧
    (call.ok = false → k'.1 = k.1) := by
  obtain ⟨hnext, hok, hfail⟩ := (StacksApart.run hrun).create hstep
  exact ⟨hok, hnext.apart, hfail⟩

/-- The whole of the tight heap, for a stack of its size. -/
def tightCall : StackCall := ⟨tightState, [], ⟨0x3FFC00, 1024⟩, 0x100000, 1024, true⟩

theorem tightCall_step : StackStep bootLayout (noTasks, []) tightCall
    (firstMade.2.2, [⟨0x3FFC00, 1024⟩]) := by
  refine ⟨?_, ⟨firstMade.2.1, firstMade_step⟩, rfl⟩
  intro q s hrun
  have hq : (kmalloc bootLayout tightState 1024).map Prod.fst = some 0x3FFC00 := by decide
  rw [show kmalloc bootLayout tightState 1024 = some (q, s) from hrun] at hq
  cases hq
  exact .inr ⟨rfl, by decide, by decide, fun e he => nomatch he⟩

theorem task_stacks_bounded_boot :
    (tightCall.ok = true → firstMade.2.2.taskCount = noTasks.taskCount + 1 ∧
      (firstMade.2.2.tasks noTasks.taskCount).Bounded tightCall.stackSize) ∧
    (∀ i < firstMade.2.2.taskCount, ∀ j < firstMade.2.2.taskCount, i ≠ j →
      ∀ x, (firstMade.2.2.tasks i).InStack x → ¬ (firstMade.2.2.tasks j).InStack x) ∧
    (tightCall.ok = false → firstMade.2.2 = noTasks) :=
  task_stacks_bounded bootLayout _ .nil tightCall_step

end Kernix.Proofs
