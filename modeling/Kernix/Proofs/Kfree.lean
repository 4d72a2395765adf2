import Kernix.Proofs.Kmalloc

namespace Kernix.Proofs
open Library Memory Memory.HeapBlock

variable {s : State} {pre post : List Block} {b : Block}

theorem mergeNext_head (b : Block) (post : List Block) :
    ∃ c cs, mergeNext b post = c :: cs ∧ c.addr = b.addr ∧ c.free = b.free ∧
      cs.map Block.addr ⊆ post.map Block.addr := by
  cases post with
  | nil => exact ⟨b, [], rfl, rfl, rfl, by simp⟩
  | cons n post =>
    cases hn : n.free with
    | true => exact ⟨_, post, mergeNext_free hn, rfl, rfl, by simp⟩
    | false => exact ⟨b, n :: post, mergeNext_used hn, rfl, rfl, by simp⟩

theorem mergeNext_room (hp : Placed s.gHeapStart.toNat (pre ++ b :: post)) :
    room (mergeNext b post) = room (b :: post) := by
  cases post with
  | nil => rfl
  | cons n post =>
    cases hn : n.free with
    | false => rw [mergeNext_used hn]
    | true =>
      obtain ⟨-, -, -, hafter⟩ := hp.around
      obtain ⟨hbn, hend⟩ := hafter n List.mem_cons_self
      have hsize : (b.size + (24 + n.size)).toNat = b.size.toNat + 24 + n.size.toNat := by bv_omega
      rw [mergeNext_free hn]
      simp only [room, span_cons, Block.len, hsize]
      omega

/-- `coalesce_with_next` on a block of the heap. -/
theorem Rep.coalesce (h : Rep s (pre ++ b :: post)) :
    Rep { s with mem := coalesceWithNext s.mem b.addr } (pre ++ mergeNext b post) ∧
      SameOutside (pre ++ b :: post) s.mem (coalesceWithNext s.mem b.addr) := by
  obtain ⟨hl, hout⟩ := coalesceWithNext_linked h.placed h.linked
  obtain ⟨c, cs, hc, -⟩ := mergeNext_head b post
  have hroom := mergeNext_room h.placed
  refine ⟨h.edit (by simp [hc]) h.placed.mergeNext ?_ ?_ hl, hout⟩
  · simp only [room, span_append] at hroom ⊢
    omega
  · intro d hd
    rcases List.mem_append.mp hd with hd | hd
    · exact h.sized d (by simp [hd])
    cases post with
    | nil =>
      have hd : d = b := by simpa [mergeNext] using hd
      exact h.sized d (by simp [hd])
    | cons n post =>
      cases hn : n.free with
      | false =>
        rw [mergeNext_used hn] at hd
        exact h.sized d (List.mem_append_right _ hd)
      | true =>
        rw [mergeNext_free hn] at hd
        rcases List.mem_cons.mp hd with rfl | hd
        · obtain ⟨-, -, -, hafter⟩ := h.placed.around
          obtain ⟨hbn, hend⟩ := hafter n List.mem_cons_self
          have hb := h.sized b (by simp)
          have hns := h.sized n (by simp)
          have hsize : (b.size + (24 + n.size)).toNat = b.size.toNat + 24 + n.size.toNat := by
            bv_omega
          simp only [hsize]
          omega
        · exact h.sized d (by simp [hd])

/-- `kfree` of a pointer to the used block at `a`. -/
theorem kfree_eq {p a : U32} (hblock : blockFromPtr s p = a) (ha : a ≠ nullptr)
    (hfree : (load s.mem a).free = 0) :
    kfree s p =
      let m := coalesceWithNext (setFree s.mem a 1) a
      if (load m a).prev ≠ nullptr ∧ (load m (load m a).prev).free ≠ 0 then
        { s with mem := coalesceWithNext m (load m a).prev }
      else { s with mem := m } := by
  have hstart : ¬ (a = nullptr ∨ (load s.mem a).free ≠ 0) := not_or.mpr ⟨ha, not_not.mpr hfree⟩
  simp only [kfree, hblock, if_neg hstart]

/-- Freeing the block at `b` on the bytes is releasing it on the list. -/
theorem kfree_release (h : Rep s (pre ++ b :: post)) (hb : b.free = false) :
    ∃ m, kfree s b.payload = { s with mem := m } ∧
      Rep { s with mem := m } (release pre b post) ∧ SameOutside (pre ++ b :: post) s.mem m := by
  obtain ⟨hset, hout₁⟩ := h.setFree true
  obtain ⟨hco, hout₂⟩ := hset.coalesce
  obtain ⟨c, cs, hc, haddr, -, hcs⟩ := mergeNext_head { b with free := true } post
  have hfree : (load s.mem b.addr).free = 0 := by
    rw [(linked_zipper.mp h.linked).2.1, header, hb, flag_false]
  have hrun := kfree_eq (h.blockFromPtr (b := b) (by simp)) (h.placed.addr_ne (by simp)) hfree
  have hout : SameOutside (pre ++ b :: post) s.mem
      (coalesceWithNext (setFree s.mem b.addr 1) b.addr) :=
    (hout₁.subset (by simp)).trans (hout₂.mono (by simp))
  change Rep { s with mem := coalesceWithNext (setFree s.mem b.addr 1) b.addr } _ at hco
  rw [release]
  generalize coalesceWithNext (setFree s.mem b.addr 1) b.addr = m at hrun hco hout
  have hprev : (load m b.addr).prev = lastAddr nullptr pre := by
    have hlink := hco.linked
    rw [hc] at hlink
    rw [← haddr, (linked_zipper.mp hlink).2.1, header]
  rw [hrun]
  simp only [hprev]
  rcases List.eq_nil_or_concat' pre with rfl | ⟨pre, p, rfl⟩
  · refine ⟨m, ?_, hco, hout⟩
    rw [if_neg (fun h => h.1 rfl)]
  · have hp : p.addr ≠ nullptr := h.placed.addr_ne (by simp)
    rw [List.append_assoc, List.singleton_append] at hco
    have hpfree : (load m p.addr).free = flag p.free := by
      rw [(linked_zipper.mp hco.linked).2.1, header]
    rw [mergeLast_append, mergeLast, lastAddr_append, lastAddr_cons, lastAddr_nil, hpfree]
    cases hf : p.free with
    | false =>
      refine ⟨m, ?_, hco, hout⟩
      rw [if_neg (fun h => h.2 rfl)]
    | true =>
      obtain ⟨hmerge, hout₃⟩ := hco.coalesce
      refine ⟨_, if_pos ⟨hp, by decide⟩, hmerge, hout.trans (hout₃.mono ?_)⟩
      rw [hc]
      simp only [List.map_append, List.map_cons, haddr, List.append_assoc, List.cons_append]
      intro a ha
      simp only [List.mem_append, List.mem_cons, List.map_nil, List.nil_append] at ha ⊢
      rcases ha with ha | ha | ha | ha
      · exact .inl ha
      · exact .inr (.inl ha)
      · exact .inr (.inr (.inl ha))
      · exact .inr (.inr (.inr (hcs ha)))

end Kernix.Proofs
