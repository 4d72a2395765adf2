import Kernix.Memory.Client
import Kernix.Proofs.Krealloc

namespace Kernix.Proofs
open Library Memory Memory.HeapBlock

variable {s : State} {h : Heap} {b c d : Block} {size : U32}

theorem Rep.tailUsed {pre : List Block} {t : Block} (hr : Rep s (pre ++ [t])) :
    tailUsed s = !t.free := by
  have ht : (load s.mem t.addr).free = flag t.free := by
    rw [(linked_zipper.mp hr.linked).2.1, header]
  have hne : t.addr ≠ nullptr := hr.placed.addr_ne (by simp)
  rw [Memory.tailUsed, hr.lastBlock]
  simp only [ht, ne_eq, hne, not_false_eq_true, decide_true, Bool.true_and]
  cases t.free <;> rfl

/-- A request that does not wrap does not ask for a growth of no pages. -/
theorem growsSoundly_of_noWrap (hs : Rep s h.blocks) (hsize : size ≠ 0)
    (hn : NoWrap s size.toNat) : GrowsSoundly (alignUp size allocAlign) h.blocks := by
  intro _ t ht hfree
  obtain ⟨pre, hblocks⟩ := List.getLast?_eq_some_iff.mp ht
  rw [hblocks] at hs
  have htail : Memory.tailUsed s = true := by rw [hs.tailUsed, hfree]; rfl
  have hle : size.toNat ≤ 0xFFFFFFF8 ∧ ¬ (0xFFFFEFE9 ≤ size.toNat ∧ size.toNat ≤ 0xFFFFFFE8) := by
    have := size.isLt
    rcases hn with hn | ⟨hle, hn⟩
    · omega
    · exact ⟨hle, fun hb => hn ⟨htail, hb⟩⟩
  have hr := alignUp_request hsize hle.1
  simp only [pagesFor, hfree, Bool.false_eq_true, if_false]
  bv_omega

theorem noWrap_le (hn : NoWrap s size.toNat) : size.toNat ≤ 0xFFFFFFF8 := by
  have := size.isLt
  unfold NoWrap at hn
  omega

theorem noWrap_of_small {n : Nat} (hn : n ≤ 2 ^ 26) : NoWrap s n := by
  unfold NoWrap
  omega

/-- What an allocation of `n` bytes comes to: `q` returned, `s'` and `h'` left. -/
structure Allocates (s s' : State) (h h' : Heap) (n : Nat) (q : U32) : Prop where
  holds : Holds s' h'
  start : s'.gHeapStart = s.gHeapStart
  others : ∀ d ∈ used h.blocks, ∀ x, InPayload d x → s'.mem x = s.mem x
  failed : q = nullptr → ∀ d, d ∈ used h'.blocks ↔ d ∈ used h.blocks
  given : q ≠ nullptr → ∃ c, c.payload = q ∧ n ≤ c.size.toNat ∧ c.free = false ∧
    (∀ d ∈ used h.blocks, d.payload ≠ q) ∧ ∀ d, d ∈ used h'.blocks ↔ d ∈ used h.blocks ∨ d = c

theorem Allocates.refuses (hs : Holds s h) (n : Nat) : Allocates s s h h n nullptr :=
  ⟨hs, rfl, fun _ _ _ _ => rfl, fun _ _ => Iff.rfl, fun hne => absurd rfl hne⟩

theorem kmalloc_allocates (L : Layout) (hs : Holds s h) (hn : NoWrap s size.toNat) :
    ∃ q s' h', kmalloc L s size = some (q, s') ∧ Allocates s s' h h' size.toNat q := by
  by_cases hsize : size = 0
  · refine ⟨nullptr, s, h, ?_, .refuses hs _⟩
    rw [kmalloc, if_pos (.inl hsize)]
    rfl
  · obtain ⟨m, pg, ph, me, hrun, hs', hout⟩ :=
      kmalloc_malloc L hs hsize (noWrap_le hn) (growsSoundly_of_noWrap hs.rep hsize hn)
    have hround := alignUp_request hsize (noWrap_le hn)
    refine ⟨_, _, _, hrun, hs', rfl, ?_, ?_, ?_⟩
    · intro d hd x hx
      refine hout.payload hs'.rep.placed ?_ hx
      rcases malloc_adds hs'.rep.placed with ⟨-, hsame⟩ | ⟨c, -, -, hadds⟩
      · exact mem_of_used ((hsame d).mpr hd)
      · exact mem_of_used ((hadds.mem d).mpr (.inl hd))
    · intro hq
      rcases malloc_adds hs'.rep.placed with ⟨-, hsame⟩ | ⟨c, hc, hne, -⟩
      · exact hsame
      · exact absurd (hc.trans hq) hne
    · intro hq
      rcases malloc_adds hs'.rep.placed with ⟨h0, -⟩ | ⟨c, hc, -, hadds⟩
      · exact absurd h0 hq
      · refine ⟨c, hc, Nat.le_trans hround.1 hadds.enough, hadds.free, ?_, hadds.mem⟩
        intro d hd
        rw [← hc]
        exact hadds.fresh d hd

/-- `kcalloc` allocates the product, and zeroes it. -/
theorem kcalloc_allocates (L : Layout) {count : U32} (hs : Holds s h)
    (hn : NoWrap s (count.toNat * size.toNat)) :
    ∃ q s' h', kcalloc L s count size = some (q, s') ∧
      Allocates s s' h h' (count.toNat * size.toNat) q ∧
      (q ≠ nullptr → ∀ i < count.toNat * size.toNat, s'.mem (q + BitVec.ofNat 32 i) = 0) := by
  by_cases hzero : count = 0 ∨ size = 0
  · exact ⟨nullptr, s, h, kcalloc_refused L s (.inl hzero), .refuses hs _,
      fun hne => absurd rfl hne⟩
  by_cases hbig : 0xFFFFFFFF < count.toNat * size.toNat
  · exact ⟨nullptr, s, h, kcalloc_refused L s (.inr hbig), .refuses hs _,
      fun hne => absurd rfl hne⟩
  have hasked := kcalloc_asked L s hzero hbig
  have hlt := (count * size).isLt
  rw [← toNat_product hbig] at hn ⊢
  obtain ⟨q, s', h', hrun, ha⟩ := kmalloc_allocates L hs hn
  rw [hrun, Option.map_some] at hasked
  generalize (count * size).toNat = total at *
  by_cases hq : q = nullptr
  · subst hq
    exact ⟨nullptr, s', h', hasked, ha, fun hne => absurd rfl hne⟩
  · obtain ⟨c, hc, hsize, hfree, hfresh, hmem⟩ := ha.given hq
    have hcu := (hmem c).mpr (.inr rfl)
    have hrest : ∀ x, ¬ InPayload c x → s'.mem.storeBytes q (fun _ => 0) total x = s'.mem x := by
      intro x hx
      apply Mem.storeBytes_outside (by omega)
      rw [← hc]
      exact Nat.le_trans hsize (Nat.le_of_not_lt hx)
    refine ⟨q, { s' with mem := s'.mem.storeBytes q (fun _ => 0) total }, h', ?_,
      ⟨⟨ha.holds.rep.congr_payload (mem_of_used hcu) hrest, ha.holds.mappedEnd⟩, ha.start, ?_,
        ha.failed, ha.given⟩, ?_⟩
    · rw [hasked]
      simp only [if_neg hq]
    · intro d hd x hx
      have hdc : d ≠ c := fun he => hfresh d hd (he ▸ hc)
      have hd' := mem_of_used ((hmem d).mpr (.inl hd))
      refine (hrest x ?_).trans (ha.others d hd x hx)
      exact ha.holds.rep.placed.payload_disjoint hd' (mem_of_used hcu) hdc hx
    · intro _ i hi
      exact Mem.storeBytes_inside (by omega) hi

end Kernix.Proofs
