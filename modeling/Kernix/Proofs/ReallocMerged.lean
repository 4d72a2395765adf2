import Kernix.Proofs.Lists

namespace Kernix.Proofs
open Library Memory Memory.HeapBlock Memory.Client

variable {s s' : State} {h : Heap} {bs pre post : List Block} {b c n : Block} {p q r : U32} {lo : Nat}

/-- A block that grows into the free one after it is followed by a used one. -/
theorem merged_absorb (hb : b.free = false) (hm : Merged (pre ++ b :: post))
    (hno : ¬ r ≤ b.size) (hr : resize r b post = some bs) : Merged (pre ++ bs) := by
  obtain ⟨hpre, hpost⟩ := (merged_used hb).mp hm
  unfold resize at hr
  rw [if_neg hno] at hr
  cases post with
  | nil => simp [mergeNext, hno] at hr
  | cons n post =>
    cases hn : n.free with
    | false => simp [mergeNext_used hn, hno] at hr
    | true =>
      obtain ⟨hrest, hfirst⟩ := merged_cons.mp hpost
      rw [mergeNext_free hn] at hr
      simp only [Option.ite_none_right_eq_some, Option.some.injEq] at hr
      obtain ⟨-, rfl⟩ := hr
      rw [← List.append_assoc]
      exact (merged_cut (by exact hb) hpre hrest r).mpr fun _ => hfirst hn

/-- A block that moves is allocated anew, and then freed where it was. -/
theorem merged_move (hm : Merged h.blocks) (hb : b ∈ used h.blocks)
    (hp : Placed lo (malloc r h).2.blocks) :
    Merged (freeAt b.payload (malloc r h).2.blocks) := by
  apply merged_freeAt (merged_malloc hm r) hp
  rcases malloc_adds hp with ⟨-, hsame⟩ | ⟨c, -, -, hadds⟩
  · exact (hsame b).mpr hb
  · exact (hadds.mem b).mpr (.inl hb)

/-- Of the paths of `krealloc` only the shrinking one can leave two free neighbours: what it cuts
off is not merged with the block after it. -/
theorem merged_realloc (hm : Merged h.blocks) (hblocks : h.blocks = pre ++ b :: post)
    (hb : b.free = false) (hp : Placed lo h.blocks) (hp' : Placed lo (malloc r h).2.blocks) :
    Merged (realloc b.payload r h).2.blocks ↔
      (r.toNat + 32 ≤ b.size.toNat → FirstUsed post) := by
  have hfind : findUsed b.payload h.blocks = some (pre, b, post) := by
    rw [hblocks] at hp ⊢
    exact hp.findUsed hb
  have hm' := hm
  rw [hblocks] at hm'
  by_cases hfit : r ≤ b.size
  · have hr : resize r b post = some (cut r b ++ post) := if_pos hfit
    obtain ⟨hpre, hpost⟩ := (merged_used hb).mp hm'
    simp only [realloc, hfind, hr]
    rw [← List.append_assoc]
    exact merged_cut hb hpre hpost r
  · have hno : ¬ r.toNat + 32 ≤ b.size.toNat := fun hle => hfit (Nat.le_of_add_right_le hle)
    refine iff_of_true ?_ fun hle => absurd hle hno
    cases hr : resize r b post with
    | some bs =>
      simp only [realloc, hfind, hr]
      exact merged_absorb hb hm' hfit hr
    | none =>
      simp only [realloc, hfind, hr]
      split
      · exact merged_malloc hm r
      · exact merged_move hm (mem_used.mpr ⟨by simp [hblocks], hb⟩) hp'

/-- In a heap in order whose free blocks are merged, `krealloc` of a live pointer keeps them merged
exactly where it does not cut a block in front of a free one. -/
theorem krealloc_keeps_merged_iff (L : Layout) (hs : Rep s (pre ++ b :: post))
    (hm : Merged (pre ++ b :: post)) (hb : b.free = false) {size : U32} (hpos : 1 ≤ size.toNat)
    (hle : size.toNat ≤ heapVirtLimit.toNat) :
    ∃ q s' bs', krealloc L s b.payload size = some (q, s') ∧ Lists s' bs' ∧
      (Merged bs' ↔
        ((alignUp size allocAlign).toNat + 32 ≤ b.size.toNat → FirstUsed post)) := by
  have hsize : size ≠ 0 := by
    rintro rfl
    exact absurd hpos (by decide)
  have hwrap : size.toNat ≤ 0xFFFFFFF8 := Nat.le_trans hle (by decide)
  have hholds : Holds s ⟨pre ++ b :: post, s.gHeapMappedEnd.toNat⟩ := ⟨hs, rfl⟩
  have hg := growsSoundly_of_noWrap hholds.rep hsize (noWrap_of_small hle)
  obtain ⟨s', hrun, ha⟩ := krealloc_realloc L hholds (mem_used.mpr ⟨by simp, hb⟩) hsize hwrap hg
  obtain ⟨m, pg, ph, me, -, hs', -⟩ := kmalloc_malloc L hholds hsize hwrap hg
  exact ⟨_, s', _, hrun, ha.holds.rep.lists,
    merged_realloc hm rfl hb hs.placed hs'.rep.placed⟩

/-! The heap after boot and `kmalloc(64)`: the block handed out, and the rest. -/

def smallCall : U32 × State := (kmalloc bootLayout bootState 64).get (by decide)

theorem smallCall_eq : kmalloc bootLayout bootState 64 = some smallCall := (Option.some_get _).symm

def smallBlock : Block := ⟨0x123458, 64, false⟩

def restBlock : Block := ⟨0x1234B0, 0x2DCB38, true⟩

theorem smallCall_rep : Rep smallCall.2 [smallBlock, restBlock] := by
  have hboot : Holds bootState (initialHeap 0x123456) :=
    kmallocInit_holds blankState (by decide) (by decide)
  have hsmall := (kmalloc_list hboot (noWrap_of_small (by decide)) smallCall_eq).1
  have hblocks : (kmallocList 64 (initialHeap 0x123456)).blocks = [smallBlock, restBlock] := by
    decide
  exact hblocks ▸ hsmall.rep

theorem krealloc_keeps_merged_iff_boot : ∃ q s' bs',
    krealloc bootLayout smallCall.2 smallBlock.payload 40 = some (q, s') ∧ Lists s' bs' ∧
      (Merged bs' ↔ ((alignUp 40 allocAlign).toNat + 32 ≤ smallBlock.size.toNat →
        FirstUsed [restBlock])) := by
  have hrep : Rep smallCall.2 ([] ++ smallBlock :: [restBlock]) := smallCall_rep
  exact krealloc_keeps_merged_iff bootLayout hrep (by decide) rfl (by decide) (by decide)

/-- Shrunk to 8 bytes in place, the block of 64 leaves a free one in front of the free rest. -/
theorem krealloc_leaves_free_neighbours : ∃ q s' bs',
    Merged [smallBlock, restBlock] ∧ smallCall.1 = smallBlock.payload ∧
      krealloc bootLayout smallCall.2 smallCall.1 8 = some (q, s') ∧ Lists s' bs' ∧
        ¬ Merged bs' := by
  have hholds : Holds smallCall.2 ⟨[smallBlock, restBlock], smallCall.2.gHeapMappedEnd.toNat⟩ :=
    ⟨smallCall_rep, rfl⟩
  have hpos : (8 : U32) ≠ 0 := by decide
  obtain ⟨s', hrun, ha⟩ := krealloc_realloc bootLayout hholds (b := smallBlock) (by decide)
    hpos (by decide)
    (growsSoundly_of_noWrap hholds.rep (by decide) (noWrap_of_small (by decide)))
  refine ⟨_, s', _, by decide, by decide, hrun, ha.holds.rep.lists, ?_⟩
  decide

end Kernix.Proofs
