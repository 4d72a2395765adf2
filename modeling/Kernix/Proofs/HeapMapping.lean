import Mathlib.Data.Finset.Card
import Kernix.Proofs.Growth
import Kernix.Proofs.Kmalloc

namespace Kernix.Proofs
open Library Memory Memory.HeapBlock

variable {L : Layout} {pg pg' : Paging} {s s' t : State} {d v w : U32} {i first n : Nat}

/-- The loop of `extend_heap_to_fit` maps the pages that fit below the limit, and then stops. -/
theorem extendLoop_growPages (L : Layout) (n : Nat) (s : State)
    (hpage : s.gHeapMappedEnd.toNat % 4096 = 0) (hlimit : s.gHeapMappedEnd.toNat ≤ 2 ^ 26) :
    (extendLoop L n s).2 = growPages L (pagesBelowLimit s n) s := by
  induction n generalizing s with
  | zero =>
    rw [pagesBelowLimit, Nat.zero_min]
    rfl
  | succ n ih =>
    rcases Nat.lt_or_ge s.gHeapMappedEnd.toNat (2 ^ 26) with hroom | hfull
    · have hnext := mapNext_end L hroom
      have hone : pagesBelowLimit s (n + 1) = pagesBelowLimit (mapNext L s) n + 1 := by
        unfold pagesBelowLimit
        omega
      rw [extendLoop_room L n hroom, ih _ (by omega) (by omega), hone]
      rfl
    · have hnone : pagesBelowLimit s (n + 1) = 0 := by
        unfold pagesBelowLimit
        omega
      rw [extendLoop_full L hfull (Nat.succ_pos n), hnone]
      rfl

/-! Counting directory slots and tables. -/

theorem mem_newSlots {d : Nat} : d ∈ newSlots L pg first n ↔
    (∃ k < n, (first + k) / 1024 = d) ∧ getPageTable L pg (BitVec.ofNat 32 d) = nullptr := by
  simp [newSlots]

theorem mem_unusedTables : i ∈ unusedTables pg ↔ i < 32 ∧ pg.pageTableUsed i = false := by
  simp [unusedTables, pageTablePoolCount]

/-- A page whose slot has a table needs none; the slots after it are among those of all. -/
theorem newSlots_tail (hslots : ∀ d, d.toNat < 1024 → getPageTable L pg d ≠ nullptr →
      getPageTable L pg' d ≠ nullptr) (hfirst : first + n < 2 ^ 20) :
    newSlots L pg' (first + 1) n ⊆ newSlots L pg first (n + 1) := by
  intro d hd
  obtain ⟨⟨k, hk, rfl⟩, hnull⟩ := mem_newSlots.mp hd
  refine mem_newSlots.mpr ⟨⟨k + 1, by omega, by omega⟩, ?_⟩
  by_contra hne
  refine hslots _ ?_ hne hnull
  rw [BitVec.toNat_ofNat]
  omega

/-- A page in a slot without a table gives that slot one, and the pool is one smaller. -/
theorem mapPage_newTable (phys flags : U32) (hw : Wired L pg)
    (hp : getPageTable L pg (dirIndexOf v) = nullptr) (hunused : (unusedTables pg).Nonempty) :
    (∀ d, d.toNat < 1024 → (getPageTable L (mapPage L pg v phys flags) d ≠ nullptr ↔
        getPageTable L pg d ≠ nullptr ∨ d = dirIndexOf v)) ∧
      (unusedTables (mapPage L pg v phys flags)).card + 1 = (unusedTables pg).card := by
  obtain ⟨j, hj⟩ := hunused
  have hfree : ∃ j < 32, pg.pageTableUsed j = false := ⟨j, mem_unusedTables.mp hj⟩
  obtain ⟨i, pg₁, hfresh, hne, hrun⟩ := mapPage_fresh phys flags hw hp hfree
  obtain ⟨-, htables, -⟩ := mapPage_slot phys flags hfresh.wired hne
  constructor
  · intro d hd
    rw [hrun, htables d hd, hfresh.table d hd]
    split
    · rename_i hdv
      exact iff_of_true (table_ne_null L hfresh.index) (.inr hdv)
    · rename_i hdv
      exact (or_iff_left hdv).symm
  · have hused : unusedTables (mapPage L pg v phys flags) = (unusedTables pg).erase i := by
      ext k
      rw [hrun, Finset.mem_erase, mem_unusedTables, mem_unusedTables, mapPage_used _ _ hne,
        hfresh.used]
      by_cases hk : k = i <;> simp [hk]
    rw [hused]
    exact Finset.card_erase_add_one (mem_unusedTables.mpr ⟨hfresh.index, hfresh.free⟩)

/-- Where the slots are covered before a page is mapped, that page can be, and the rest are
covered after it. -/
theorem mapPage_covers (phys flags : U32) (hw : Wired L pg) (hv : v.toNat / 4096 = first)
    (hfirst : first + n < 2 ^ 20)
    (hroom : (newSlots L pg first (n + 1)).card ≤ (unusedTables pg).card) :
    CanMap L pg v ∧
      (∀ d, d.toNat < 1024 → (getPageTable L (mapPage L pg v phys flags) d ≠ nullptr ↔
        getPageTable L pg d ≠ nullptr ∨ d = dirIndexOf v)) ∧
      (newSlots L (mapPage L pg v phys flags) (first + 1) n).card ≤
        (unusedTables (mapPage L pg v phys flags)).card := by
  have hd := dirIndexOf_lt v
  by_cases hp : getPageTable L pg (dirIndexOf v) = nullptr
  · have hslot : (dirIndexOf v).toNat ∈ newSlots L pg first (n + 1) := by
      refine mem_newSlots.mpr ⟨⟨0, by omega, ?_⟩, ?_⟩
      · rw [toNat_dirIndexOf]
        omega
      · rwa [BitVec.ofNat_toNat, BitVec.setWidth_eq]
    have hunused : (unusedTables pg).Nonempty :=
      Finset.card_pos.mp (Nat.lt_of_lt_of_le (Finset.card_pos.mpr ⟨_, hslot⟩) hroom)
    obtain ⟨hslots, hleft⟩ := mapPage_newTable phys flags hw hp hunused
    have hsub : newSlots L (mapPage L pg v phys flags) (first + 1) n ⊆
        (newSlots L pg first (n + 1)).erase (dirIndexOf v).toNat := by
      intro d hd'
      refine Finset.mem_erase.mpr ⟨?_, newSlots_tail ?_ hfirst hd'⟩
      · rintro rfl
        have hnull := (mem_newSlots.mp hd').2
        rw [BitVec.ofNat_toNat, BitVec.setWidth_eq] at hnull
        exact (hslots _ hd).mpr (.inr rfl) hnull
      · intro e he hne
        exact (hslots e he).mpr (.inl hne)
    have hcard := Finset.card_le_card hsub
    rw [Finset.card_erase_of_mem hslot] at hcard
    obtain ⟨j, hj⟩ := hunused
    exact ⟨.inr ⟨j, mem_unusedTables.mp hj⟩, hslots, by omega⟩
  · obtain ⟨-, htables, -⟩ := mapPage_slot phys flags hw hp
    refine ⟨.inl hp, ?_, ?_⟩
    · intro d hd'
      rw [htables d hd']
      refine (or_iff_left_of_imp ?_).symm
      rintro rfl
      exact hp
    · have hsame : unusedTables (mapPage L pg v phys flags) = unusedTables pg := by
        ext k
        rw [mem_unusedTables, mem_unusedTables, mapPage_used _ _ hp]
      rw [hsame]
      refine Nat.le_trans (Finset.card_le_card (newSlots_tail ?_ hfirst)) hroom
      intro d hd' hne
      rwa [htables d hd']

/-- `s'` is `s` after a growth by `n` pages, each of which was mapped. -/
structure Grown (L : Layout) (s : State) (n : Nat) (s' : State) : Prop where
  wired : Wired L s'.paging
  mappedEnd : s'.gHeapMappedEnd.toNat = s.gHeapMappedEnd.toNat + 4096 * n
  phys : s'.gNextFreePhys = s.gNextFreePhys + (s'.gHeapMappedEnd - s.gHeapMappedEnd)
  start : s'.gHeapStart = s.gHeapStart
  head : s'.gHeapHead = s.gHeapHead
  slots : ∀ d, d.toNat < 1024 → (getPageTable L s'.paging d ≠ nullptr ↔
    getPageTable L s.paging d ≠ nullptr ∨
      ∃ k < n, (s.gHeapMappedEnd.toNat / 4096 + k) / 1024 = d.toNat)
  lookup : ∀ w, lookup L s'.paging w =
    if s.gHeapMappedEnd.toNat ≤ w.toNat ∧ w.toNat < s'.gHeapMappedEnd.toNat then
      pageEntry (s.gNextFreePhys + (alignDown w pageSize - s.gHeapMappedEnd)) pageFlagRw
    else lookup L s.paging w

/-- Both counters moved by a page, their difference is as before. -/
theorem frame_step (phys w mapped : U32) :
    phys + pageSize + (w - (mapped + pageSize)) = phys + (w - mapped) := by
  unfold pageSize
  bv_omega

theorem growPages_grown (n : Nat) (s : State) (hw : Wired L s.paging)
    (hpage : s.gHeapMappedEnd.toNat % 4096 = 0) (hend : s.gHeapMappedEnd.toNat + 4096 * n ≤ 2 ^ 26)
    (hroom : (newSlots L s.paging (s.gHeapMappedEnd.toNat / 4096) n).card ≤
      (unusedTables s.paging).card) : Grown L s n (growPages L n s) := by
  induction n generalizing s with
  | zero =>
    refine ⟨hw, rfl, by simp [growPages], rfl, rfl, ?_, ?_⟩
    · intro d hd
      exact (or_iff_left (fun ⟨k, hk, _⟩ => absurd hk (Nat.not_lt_zero k))).symm
    · intro w
      rw [if_neg]
      · rfl
      · rintro ⟨h1, h2⟩
        exact absurd h2 (Nat.not_lt.mpr h1)
  | succ n ih =>
    obtain ⟨hcan, hslots, hrest⟩ :=
      mapPage_covers s.gNextFreePhys pageFlagRw hw rfl (by omega) hroom
    obtain ⟨hwired, hlookup⟩ := mapPage_maps s.gNextFreePhys pageFlagRw hw hcan
    rw [← mapNext_paging] at hslots hrest hwired hlookup
    have hnext := mapNext_end L (s := s) (by omega)
    have hfirst : (mapNext L s).gHeapMappedEnd.toNat / 4096 = s.gHeapMappedEnd.toNat / 4096 + 1 := by
      omega
    have hg := ih (mapNext L s) hwired (by omega) (by omega) (by rw [hfirst]; exact hrest)
    have hmapped := hg.mappedEnd
    rw [show growPages L (n + 1) s = growPages L n (mapNext L s) from rfl]
    refine ⟨hg.wired, ?_, ?_, hg.start, hg.head, ?_, ?_⟩
    · omega
    · exact hg.phys.trans (frame_step _ _ _)
    · intro d hd
      rw [hg.slots d hd, hslots d hd, hfirst, or_assoc, ← BitVec.toNat_inj,
        toNat_dirIndexOf]
      refine or_congr_right ⟨?_, ?_⟩
      · rintro (h | ⟨k, hk, h⟩)
        · exact ⟨0, by omega, by omega⟩
        · exact ⟨k + 1, by omega, by omega⟩
      · rintro ⟨_ | k, hk, h⟩
        · exact .inl (by omega)
        · exact .inr ⟨k, by omega, by omega⟩
    · intro w
      have hw' := toNat_alignDown_page w
      rw [hg.lookup, hlookup, hnext, hmapped, hnext]
      by_cases hlow : w.toNat < s.gHeapMappedEnd.toNat
      · rw [if_neg (by omega), if_neg (by omega), if_neg (by omega)]
      by_cases hfirst : s.gHeapMappedEnd.toNat / 4096 = w.toNat / 4096
      · have hown : alignDown w pageSize = s.gHeapMappedEnd := BitVec.eq_of_toNat_eq (by omega)
        rw [if_neg (by omega), if_pos hfirst, if_pos (by omega), hown, BitVec.sub_self,
          BitVec.add_zero]
      by_cases hin : w.toNat < s.gHeapMappedEnd.toNat + 4096 * (n + 1)
      · rw [if_pos (by omega), if_pos (by omega)]
        exact congrArg (pageEntry · pageFlagRw) (frame_step _ _ _)
      · rw [if_neg (by omega), if_neg hfirst, if_neg (by omega)]

/-! A request's growth. -/

theorem Grown.sameMaps (hg : Grown L s n t) (h : SameMaps t s') : Grown L s n s' := by
  obtain ⟨m, rfl⟩ := h
  exact ⟨hg.wired, hg.mappedEnd, hg.phys, hg.start, hg.head, hg.slots, hg.lookup⟩

/-- A request maps the pages it grows the heap by, where the pool has the tables for them. -/
theorem serve_grown {e : Event} (hw : Wired L s.paging) (hpage : s.gHeapMappedEnd.toNat % 4096 = 0)
    (hlimit : s.gHeapMappedEnd.toNat ≤ 2 ^ 26) (hroom : PoolSuffices L s (e.1.pages s))
    (h : serve L s e.1 = some (e.2, s')) :
    Grown L s (pagesBelowLimit s (e.1.pages s)) s' := by
  have hgrow := serve_grows h
  rw [extendLoop_growPages L _ s hpage hlimit] at hgrow
  refine (growPages_grown _ s hw hpage ?_ hroom).sameMaps hgrow
  unfold pagesBelowLimit
  omega

end Kernix.Proofs
