import Kernix.Proofs.MapPage

namespace Kernix.Proofs
open Library Memory

variable {L : Layout} {pg : Paging} {d e t v : U32} {i : Nat}

/-- The tables are wired, and every present directory slot leads to one. -/
structure Walked (L : Layout) (pg : Paging) : Prop where
  wired : Wired L pg
  present : ∀ d, d.toNat < 1024 →
    pg.tables.read32 (entryAt L.pageDirectory d) &&& pageFlagPresent ≠ 0 →
      getPageTable L pg d ≠ nullptr

theorem present_of_table (hp : getPageTable L pg d ≠ nullptr) :
    pg.tables.read32 (entryAt L.pageDirectory d) &&& pageFlagPresent ≠ 0 := by
  intro h0
  apply hp
  simp only [getPageTable, h0, if_true]

theorem Walked.slotPresent_iff (h : Walked L pg) (v : U32) :
    SlotPresent L pg v ↔ getPageTable L pg (dirIndexOf v) ≠ nullptr :=
  ⟨h.present _ (dirIndexOf_lt v), present_of_table⟩

theorem pagingInit_walked (L : Layout) (pg : Paging) : Walked L (pagingInit L pg) := by
  refine ⟨(pagingInit_wired L pg).1, ?_⟩
  intro d hd hpresent
  rw [read_pagingInit_directory L pg hd] at hpresent
  rw [pagingInit_present L pg hd]
  by_contra hd0
  rw [if_neg hd0] at hpresent
  exact hpresent rfl

theorem Walked.setEntry (h : Walked L pg) (hd : d.toNat < 1024)
    (hp : getPageTable L pg d ≠ nullptr) (ht : t.toNat < 1024) (v : U32) :
    Walked L (setEntry pg (getPageTable L pg d) t v) := by
  refine ⟨setEntry_wired h.wired hd hp ht v, ?_⟩
  intro e he hpresent
  rw [read_setEntry_directory h.wired hd hp ht v he] at hpresent
  rw [getPageTable_setEntry h.wired hd hp ht v he]
  exact h.present e he hpresent

theorem Walked.withTable (h : Walked L pg) (hi : i < 32) (hd : d.toNat < 1024)
    (hp : getPageTable L pg d = nullptr) (hfree : pg.pageTableUsed i = false) :
    Walked L (withTable L pg d i) := by
  refine ⟨withTable_wired hi hd h.wired hp hfree, ?_⟩
  intro e he hpresent
  rw [getPageTable_withTable hi hd he]
  split
  · exact table_ne_null L hi
  · rename_i hed
    rw [read_withTable_directory hi hd L pg he, if_neg (Ne.symm hed)] at hpresent
    exact h.present e he hpresent

/-- What survives both ways the calls change the tables: an entry that is set, and a table that is
new. -/
structure KeptByCalls (L : Layout) (P : Paging → Prop) : Prop where
  setEntry : ∀ {pg d t}, P pg → d.toNat < 1024 → getPageTable L pg d ≠ nullptr → t.toNat < 1024 →
    ∀ v, P (setEntry pg (getPageTable L pg d) t v)
  withTable : ∀ {pg d i}, P pg → i < 32 → d.toNat < 1024 → getPageTable L pg d = nullptr →
    pg.pageTableUsed i = false → P (withTable L pg d i)

theorem KeptByCalls.mapPage {P : Paging → Prop} (hkept : KeptByCalls L P) (h : P pg)
    (v phys flags : U32) : P (mapPage L pg v phys flags) := by
  by_cases hp : getPageTable L pg (dirIndexOf v) = nullptr
  · by_cases hroom : ∃ i < 32, pg.pageTableUsed i = false
    · obtain ⟨i, hi, hfree, hrun⟩ := mapPage_absent phys flags hp hroom
      have hnew := hkept.withTable h hi (dirIndexOf_lt v) hp hfree
      have hne : getPageTable L (Proofs.withTable L pg (dirIndexOf v) i) (dirIndexOf v) ≠
          nullptr := by
        rw [getPageTable_withTable hi (dirIndexOf_lt v) (dirIndexOf_lt v), if_pos rfl]
        exact table_ne_null L hi
      rw [hrun, mapPage_present _ _ hne]
      exact hkept.setEntry hnew (dirIndexOf_lt v) hne (tableIndexOf_lt v) _
    · rw [mapPage_full phys flags (not_or.mpr ⟨not_not.mpr hp, hroom⟩)]
      exact h
  · rw [mapPage_present _ _ hp]
    exact hkept.setEntry h (dirIndexOf_lt v) hp (tableIndexOf_lt v) _

theorem KeptByCalls.unmapPage {P : Paging → Prop} (hkept : KeptByCalls L P) (h : P pg) (v : U32) :
    P (unmapPage L pg v) := by
  by_cases hp : getPageTable L pg (dirIndexOf v) = nullptr
  · rw [unmapPage_absent hp]
    exact h
  · rw [unmapPage_present hp]
    exact hkept.setEntry h (dirIndexOf_lt v) hp (tableIndexOf_lt v) _

theorem KeptByCalls.calls {P : Paging → Prop} (hkept : KeptByCalls L P) (h : P pg)
    (calls : List PagingCall) : P (calls.foldl (callPaging L) pg) := by
  apply List.foldlRecOn calls (callPaging L) h
  intro pg h call _
  cases call with
  | mapPage virt phys flags => exact hkept.mapPage h virt phys flags
  | unmapPage virt => exact hkept.unmapPage h virt

theorem walked_kept (L : Layout) : KeptByCalls L (Walked L) :=
  ⟨fun h hd hp ht v => h.setEntry hd hp ht v, fun h hi hd hp hfree => h.withTable hi hd hp hfree⟩

/-- The entry of `map_page` in the words of its arguments. -/
theorem pageEntry_eq (phys flags : U32) : pageEntry phys flags =
    (phys &&& pageFrameMask) ||| (flags &&& pageFlagMask) ||| pageFlagPresent := by
  have hmask : ~~~(pageSize - 1) = pageFrameMask := by decide
  rw [pageEntry, alignDown, hmask, BitVec.and_assoc, BitVec.and_self, BitVec.or_assoc]

/-- After any calls, one more is one update of the flat map, or none where no table can be had. -/
theorem page_tables_refine_map (L : Layout) (pg : Paging) (calls : List PagingCall)
    (virt phys flags : U32) :
    let t := calls.foldl (callPaging L) (pagingInit L pg)
    (SlotPresent L t virt ∨ (∃ i < pageTablePoolCount, t.pageTableUsed i = false) →
      lookup L (mapPage L t virt phys flags) = FlatMap.set (lookup L t) virt
        ((phys &&& 0xFFFFF000) ||| (flags &&& 0xFFF) ||| pageFlagPresent)) ∧
    (¬ (SlotPresent L t virt ∨ ∃ i < pageTablePoolCount, t.pageTableUsed i = false) →
      mapPage L t virt phys flags = t) ∧
    lookup L (unmapPage L t virt) = FlatMap.set (lookup L t) virt 0 := by
  intro t
  have ht : Walked L t := (walked_kept L).calls (pagingInit_walked L pg) calls
  rw [ht.slotPresent_iff]
  refine ⟨fun hcan => funext ?_, mapPage_full phys flags, funext ?_⟩
  · intro w
    rw [(mapPage_maps phys flags ht.wired hcan).2 w, pageEntry_eq]
    rfl
  · intro w
    exact (unmapPage_unmaps ht.wired virt).2.2.2 w

end Kernix.Proofs
