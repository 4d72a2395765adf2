import Kernix.Proofs.PageTables

namespace Kernix.Proofs
open Library Memory

variable {L : Layout} {pg pg' : Paging} {d e k v w : U32} {i : Nat}

/-- Present directory slots point at distinct tables of the pool, which are just those in use. -/
structure Wired (L : Layout) (pg : Paging) : Prop where
  table : ∀ d, d.toNat < 1024 → getPageTable L pg d ≠ nullptr →
    ∃ i < 32, pg.pageTableUsed i = true ∧ getPageTable L pg d = L.table i
  inj : ∀ d e, d.toNat < 1024 → e.toNat < 1024 → getPageTable L pg d ≠ nullptr →
    getPageTable L pg d = getPageTable L pg e → d = e
  used : ∀ i < 32, pg.pageTableUsed i = true → ∃ d, d.toNat < 1024 ∧ getPageTable L pg d = L.table i

/-- `getPageTable` reads the directory's word only. -/
theorem getPageTable_congr
    (h : pg'.tables.read32 (entryAt L.pageDirectory d) = pg.tables.read32 (entryAt L.pageDirectory d)) :
    getPageTable L pg' d = getPageTable L pg d := by
  simp only [getPageTable, h]

/-- A directory word made of a table's address and flags names that table. -/
theorem getPageTable_entry (flags : U32) (hi : i < 32) (hodd : flags.toNat % 2 = 1)
    (hf : flags.toNat < 4096)
    (h : pg.tables.read32 (entryAt L.pageDirectory d) = (L.table i &&& pageFrameMask) ||| flags) :
    getPageTable L pg d = L.table i := by
  have halign := (table_array L hi).bounds.1
  obtain ⟨hframe, hsum⟩ := frame_or_flags halign hf
  have hpresent : ((L.table i &&& pageFrameMask) ||| flags) &&& pageFlagPresent ≠ 0 := by
    rw [present_iff, hsum]
    omega
  simp only [getPageTable, h, if_neg hpresent, hframe]

/-! An entry stored into a table in use. -/

def setEntry (pg : Paging) (table index v : U32) : Paging :=
  { pg with tables := pg.tables.write32 (entryAt table index) v }

section setEntry
variable {t : U32} (hw : Wired L pg) (hd : d.toNat < 1024) (hp : getPageTable L pg d ≠ nullptr)
  (ht : t.toNat < 1024) (v : U32)
include hw hd hp ht

theorem read_setEntry_directory (he : e.toNat < 1024) :
    (setEntry pg (getPageTable L pg d) t v).tables.read32 (entryAt L.pageDirectory e) =
      pg.tables.read32 (entryAt L.pageDirectory e) := by
  obtain ⟨i, hi, -, htable⟩ := hw.table d hd hp
  rw [htable, setEntry, read_write_entry (table_array L hi) (directory_array L) ht he, if_neg]
  exact fun h => table_ne_directory hi h.1

theorem getPageTable_setEntry (he : e.toNat < 1024) :
    getPageTable L (setEntry pg (getPageTable L pg d) t v) e = getPageTable L pg e :=
  getPageTable_congr (read_setEntry_directory hw hd hp ht v he)

theorem setEntry_wired : Wired L (setEntry pg (getPageTable L pg d) t v) := by
  refine ⟨?_, ?_, ?_⟩
  · intro e he hne
    rw [getPageTable_setEntry hw hd hp ht v he] at hne ⊢
    exact hw.table e he hne
  · intro e e' he he' hne hsame
    rw [getPageTable_setEntry hw hd hp ht v he] at hne hsame
    rw [getPageTable_setEntry hw hd hp ht v he'] at hsame
    exact hw.inj e e' he he' hne hsame
  · intro i hi hused
    obtain ⟨e, he, htable⟩ := hw.used i hi hused
    exact ⟨e, he, (getPageTable_setEntry hw hd hp ht v he).trans htable⟩

theorem lookup_setEntry (w : U32) :
    lookup L (setEntry pg (getPageTable L pg d) t v) w =
      if d = dirIndexOf w ∧ t = tableIndexOf w then v else lookup L pg w := by
  obtain ⟨i, hi, -, htable⟩ := hw.table d hd hp
  have hwd := dirIndexOf_lt w
  have hwt := tableIndexOf_lt w
  simp only [lookup, getPageTable_setEntry hw hd hp ht v hwd]
  by_cases hnull : getPageTable L pg (dirIndexOf w) = nullptr
  · rw [if_pos hnull, if_pos hnull, if_neg]
    exact fun h => hp (h.1 ▸ hnull)
  · obtain ⟨i', hi', -, htable'⟩ := hw.table _ hwd hnull
    rw [if_neg hnull, if_neg hnull, htable, htable', setEntry,
      read_write_entry (table_array L hi) (table_array L hi') ht hwt]
    congr 1
    rw [← htable, ← htable', eq_iff_iff]
    refine and_congr_left fun _ => ⟨hw.inj d _ hd hwd hp, fun h => by rw [h]⟩

end setEntry

/-! Finding or making the table of a directory slot. -/

theorem getOrCreate_present (hp : getPageTable L pg d ≠ nullptr) :
    getOrCreatePageTable L pg d = (getPageTable L pg d, pg) := by
  simp only [getOrCreatePageTable, if_pos hp]

theorem getOrCreate_full (hp : getPageTable L pg d = nullptr)
    (hfull : ∀ i < 32, pg.pageTableUsed i = true) :
    getOrCreatePageTable L pg d = (nullptr, pg) := by
  have hnone : (List.range pageTablePoolCount).find? (fun i => !pg.pageTableUsed i) = none := by
    rw [List.find?_eq_none]
    intro i hi
    simpa using hfull i (List.mem_range.mp hi)
  simp only [getOrCreatePageTable, hp, allocPageTable, hnone, ne_eq, not_true_eq_false, if_false,
    if_true]

/-- `pg` after the free pool table `i` became the table of the directory slot `d`. -/
def withTable (L : Layout) (pg : Paging) (d : U32) (i : Nat) : Paging :=
  { tables := (pg.tables.storeWords (L.table i) (fun _ => 0) pageEntries).write32
      (entryAt L.pageDirectory d)
      (((L.table i &&& pageFrameMask) ||| pageFlagPresent) ||| pageFlagRw)
    pageTableUsed := fun k => if k = i then true else pg.pageTableUsed k }

theorem getOrCreate_absent (hp : getPageTable L pg d = nullptr)
    (hroom : ∃ i < 32, pg.pageTableUsed i = false) :
    ∃ i < 32, pg.pageTableUsed i = false ∧
      getOrCreatePageTable L pg d = (L.table i, withTable L pg d i) := by
  have hsome : ((List.range pageTablePoolCount).find? (fun i => !pg.pageTableUsed i)).isSome := by
    obtain ⟨i, hi, hfree⟩ := hroom
    rw [List.find?_isSome]
    exact ⟨i, List.mem_range.mpr hi, by simpa using hfree⟩
  obtain ⟨i, hfind⟩ := Option.isSome_iff_exists.mp hsome
  have hi : i < 32 := List.mem_range.mp (List.mem_of_find?_eq_some hfind)
  have hfree : pg.pageTableUsed i = false := by
    have := List.find?_some hfind
    simpa using this
  refine ⟨i, hi, hfree, ?_⟩
  simp only [getOrCreatePageTable, hp, allocPageTable, hfind, ne_eq, not_true_eq_false, if_false,
    table_ne_null L hi]
  rfl

section WithTable

variable {i : Nat} (hi : i < 32) (hd : d.toNat < 1024)
include hi hd

theorem read_withTable_directory (L : Layout) (pg : Paging) {e : U32} (he : e.toNat < 1024) :
    (withTable L pg d i).tables.read32 (entryAt L.pageDirectory e) = if d = e then
      ((L.table i &&& pageFrameMask) ||| pageFlagPresent) ||| pageFlagRw
      else pg.tables.read32 (entryAt L.pageDirectory e) := by
  change Mem.read32 (Mem.write32 _ _ _) _ = _
  rw [read_write_entry (directory_array L) (directory_array L) hd he,
    read_storeWords_entry (table_array L hi) (directory_array L) he,
    if_neg (table_ne_directory hi)]
  simp

theorem getPageTable_withTable {e : U32} (he : e.toNat < 1024) :
    getPageTable L (withTable L pg d i) e = if e = d then L.table i else getPageTable L pg e := by
  have hread := read_withTable_directory hi hd L pg he
  split
  · rename_i hed
    subst hed
    rw [if_pos rfl] at hread
    apply getPageTable_entry (pageFlagPresent ||| pageFlagRw) hi (by decide) (by decide)
    rw [hread]
    exact BitVec.or_assoc ..
  · rename_i hed
    rw [if_neg (Ne.symm hed)] at hread
    exact getPageTable_congr hread

omit hd in
theorem Wired.ne_free_table (hw : Wired L pg) (hfree : pg.pageTableUsed i = false) {e : U32}
    (he : e.toNat < 1024) : getPageTable L pg e ≠ L.table i := by
  intro htab
  obtain ⟨i', hi', hused, htab'⟩ := hw.table e he (by rw [htab]; exact table_ne_null L hi)
  have := table_inj hi hi' (htab.symm.trans htab')
  rw [this, hused] at hfree
  simp at hfree

theorem withTable_wired (hw : Wired L pg) (hp : getPageTable L pg d = nullptr)
    (hfree : pg.pageTableUsed i = false) : Wired L (withTable L pg d i) := by
  have hother : ∀ e, e.toNat < 1024 → getPageTable L pg e ≠ L.table i :=
    fun e he => hw.ne_free_table hi hfree he
  refine ⟨?_, ?_, ?_⟩
  · intro e he hne
    rw [getPageTable_withTable hi hd he] at hne ⊢
    split
    · exact ⟨i, hi, if_pos rfl, rfl⟩
    · rename_i hed
      rw [if_neg hed] at hne
      obtain ⟨i', hi', hused, htab⟩ := hw.table e he hne
      refine ⟨i', hi', ?_, htab⟩
      change (if i' = i then true else pg.pageTableUsed i') = true
      rw [hused, ite_self]
  · intro e e' he he' hne hsame
    rw [getPageTable_withTable hi hd he] at hne hsame
    rw [getPageTable_withTable hi hd he'] at hsame
    by_cases hed : e = d
    · by_cases hed' : e' = d
      · rw [hed, hed']
      · rw [if_pos hed, if_neg hed'] at hsame
        exact absurd hsame.symm (hother e' he')
    · rw [if_neg hed] at hne hsame
      by_cases hed' : e' = d
      · rw [if_pos hed'] at hsame
        exact absurd hsame (hother e he)
      · rw [if_neg hed'] at hsame
        exact hw.inj e e' he he' hne hsame
  · intro k hk hused
    by_cases hki : k = i
    · exact ⟨d, hd, by rw [getPageTable_withTable hi hd hd, if_pos rfl, hki]⟩
    · have hused : pg.pageTableUsed k = true := by simpa [withTable, hki] using hused
      obtain ⟨e, he, htab⟩ := hw.used k hk hused
      refine ⟨e, he, ?_⟩
      rw [getPageTable_withTable hi hd he, if_neg, htab]
      rintro rfl
      exact table_ne_null L hk (htab.symm.trans hp)

/-- A cleared table maps nothing, so no address is mapped otherwise than before. -/
theorem lookup_withTable (hw : Wired L pg) (hp : getPageTable L pg d = nullptr)
    (hfree : pg.pageTableUsed i = false) (w : U32) :
    lookup L (withTable L pg d i) w = lookup L pg w := by
  have hwd := dirIndexOf_lt w
  have hwt := tableIndexOf_lt w
  simp only [Memory.lookup, getPageTable_withTable hi hd hwd]
  split
  · rename_i hed
    rw [if_neg (table_ne_null L hi), hed, if_pos hp]
    change Mem.read32 (Mem.write32 _ _ _) _ = _
    rw [read_write_entry (directory_array L) (table_array L hi) hd hwt,
      if_neg (fun h => table_ne_directory hi h.1.symm),
      read_storeWords_entry (table_array L hi) (table_array L hi) hwt, if_pos rfl]
  · split
    · rfl
    · rename_i hnull
      obtain ⟨k, hk, -, htab⟩ := hw.table _ hwd hnull
      rw [htab]
      change Mem.read32 (Mem.write32 _ _ _) _ = _
      rw [read_write_entry (directory_array L) (table_array L hk) hd hwt,
        if_neg (fun h => table_ne_directory hk h.1.symm),
        read_storeWords_entry (table_array L hi) (table_array L hk) hwt, if_neg]
      exact fun h => hw.ne_free_table hi hfree hwd (htab.trans h.symm)

end WithTable

/-- What a directory slot new to the directory `pg` gets. -/
structure Fresh (L : Layout) (pg : Paging) (d : U32) (i : Nat) (pg' : Paging) : Prop where
  index : i < 32
  free : pg.pageTableUsed i = false
  wired : Wired L pg'
  table : ∀ e, e.toNat < 1024 →
    getPageTable L pg' e = if e = d then L.table i else getPageTable L pg e
  used : ∀ k, pg'.pageTableUsed k = if k = i then true else pg.pageTableUsed k
  lookup : ∀ w, lookup L pg' w = lookup L pg w

theorem withTable_fresh (hi : i < 32) (hd : d.toNat < 1024) (hw : Wired L pg)
    (hp : getPageTable L pg d = nullptr) (hfree : pg.pageTableUsed i = false) :
    Fresh L pg d i (withTable L pg d i) :=
  ⟨hi, hfree, withTable_wired hi hd hw hp hfree, fun _ he => getPageTable_withTable hi hd he,
    fun _ => rfl, lookup_withTable hi hd hw hp hfree⟩

/-! The two calls of the paging interface. -/

/-- The entry `map_page` writes. -/
def pageEntry (phys flags : U32) : U32 :=
  (alignDown phys pageSize &&& pageFrameMask) ||| ((flags &&& pageFlagMask) ||| pageFlagPresent)

/-- `map_page` can find or make a table for `v`. -/
def CanMap (L : Layout) (pg : Paging) (v : U32) : Prop :=
  getPageTable L pg (dirIndexOf v) ≠ nullptr ∨ ∃ i < 32, pg.pageTableUsed i = false

variable (phys flags : U32)

theorem mapPage_present (hp : getPageTable L pg (dirIndexOf v) ≠ nullptr) :
    mapPage L pg v phys flags = setEntry pg (getPageTable L pg (dirIndexOf v)) (tableIndexOf v)
      (pageEntry phys flags) := by
  simp only [mapPage, dirIndexOf_alignDown, tableIndexOf_alignDown, getOrCreate_present hp, if_neg hp]
  rfl

theorem mapPage_absent (hp : getPageTable L pg (dirIndexOf v) = nullptr)
    (hroom : ∃ i < 32, pg.pageTableUsed i = false) :
    ∃ i < 32, pg.pageTableUsed i = false ∧ mapPage L pg v phys flags =
      mapPage L (withTable L pg (dirIndexOf v) i) v phys flags := by
  obtain ⟨i, hi, hfree, hrun⟩ := getOrCreate_absent hp hroom
  have htable : getPageTable L (withTable L pg (dirIndexOf v) i) (dirIndexOf v) = L.table i := by
    rw [getPageTable_withTable hi (dirIndexOf_lt v) (dirIndexOf_lt v), if_pos rfl]
  refine ⟨i, hi, hfree, ?_⟩
  generalize withTable L pg (dirIndexOf v) i = pg' at hrun htable
  have hne : getPageTable L pg' (dirIndexOf v) ≠ nullptr := htable ▸ table_ne_null L hi
  rw [mapPage_present _ _ hne, htable]
  simp only [mapPage, dirIndexOf_alignDown, tableIndexOf_alignDown, hrun,
    if_neg (table_ne_null L hi)]
  rfl

/-- A slot without a table gets one first. -/
theorem mapPage_fresh (hw : Wired L pg) (hp : getPageTable L pg (dirIndexOf v) = nullptr)
    (hroom : ∃ i < 32, pg.pageTableUsed i = false) :
    ∃ i pg', Fresh L pg (dirIndexOf v) i pg' ∧ getPageTable L pg' (dirIndexOf v) ≠ nullptr ∧
      mapPage L pg v phys flags = mapPage L pg' v phys flags := by
  obtain ⟨i, hi, hfree, hrun⟩ := mapPage_absent phys flags hp hroom
  have hd := dirIndexOf_lt v
  refine ⟨i, _, withTable_fresh hi hd hw hp hfree, ?_, hrun⟩
  rw [getPageTable_withTable hi hd hd, if_pos rfl]
  exact table_ne_null L hi

theorem mapPage_full (hno : ¬ CanMap L pg v) : mapPage L pg v phys flags = pg := by
  obtain ⟨hp, hfull⟩ := not_or.mp hno
  have hp := not_not.mp hp
  have hfull : ∀ i < 32, pg.pageTableUsed i = true := by
    intro i hi
    by_contra hfree
    exact hfull ⟨i, hi, by simpa using hfree⟩
  simp only [mapPage, dirIndexOf_alignDown, getOrCreate_full hp hfull, if_true]

theorem mapPage_slot (hw : Wired L pg) (hp : getPageTable L pg (dirIndexOf v) ≠ nullptr) :
    Wired L (mapPage L pg v phys flags) ∧
      (∀ e, e.toNat < 1024 → getPageTable L (mapPage L pg v phys flags) e = getPageTable L pg e) ∧
      ∀ w, lookup L (mapPage L pg v phys flags) w =
        if v.toNat / 4096 = w.toNat / 4096 then pageEntry phys flags else lookup L pg w := by
  have hd := dirIndexOf_lt v
  have ht := tableIndexOf_lt v
  rw [mapPage_present _ _ hp]
  refine ⟨setEntry_wired hw hd hp ht _, fun e he => getPageTable_setEntry hw hd hp ht _ he, ?_⟩
  intro w
  simp only [lookup_setEntry hw hd hp ht, same_entry_iff]

/-- `map_page` refines the flat map: one entry is set, the rest stay. -/
theorem mapPage_maps (hw : Wired L pg) (hcan : CanMap L pg v) :
    Wired L (mapPage L pg v phys flags) ∧ ∀ w, lookup L (mapPage L pg v phys flags) w =
      if v.toNat / 4096 = w.toNat / 4096 then pageEntry phys flags else lookup L pg w := by
  by_cases hp : getPageTable L pg (dirIndexOf v) = nullptr
  · obtain ⟨i, pg', hfresh, hne, hrun⟩ :=
      mapPage_fresh phys flags hw hp (hcan.resolve_left (not_not.mpr hp))
    obtain ⟨hwired, -, hlookup⟩ := mapPage_slot phys flags hfresh.wired hne
    rw [hrun]
    exact ⟨hwired, fun w => by rw [hlookup, hfresh.lookup]⟩
  · obtain ⟨hwired, -, hlookup⟩ := mapPage_slot phys flags hw hp
    exact ⟨hwired, hlookup⟩

theorem mapPage_used (hp : getPageTable L pg (dirIndexOf v) ≠ nullptr) :
    (mapPage L pg v phys flags).pageTableUsed = pg.pageTableUsed := by
  rw [mapPage_present _ _ hp, setEntry]

theorem unmapPage_absent (hp : getPageTable L pg (dirIndexOf v) = nullptr) :
    unmapPage L pg v = pg := by
  simp only [unmapPage, dirIndexOf_alignDown, hp, if_true]

theorem unmapPage_present (hp : getPageTable L pg (dirIndexOf v) ≠ nullptr) :
    unmapPage L pg v = setEntry pg (getPageTable L pg (dirIndexOf v)) (tableIndexOf v) 0 := by
  simp only [unmapPage, dirIndexOf_alignDown, tableIndexOf_alignDown, if_neg hp, setEntry]

/-- `unmap_page` clears one entry. -/
theorem unmapPage_unmaps (hw : Wired L pg) (v : U32) :
    Wired L (unmapPage L pg v) ∧
      (∀ e, e.toNat < 1024 → getPageTable L (unmapPage L pg v) e = getPageTable L pg e) ∧
      (unmapPage L pg v).pageTableUsed = pg.pageTableUsed ∧
      ∀ w, lookup L (unmapPage L pg v) w =
        if v.toNat / 4096 = w.toNat / 4096 then 0 else lookup L pg w := by
  have hd := dirIndexOf_lt v
  have ht := tableIndexOf_lt v
  by_cases hp : getPageTable L pg (dirIndexOf v) = nullptr
  · rw [unmapPage_absent hp]
    refine ⟨hw, fun _ _ => rfl, rfl, ?_⟩
    intro w
    split
    · rename_i hsame
      rw [lookup, ← (same_entry_iff.mpr hsame).1, hp, if_pos rfl]
    · rfl
  · rw [unmapPage_present hp]
    refine ⟨setEntry_wired hw hd hp ht _, fun e he => getPageTable_setEntry hw hd hp ht _ he, rfl, ?_⟩
    intro w
    simp only [lookup_setEntry hw hd hp ht, same_entry_iff]

/-! The state `paging_init` leaves. -/

/-- Entry `i` of the first table. -/
def identityEntry (i : Nat) : U32 :=
  (BitVec.ofNat 32 i * pageSize) ||| pageFlagPresent ||| pageFlagRw ||| pageFlagUser

theorem pagingInit_eq (L : Layout) (pg : Paging) : pagingInit L pg =
    { tables := (((pg.tables.storeWords L.pageDirectory (fun _ => 0) pageEntries).storeWords
          (L.table 0) (fun _ => 0) pageEntries).storeWords (L.table 0) identityEntry
          pageEntries).write32 (entryAt L.pageDirectory 0)
            ((L.table 0 &&& pageFrameMask) ||| pageFlagPresent ||| pageFlagRw ||| pageFlagUser),
      pageTableUsed := fun k => if k = 0 then true else
        if k < pageTablePoolCount then false else pg.pageTableUsed k } := by
  have hne : L.table 0 ≠ nullptr := table_ne_null L (by decide)
  have hfind : (List.range pageTablePoolCount).find?
      (fun i => !(if i < pageTablePoolCount then false else pg.pageTableUsed i)) = some 0 := by
    rfl
  simp only [pagingInit, allocPageTable, hfind, if_neg hne]
  rfl

section Init

variable (L : Layout) (pg : Paging)

theorem read_pagingInit_directory (hd : d.toNat < 1024) :
    (pagingInit L pg).tables.read32 (entryAt L.pageDirectory d) = if d = 0 then
      (L.table 0 &&& pageFrameMask) ||| pageFlagPresent ||| pageFlagRw ||| pageFlagUser else 0 := by
  have h0 : 0 < 32 := by decide
  rw [pagingInit_eq]
  dsimp only
  rw [read_write_entry (directory_array L) (directory_array L) (by decide) hd,
    read_storeWords_entry (table_array L h0) (directory_array L) hd,
    read_storeWords_entry (table_array L h0) (directory_array L) hd,
    read_storeWords_entry (directory_array L) (directory_array L) hd,
    if_neg (table_ne_directory h0), if_neg (table_ne_directory h0), if_pos rfl]
  simp only [true_and, eq_comm]

theorem getPageTable_pagingInit (hd : d.toNat < 1024) :
    getPageTable L (pagingInit L pg) d = if d = 0 then L.table 0 else nullptr := by
  have h0 : 0 < 32 := by decide
  have hread := read_pagingInit_directory L pg hd
  split
  · rename_i hd0
    rw [if_pos hd0, BitVec.or_assoc, BitVec.or_assoc] at hread
    exact getPageTable_entry _ h0 (by decide) (by decide) hread
  · rename_i hd0
    rw [if_neg hd0] at hread
    simp [getPageTable, hread]

theorem pagingInit_present (hd : d.toNat < 1024) :
    getPageTable L (pagingInit L pg) d ≠ nullptr ↔ d = 0 := by
  rw [getPageTable_pagingInit L pg hd]
  split
  · rename_i hd0
    exact iff_of_true (table_ne_null L (by decide)) hd0
  · rename_i hd0
    exact iff_of_false (fun h => h rfl) hd0

theorem pagingInit_used {k : Nat} (hk : k < 32) :
    (pagingInit L pg).pageTableUsed k = true ↔ k = 0 := by
  rw [pagingInit_eq]
  have hk : k < pageTablePoolCount := hk
  by_cases h : k = 0 <;> simp [h, hk]

theorem lookup_pagingInit (w : U32) : lookup L (pagingInit L pg) w =
    if w.toNat < 2 ^ 22 then identityEntry (w.toNat / 4096) else 0 := by
  have h0 : 0 < 32 := by decide
  have hwd := dirIndexOf_lt w
  have hwt := tableIndexOf_lt w
  have hslot : dirIndexOf w = 0 ↔ w.toNat < 2 ^ 22 := by
    rw [← BitVec.toNat_inj, toNat_dirIndexOf]
    simp only [BitVec.ofNat_eq_ofNat, BitVec.toNat_ofNat, Nat.zero_mod]
    omega
  simp only [lookup, getPageTable_pagingInit L pg hwd, hslot]
  split
  · rename_i hlow
    rw [if_neg (table_ne_null L h0), pagingInit_eq]
    dsimp only
    rw [read_write_entry (directory_array L) (table_array L h0) (by decide) hwt,
      if_neg (fun h => table_ne_directory h0 h.1.symm),
      read_storeWords_entry (table_array L h0) (table_array L h0) hwt, if_pos rfl,
      toNat_tableIndexOf, Nat.mod_eq_of_lt (by omega)]
  · rw [if_pos rfl]

/-- One table is in use, it is the first slot's, and it maps the first 4 MB to themselves. -/
theorem pagingInit_wired : Wired L (pagingInit L pg) ∧
    (∀ d, d.toNat < 1024 → (getPageTable L (pagingInit L pg) d ≠ nullptr ↔ d = 0)) ∧
    ∀ w, lookup L (pagingInit L pg) w =
      if w.toNat < 2 ^ 22 then identityEntry (w.toNat / 4096) else 0 := by
  have h0 : 0 < 32 := by decide
  have hzero : (0 : U32).toNat < 1024 := by decide
  have hfirst : getPageTable L (pagingInit L pg) 0 = L.table 0 := by
    rw [getPageTable_pagingInit L pg hzero, if_pos rfl]
  refine ⟨⟨?_, ?_, ?_⟩, fun d hd => pagingInit_present L pg hd, lookup_pagingInit L pg⟩
  · intro d hd hne
    obtain rfl := (pagingInit_present L pg hd).mp hne
    exact ⟨0, h0, (pagingInit_used L pg h0).mpr rfl, hfirst⟩
  · intro d e hd he hne hsame
    rw [(pagingInit_present L pg hd).mp hne]
    exact ((pagingInit_present L pg he).mp (hsame ▸ hne)).symm
  · intro k hk huse
    obtain rfl := (pagingInit_used L pg hk).mp huse
    exact ⟨0, hzero, hfirst⟩

end Init

end Kernix.Proofs
