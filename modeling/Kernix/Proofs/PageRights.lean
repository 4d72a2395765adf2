import Kernix.Proofs.FlatMap
import Kernix.Proofs.PoolExhaustion

namespace Kernix.Proofs
open Library Memory

variable {L : Layout} {pg : Paging} {d t v w : U32} {i : Nat}

/-- The rights a directory entry carries: `paging_init` opens the first one to all rings, and
`get_or_create_page_table` the others to the kernel alone. -/
def slotRights (d : U32) : U32 := if d = 0 then pageFlagRw ||| pageFlagUser else pageFlagRw

def directoryRights (L : Layout) (pg : Paging) (d : U32) : U32 :=
  pg.tables.read32 (entryAt L.pageDirectory d) &&& (pageFlagRw ||| pageFlagUser)

/-- Every table hangs from a directory entry with the rights of its slot. -/
structure Granted (L : Layout) (pg : Paging) : Prop where
  walked : Walked L pg
  first : getPageTable L pg 0 ≠ nullptr
  rights : ∀ d, d.toNat < 1024 → getPageTable L pg d ≠ nullptr →
    directoryRights L pg d = slotRights d

/-- A frame has no flag bits. -/
theorem frame_and_rights (v : U32) : v &&& pageFrameMask &&& (pageFlagRw ||| pageFlagUser) = 0 := by
  rw [BitVec.and_assoc]
  exact BitVec.and_zero

theorem and_or_rights (a b c : U32) : (a ||| b) &&& c = (a &&& c) ||| (b &&& c) := by
  apply BitVec.eq_of_getLsbD_eq
  intro i _
  simp only [BitVec.getLsbD_and, BitVec.getLsbD_or, Bool.and_or_distrib_right]

theorem pageEntry_rights (phys flags : U32) :
    pageEntry phys flags &&& (pageFlagRw ||| pageFlagUser) =
      flags &&& (pageFlagRw ||| pageFlagUser) := by
  have hmask : pageFlagMask &&& (pageFlagRw ||| pageFlagUser) = pageFlagRw ||| pageFlagUser := rfl
  have hpresent : pageFlagPresent &&& (pageFlagRw ||| pageFlagUser) = 0 := rfl
  rw [pageEntry, and_or_rights, and_or_rights, frame_and_rights, hpresent, BitVec.and_assoc, hmask]
  simp

theorem pagingInit_granted (L : Layout) (pg : Paging) : Granted L (pagingInit L pg) := by
  refine ⟨pagingInit_walked L pg, ?_, ?_⟩
  · exact (pagingInit_present L pg (by decide)).mpr rfl
  · intro d hd hp
    have hd0 := (pagingInit_present L pg hd).mp hp
    rw [directoryRights, read_pagingInit_directory L pg hd, if_pos hd0, slotRights, if_pos hd0,
      BitVec.or_assoc, BitVec.or_assoc, and_or_rights, frame_and_rights]
    rfl

theorem Granted.setEntry (h : Granted L pg) (hd : d.toNat < 1024)
    (hp : getPageTable L pg d ≠ nullptr) (ht : t.toNat < 1024) (v : U32) :
    Granted L (setEntry pg (getPageTable L pg d) t v) := by
  have hw := h.walked.wired
  refine ⟨h.walked.setEntry hd hp ht v, ?_, ?_⟩
  · rw [getPageTable_setEntry hw hd hp ht v (by decide)]
    exact h.first
  · intro e he hpe
    rw [getPageTable_setEntry hw hd hp ht v he] at hpe
    rw [directoryRights, read_setEntry_directory hw hd hp ht v he]
    exact h.rights e he hpe

/-- A new table never hangs from the first slot, which has one. -/
theorem Granted.withTable (h : Granted L pg) (hi : i < 32) (hd : d.toNat < 1024)
    (hp : getPageTable L pg d = nullptr) (hfree : pg.pageTableUsed i = false) :
    Granted L (withTable L pg d i) := by
  have hd0 : d ≠ 0 := by
    intro hd0
    exact h.first (hd0 ▸ hp)
  refine ⟨h.walked.withTable hi hd hp hfree, ?_, ?_⟩
  · rw [getPageTable_withTable hi hd (by decide), if_neg hd0.symm]
    exact h.first
  · intro e he hpe
    rw [getPageTable_withTable hi hd he] at hpe
    rw [directoryRights, read_withTable_directory hi hd L pg he]
    split
    · rename_i hde
      rw [slotRights, if_neg (hde ▸ hd0), BitVec.or_assoc, and_or_rights, frame_and_rights]
      rfl
    · rename_i hde
      rw [if_neg (Ne.symm hde)] at hpe
      exact h.rights e he hpe

theorem granted_kept (L : Layout) : KeptByCalls L (Granted L) :=
  ⟨fun h hd hp ht v => h.setEntry hd hp ht v, fun h hi hd hp hfree => h.withTable hi hd hp hfree⟩

/-- After `map_page` the table entry has the flags asked for, and its table exists. -/
theorem mapPage_entry (phys flags : U32) (hw : Wired L pg) (hcan : CanMap L pg v) :
    lookup L (mapPage L pg v phys flags) v = pageEntry phys flags ∧
      getPageTable L (mapPage L pg v phys flags) (dirIndexOf v) ≠ nullptr := by
  have hlookup := (mapPage_maps phys flags hw hcan).2 v
  rw [if_pos rfl] at hlookup
  refine ⟨hlookup, ?_⟩
  intro hp
  rw [lookup, if_pos hp] at hlookup
  have hpresent := present_pageEntry phys flags
  rw [← hlookup] at hpresent
  exact hpresent rfl

/-- The rights a page gets are the ones asked for that its directory slot allows. -/
theorem Granted.pageRights (h : Granted L pg) (hcan : CanMap L pg v) (phys flags : U32) :
    pageRights L (Memory.mapPage L pg v phys flags) v = flags &&& slotRights (dirIndexOf v) := by
  obtain ⟨hlookup, hp⟩ := mapPage_entry phys flags h.walked.wired hcan
  have hdir := ((granted_kept L).mapPage h v phys flags).rights _ (dirIndexOf_lt v) hp
  have hslot : ∀ d, slotRights d &&& (pageFlagRw ||| pageFlagUser) = slotRights d := by
    intro d
    unfold slotRights
    split
    · rfl
    · rfl
  calc Memory.pageRights L (Memory.mapPage L pg v phys flags) v
      = directoryRights L (Memory.mapPage L pg v phys flags) (dirIndexOf v) &&&
          pageEntry phys flags := by
        rw [Memory.pageRights, hlookup, directoryRights, BitVec.and_assoc, BitVec.and_assoc,
          BitVec.and_comm (pageEntry phys flags)]
    _ = slotRights (dirIndexOf v) &&& (pageEntry phys flags &&& (pageFlagRw ||| pageFlagUser)) := by
        rw [hdir, BitVec.and_comm (pageEntry phys flags), ← BitVec.and_assoc, hslot]
    _ = flags &&& slotRights (dirIndexOf v) := by
        rw [pageEntry_rights, BitVec.and_comm flags, ← BitVec.and_assoc, hslot, BitVec.and_comm]

/-- The slot allows what is asked for, unless that is user access outside the first slot. -/
theorem slotRights_enough (d flags : U32) :
    flags &&& slotRights d = flags &&& (pageFlagRw ||| pageFlagUser) ↔
      d = 0 ∨ flags &&& pageFlagUser = 0 := by
  unfold slotRights
  split
  · rename_i hd
    exact iff_of_true rfl (.inl hd)
  · rename_i hd
    rw [or_iff_right hd, BitVec.and_comm flags (_ ||| _), and_or_rights,
      BitVec.and_comm pageFlagRw flags, BitVec.and_comm pageFlagUser flags]
    constructor
    · intro h
      have huser := congrArg (· &&& pageFlagUser) h
      have hapart : pageFlagRw &&& pageFlagUser = 0 := rfl
      simpa [and_or_rights, BitVec.and_assoc, hapart] using huser.symm
    · intro h
      rw [h]
      simp

/-- After any calls, a page `map_page` installs has the rights asked for, unless it is a user page
of a slot `paging_init` did not open. -/
theorem mapped_rights (L : Layout) (pg : Paging) (calls : List PagingCall) (virt phys flags : U32) :
    let t := calls.foldl (callPaging L) (pagingInit L pg)
    SlotPresent L t virt ∨ (∃ i < pageTablePoolCount, t.pageTableUsed i = false) →
      (pageRights L (mapPage L t virt phys flags) virt = flags &&& (pageFlagRw ||| pageFlagUser) ↔
        dirIndexOf virt = 0 ∨ flags &&& pageFlagUser = 0) := by
  intro t hcan
  have ht : Granted L t := (granted_kept L).calls (pagingInit_granted L pg) calls
  rw [ht.walked.slotPresent_iff] at hcan
  rw [ht.pageRights hcan, slotRights_enough]

/-- The first page of the second slot, mapped for the user right after `paging_init`, is the
kernel's alone. -/
theorem mapped_rights_second_slot :
    pageRights bootLayout (mapPage bootLayout (pagingInit bootLayout resetState.paging) 0x400000
      0x400000 (pageFlagRw ||| pageFlagUser)) 0x400000 ≠
        (pageFlagRw ||| pageFlagUser) &&& (pageFlagRw ||| pageFlagUser) := by
  have hroom : CanMap bootLayout (pagingInit bootLayout resetState.paging) 0x400000 :=
    .inr ⟨1, by decide, by rw [pagingInit_eq]; rfl⟩
  rw [(pagingInit_granted _ _).pageRights hroom]
  decide

theorem mapped_rights_first_slot :
    pageRights bootLayout (mapPage bootLayout (pagingInit bootLayout resetState.paging) 0x1000
      0x1000 pageFlagUser) 0x1000 = pageFlagUser &&& (pageFlagRw ||| pageFlagUser) := by
  have hroom : ∃ i < pageTablePoolCount,
      (pagingInit bootLayout resetState.paging).pageTableUsed i = false :=
    ⟨1, by decide, by rw [pagingInit_eq]; rfl⟩
  exact (mapped_rights bootLayout resetState.paging [] 0x1000 0x1000 pageFlagUser
    (.inr hroom)).mpr (.inl (by decide))

end Kernix.Proofs
