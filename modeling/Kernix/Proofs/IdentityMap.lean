import Mathlib.Data.Nat.Bitwise
import Kernix.Proofs.HeapGuarantees
import Kernix.Proofs.HeapMapping

namespace Kernix.Proofs
open Library Memory Memory.HeapBlock

variable {L : Layout} {s s' t : State} {d v w kernelEnd : U32} {i n : Nat} {es : List Event}

/-- The entry maps its page to itself, for writing too. -/
def Identity (w pte : U32) : Prop :=
  pte &&& pageFlagPresent ≠ 0 ∧ pte &&& pageFlagRw ≠ 0 ∧ pte &&& pageFrameMask = alignDown w pageSize

theorem writable_iff : v &&& pageFlagRw ≠ 0 ↔ v.toNat / 2 % 2 = 1 := by
  have h : (v &&& pageFlagRw).toNat = v.toNat &&& 2 ^ 1 := BitVec.toNat_and ..
  rw [← BitVec.toNat_inj.ne, h, Nat.and_two_pow, Nat.testBit_eq_decide_div_mod_eq]
  simp

/-- An entry made of a page and flags with the two low bits. -/
theorem identity_entry {flags : U32} (hf : flags.toNat < 4096) (hlow : flags.toNat % 4 = 3) :
    Identity w ((alignDown w pageSize &&& pageFrameMask) ||| flags) := by
  have hw := toNat_alignDown_page w
  obtain ⟨hframe, hsum⟩ := frame_or_flags (v := alignDown w pageSize) (by omega) hf
  refine ⟨present_iff.mpr ?_, writable_iff.mpr ?_, hframe⟩
  · omega
  · omega

theorem identity_pageEntry : Identity w (pageEntry (alignDown w pageSize) pageFlagRw) := by
  have hw := toNat_alignDown_page w
  have htwice : alignDown (alignDown w pageSize) pageSize = alignDown w pageSize := by
    apply BitVec.eq_of_toNat_eq
    rw [toNat_alignDown_page, hw]
    omega
  rw [pageEntry, htwice]
  exact identity_entry (by decide) (by decide)

theorem identity_identityEntry (hw : w.toNat < 2 ^ 22) :
    Identity w (identityEntry (w.toNat / 4096)) := by
  have hdown := toNat_alignDown_page w
  have hpage : BitVec.ofNat 32 (w.toNat / 4096) * pageSize = alignDown w pageSize &&& pageFrameMask := by
    apply BitVec.eq_of_toNat_eq
    rw [toNat_frame, hdown]
    unfold pageSize
    bv_omega
  rw [identityEntry, hpage, BitVec.or_assoc, BitVec.or_assoc]
  exact identity_entry (by decide) (by decide)

/-- The heap's pages and the first 4 MB are mapped to themselves, and no other page is mapped. -/
structure HeapMapped (L : Layout) (s : State) : Prop where
  wired : Wired L s.paging
  aligned : s.gHeapMappedEnd.toNat % 4096 = 0
  limit : s.gHeapMappedEnd.toNat ≤ 2 ^ 26
  phys : s.gNextFreePhys = s.gHeapMappedEnd
  slots : ∀ d, d.toNat < 1024 → getPageTable L s.paging d ≠ nullptr → d.toNat < 16
  below : ∀ w, w < s.gHeapMappedEnd → Identity w (lookup L s.paging w)
  above : ∀ w, s.gHeapMappedEnd ≤ w → lookup L s.paging w = 0

/-- As many tables are in use as directory slots at most. -/
theorem unusedTables_card {pg : Paging} {k : Nat} (hw : Wired L pg)
    (hslots : ∀ d, d.toNat < 1024 → getPageTable L pg d ≠ nullptr → d.toNat < k) :
    32 - k ≤ (unusedTables pg).card := by
  let slot (d : Nat) : Nat :=
    ((getPageTable L pg (BitVec.ofNat 32 d)).toNat - L.pageTablePool.toNat) / 4096
  have hcover : Finset.range 32 ⊆ unusedTables pg ∪ (Finset.range k).image slot := by
    intro i hi
    have hi := Finset.mem_range.mp hi
    cases hused : pg.pageTableUsed i with
    | false => exact Finset.mem_union_left _ (mem_unusedTables.mpr ⟨hi, hused⟩)
    | true =>
      obtain ⟨d, hd, htable⟩ := hw.used i hi hused
      have hlow := hslots d hd (htable ▸ table_ne_null L hi)
      refine Finset.mem_union_right _ (Finset.mem_image.mpr ⟨d.toNat, Finset.mem_range.mpr hlow, ?_⟩)
      simp only [slot, BitVec.ofNat_toNat, BitVec.setWidth_eq, htable, toNat_table L hi]
      omega
  have hcard := Finset.card_le_card hcover
  have himage := Finset.card_image_le (s := Finset.range k) (f := slot)
  have hunion := Finset.card_union_le (unusedTables pg) ((Finset.range k).image slot)
  simp only [Finset.card_range] at hcard himage
  omega

theorem newSlots_card {pg : Paging} {first k : Nat} (hend : first + n ≤ 1024 * k) :
    (newSlots L pg first n).card ≤ k := by
  have hsub : newSlots L pg first n ⊆ Finset.range k := by
    intro d hd
    obtain ⟨⟨j, hj, rfl⟩, -⟩ := mem_newSlots.mp hd
    exact Finset.mem_range.mpr (by omega)
  simpa using Finset.card_le_card hsub

theorem HeapMapped.poolSuffices (hm : HeapMapped L s) (n : Nat) : PoolSuffices L s n := by
  have hlimit := hm.limit
  have hnew : (newSlots L s.paging (s.gHeapMappedEnd.toNat / 4096) (pagesBelowLimit s n)).card ≤ 16 := by
    apply newSlots_card
    unfold pagesBelowLimit
    omega
  exact hnew.trans (unusedTables_card hm.wired hm.slots)

/-- What one request keeps. -/
theorem HeapMapped.serve {e : Event} (hm : HeapMapped L s)
    (h : Memory.serve L s e.1 = some (e.2, s')) : HeapMapped L s' := by
  have haligned := hm.aligned
  have hlimit := hm.limit
  have hg := serve_grown hm.wired haligned hlimit (hm.poolSuffices _) h
  have hend := hg.mappedEnd
  have hfit : pagesBelowLimit s (e.1.pages s) ≤ (2 ^ 26 - s.gHeapMappedEnd.toNat) / 4096 :=
    Nat.min_le_right ..
  have hup : s.gHeapMappedEnd ≤ s'.gHeapMappedEnd := by bv_omega
  refine ⟨hg.wired, by omega, by omega, ?_, ?_, ?_, ?_⟩
  · rw [hg.phys, hm.phys]
    bv_omega
  · intro d hd hne
    rcases (hg.slots d hd).mp hne with hold | ⟨k, hk, hslot⟩
    · exact hm.slots d hd hold
    · omega
  · intro w hw
    rw [hg.lookup]
    split
    · rw [hm.phys]
      have hsame : s.gHeapMappedEnd + (alignDown w pageSize - s.gHeapMappedEnd) =
          alignDown w pageSize := by bv_omega
      rw [hsame]
      exact identity_pageEntry
    · rename_i hout
      exact hm.below w (by bv_omega)
  · intro w hw
    rw [hg.lookup, if_neg (by bv_omega)]
    exact hm.above w (by bv_omega)

/-- There is room for a heap between the kernel's end and 4 MB. -/
def HeapFits (kernelEnd : U32) : Prop :=
  ¬ identityMapLimit ≤ alignUp kernelEnd allocAlign + headerSize + minSplitPayload

instance (kernelEnd : U32) : Decidable (HeapFits kernelEnd) := inferInstanceAs (Decidable (¬ _))

theorem heapFits_of_head {s : State} (hon : (kmallocInit kernelEnd s).gHeapHead ≠ nullptr) :
    HeapFits kernelEnd := by
  intro hfull
  unfold kmallocInit at hon
  exact hon (by rw [if_pos hfull])

theorem kmallocInit_mapped (L : Layout) (s : State) (hfits : HeapFits kernelEnd) :
    HeapMapped L (kmallocInit kernelEnd { s with paging := pagingInit L s.paging }) := by
  obtain ⟨hw, hslots, hlookup⟩ := pagingInit_wired L s.paging
  unfold kmallocInit
  dsimp only
  rw [if_neg hfits]
  have hend : identityMapLimit.toNat = 2 ^ 22 := rfl
  refine ⟨hw, ?_, ?_, by rfl, ?_, ?_, ?_⟩
  · change identityMapLimit.toNat % 4096 = 0
    omega
  · change identityMapLimit.toNat ≤ 2 ^ 26
    omega
  · intro d hd hne
    rw [(hslots d hd).mp hne]
    decide
  · intro w hlow
    have hlow : w.toNat < 2 ^ 22 := hlow
    rw [hlookup, if_pos hlow]
    exact identity_identityEntry hlow
  · intro w hhigh
    have hhigh : 2 ^ 22 ≤ w.toNat := hhigh
    rw [hlookup, if_neg (by omega)]

/-- Where only the heap maps pages, its pages are mapped to frames of their own after every run. -/
theorem heap_stays_mapped (L : Layout) (kernelEnd : U32) (s : State)
    (hon : (kmallocInit kernelEnd { s with paging := pagingInit L s.paging }).gHeapHead ≠ nullptr)
    (hrun : Run (HeapStep L) (kmallocInit kernelEnd { s with paging := pagingInit L s.paging }) es t) :
    t.gNextFreePhys = t.gHeapMappedEnd ∧ 16 ≤ (unusedTables t.paging).card ∧
      (∀ w, w < t.gHeapMappedEnd → Identity w (lookup L t.paging w)) ∧
      (∀ v w, v < t.gHeapMappedEnd → w < t.gHeapMappedEnd →
        lookup L t.paging v &&& pageFrameMask = lookup L t.paging w &&& pageFrameMask →
          alignDown v pageSize = alignDown w pageSize) ∧
      ∀ w, t.gHeapMappedEnd ≤ w → lookup L t.paging w &&& pageFlagPresent = 0 := by
  have hm : HeapMapped L t :=
    hrun.invariant (kmallocInit_mapped L s (heapFits_of_head hon)) fun _ _ _ hm hstep => hm.serve hstep
  refine ⟨hm.phys, unusedTables_card hm.wired hm.slots, hm.below, ?_,
    ?_⟩
  · intro v w hv hw hsame
    rwa [(hm.below v hv).2.2, (hm.below w hw).2.2] at hsame
  · intro w hw
    rw [hm.above w hw]
    exact BitVec.zero_and

/-- The requests of a run of clients. -/
theorem run_requests {ok : Client → Event → Prop} {c c' : Client}
    (hrun : Run (Guarded ok (Client.Step L)) c es c') : Run (HeapStep L) c.state es c'.state := by
  have hsteps : ∀ (d : Client) (e : Event) (d' : Client) (x : State), d.state = x →
      Guarded ok (Client.Step L) d e d' → ∃ y, HeapStep L x e y ∧ d'.state = y := by
    rintro d e d' x rfl ⟨-, -, y, hserve, rfl⟩
    exact ⟨y, hserve, rfl⟩
  obtain ⟨x, hx, rfl⟩ := hrun.simulate (R := fun d x => d.state = x) rfl hsteps
  exact hx

/-- A page that the heap has grown by, behind the first 4 MB. -/
theorem heap_stays_mapped_boot :
    Identity 0x400FFF (lookup bootLayout servedClient.state.paging 0x400FFF) := by
  have hmapped := heap_stays_mapped bootLayout 0x123456 resetState (by decide)
    (run_requests servedClient_run)
  refine hmapped.2.2.1 0x400FFF ?_
  rw [servedClient_end]
  decide

end Kernix.Proofs
