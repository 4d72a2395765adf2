import Kernix.Proofs.IdentityMap

namespace Kernix.Proofs
open Library Memory Memory.HeapBlock

variable {L : Layout} {pg : Paging} {s s' t : State} {d v w kernelEnd : U32} {n : Nat}
  {es : List SystemEvent}

/-- Every page from the heap's start to the end of its mapped pages is present. -/
def HeapPresent (L : Layout) (s : State) : Prop :=
  ∀ w, alignDown s.gHeapStart pageSize ≤ w → w < s.gHeapMappedEnd →
    lookup L s.paging w &&& pageFlagPresent ≠ 0

theorem present_pageEntry (phys flags : U32) : pageEntry phys flags &&& pageFlagPresent ≠ 0 := by
  have hbit : (pageEntry phys flags).toNat.testBit 0 = true := by
    rw [pageEntry, BitVec.toNat_or, BitVec.toNat_or, Nat.testBit_or, Nat.testBit_or,
      show pageFlagPresent.toNat.testBit 0 = true from rfl, Bool.or_true, Bool.or_true]
  rw [present_iff]
  simpa [Nat.testBit_zero] using hbit

/-- `HeapPresent`, with what keeps it. -/
structure HeapCovered (L : Layout) (s : State) : Prop where
  wired : Wired L s.paging
  aligned : s.gHeapMappedEnd.toNat % 4096 = 0
  limit : s.gHeapMappedEnd.toNat ≤ 2 ^ 26
  present : HeapPresent L s

/-- A request the pool suffices for maps all the pages it counts. -/
theorem HeapCovered.serve {e : Event} (hc : HeapCovered L s) (hroom : PoolSuffices L s (e.1.pages s))
    (h : HeapStep L s e s') : HeapCovered L s' := by
  have haligned := hc.aligned
  have hlimit := hc.limit
  have hg := serve_grown hc.wired haligned hlimit hroom h
  have hend := hg.mappedEnd
  have hfit : pagesBelowLimit s (e.1.pages s) ≤ (2 ^ 26 - s.gHeapMappedEnd.toNat) / 4096 :=
    Nat.min_le_right ..
  refine ⟨hg.wired, by omega, by omega, ?_⟩
  intro w hlow hw
  rw [hg.lookup]
  split
  · exact present_pageEntry _ _
  · rename_i hout
    rw [hg.start] at hlow
    exact hc.present w hlow (by bv_omega)

/-- An entry that other code sets or clears is of no page of the heap. -/
theorem HeapCovered.elsewhere (hc : HeapCovered L s) (hv : heapVirtLimit ≤ v) (hw : Wired L pg)
    {pte : U32} (hlookup : ∀ w, lookup L pg w =
      if v.toNat / 4096 = w.toNat / 4096 then pte else lookup L s.paging w) :
    HeapCovered L { s with paging := pg } := by
  have hv : 2 ^ 26 ≤ v.toNat := hv
  have hlimit := hc.limit
  refine ⟨hw, hc.aligned, hc.limit, ?_⟩
  intro w hlow hhigh
  have hhigh : w.toNat < s.gHeapMappedEnd.toNat := hhigh
  change lookup L pg w &&& pageFlagPresent ≠ 0
  rw [hlookup, if_neg (by omega)]
  exact hc.present w hlow hhigh

theorem HeapCovered.step {e : SystemEvent} (hc : HeapCovered L s) (hroom : e.PoolSuffices L s)
    (h : SystemStep L s e s') : HeapCovered L s' := by
  cases e with
  | heap e => exact hc.serve hroom h
  | mapPage virt phys flags =>
    obtain ⟨hvirt, rfl⟩ := h
    by_cases hcan : CanMap L s.paging virt
    · obtain ⟨hw, hlookup⟩ := mapPage_maps phys flags hc.wired hcan
      exact hc.elsewhere hvirt hw hlookup
    · rw [mapPage_full phys flags hcan]
      exact hc
  | unmapPage virt =>
    obtain ⟨hvirt, rfl⟩ := h
    obtain ⟨hw, -, -, hlookup⟩ := unmapPage_unmaps hc.wired virt
    exact hc.elsewhere hvirt hw hlookup

theorem kmallocInit_covered (L : Layout) (kernelEnd : U32) (s : State) :
    HeapCovered L (kmallocInit kernelEnd { s with paging := pagingInit L s.paging }) := by
  by_cases hfits : HeapFits kernelEnd
  · have hm := kmallocInit_mapped L s hfits
    exact ⟨hm.wired, hm.aligned, hm.limit, fun w _ hw => (hm.below w hw).1⟩
  · have hw := (pagingInit_wired L s.paging).1
    unfold kmallocInit
    dsimp only
    rw [if_pos (not_not.mp hfits)]
    exact ⟨hw, rfl, by simp, fun w _ hw => absurd hw (by simp)⟩

/-- In every run whose requests the pool of page tables suffices for, the heap is present. -/
theorem heap_present_while_pool_suffices (L : Layout) (kernelEnd : U32) (s : State)
    (hrun : Run (Guarded (fun s e => e.PoolSuffices L s) (SystemStep L))
      (kmallocInit kernelEnd { s with paging := pagingInit L s.paging }) es t) : HeapPresent L t := by
  have hc : HeapCovered L t := hrun.invariant (kmallocInit_covered L kernelEnd s)
    fun _ _ _ hc hstep => hc.step hstep.1 hstep.2
  exact hc.present

/-- While only the heap maps pages, the pool suffices for each of its requests. -/
theorem HeapMapped.run {es : List Event} (hm : HeapMapped L s) (hrun : Run (HeapStep L) s es t) :
    HeapMapped L t ∧
      Run (Guarded (fun s e => e.PoolSuffices L s) (SystemStep L)) s (es.map .heap) t := by
  induction hrun with
  | nil => exact ⟨hm, .nil⟩
  | snoc _ hstep ih =>
    obtain ⟨hmapped, hrun⟩ := ih
    rw [List.map_append]
    exact ⟨hmapped.serve hstep, hrun.snoc ⟨hmapped.poolSuffices _, hstep⟩⟩

theorem heap_present_boot : HeapPresent bootLayout servedClient.state := by
  have hboot : HeapMapped bootLayout bootState := kmallocInit_mapped bootLayout resetState (by decide)
  exact heap_present_while_pool_suffices bootLayout 0x123456 resetState
    (hboot.run (run_requests servedClient_run)).2

/-! Other code takes every table of the pool. -/

/-- The first page of directory slot `16 + n`, which is no heap page. -/
def slotPage (n : Nat) : U32 := heapVirtLimit + BitVec.ofNat 32 (2 ^ 22 * n)

/-- `pg` after pages in `n` slots above the heap's were mapped. -/
def crowd (L : Layout) (pg : Paging) : Nat → Paging
  | 0 => pg
  | n + 1 => mapPage L (crowd L pg n) (slotPage n) 0 pageFlagRw

theorem toNat_slotPage (hn : n < 31) : (slotPage n).toNat = 2 ^ 26 + 2 ^ 22 * n := by
  unfold slotPage heapVirtLimit
  bv_omega

theorem crowd_run (L : Layout) (s : State) (hn : n ≤ 31) :
    Run (SystemStep L) s ((List.range n).map fun k => .mapPage (slotPage k) 0 pageFlagRw)
      { s with paging := crowd L s.paging n } := by
  induction n with
  | zero => exact .nil
  | succ n ih =>
    rw [List.range_succ, List.map_append]
    refine (ih (by omega)).snoc ⟨?_, rfl⟩
    have hslot := toNat_slotPage (n := n) (by omega)
    change (2 ^ 26 ≤ (slotPage n).toNat)
    omega

/-- The directory has a table for slot 0 and for `n` slots above the heap's, and the rest of
the pool is unused. -/
structure Crowded (L : Layout) (pg : Paging) (n : Nat) : Prop where
  wired : Wired L pg
  slots : ∀ d, d.toNat < 1024 →
    (getPageTable L pg d ≠ nullptr ↔ d = 0 ∨ 16 ≤ d.toNat ∧ d.toNat < 16 + n)
  unused : (unusedTables pg).card + n = 31

theorem pagingInit_crowded (L : Layout) (pg : Paging) : Crowded L (pagingInit L pg) 0 := by
  obtain ⟨hw, hslots, -⟩ := pagingInit_wired L pg
  refine ⟨hw, ?_, ?_⟩
  · intro d hd
    rw [hslots d hd]
    exact (or_iff_left (by omega)).symm
  · have hunused : unusedTables (pagingInit L pg) = (Finset.range 32).erase 0 := by
      ext i
      rw [mem_unusedTables, Finset.mem_erase, Finset.mem_range, pagingInit_eq, and_comm]
      apply and_congr_left
      intro hi
      have hi : i < pageTablePoolCount := hi
      by_cases h : i = 0 <;> simp [h, hi]
    rw [hunused]
    rfl

theorem Crowded.map {phys flags : U32} (hc : Crowded L pg n) (hn : n < 31) :
    Crowded L (mapPage L pg (slotPage n) phys flags) (n + 1) := by
  have hslot : (dirIndexOf (slotPage n)).toNat = 16 + n := by
    rw [toNat_dirIndexOf, toNat_slotPage hn]
    omega
  have hd := dirIndexOf_lt (slotPage n)
  have hnew : getPageTable L pg (dirIndexOf (slotPage n)) = nullptr := by
    by_contra hne
    rcases (hc.slots _ hd).mp hne with hzero | ⟨-, hlt⟩
    · rw [hzero] at hslot
      simp at hslot
      omega
    · omega
  have hcard := hc.unused
  have hunused : (unusedTables pg).Nonempty := Finset.card_pos.mp (by omega)
  obtain ⟨hslots, hleft⟩ := mapPage_newTable phys flags hc.wired hnew hunused
  obtain ⟨j, hj⟩ := hunused
  have hcan : CanMap L pg (slotPage n) := .inr ⟨j, mem_unusedTables.mp hj⟩
  have hwired := (mapPage_maps phys flags hc.wired hcan).1
  refine ⟨hwired, ?_, by omega⟩
  intro d hd
  rw [hslots d hd, hc.slots d hd, or_assoc, ← BitVec.toNat_inj (y := dirIndexOf _), hslot]
  exact or_congr_right ⟨by omega, by omega⟩

theorem crowd_crowded (L : Layout) (pg : Paging) (hn : n ≤ 31) :
    Crowded L (crowd L (pagingInit L pg) n) n := by
  induction n with
  | zero => exact pagingInit_crowded L pg
  | succ n ih => exact (ih (by omega)).map (by omega)

/-- With the pool used up the growth of the heap maps nothing, and counts its pages all the same. -/
theorem Crowded.grow (hc : Crowded L s.paging 31) (hlow : 2 ^ 22 ≤ s.gHeapMappedEnd.toNat)
    (hend : s.gHeapMappedEnd.toNat + 4096 * n ≤ 2 ^ 26) :
    (growPages L n s).paging = s.paging := by
  induction n generalizing s with
  | zero => rfl
  | succ n ih =>
    have hno : ¬ CanMap L s.paging s.gHeapMappedEnd := by
      rintro (hne | ⟨i, hi, hfree⟩)
      · have hslot := toNat_dirIndexOf s.gHeapMappedEnd
        rcases (hc.slots _ (dirIndexOf_lt _)).mp hne with hzero | ⟨hge, -⟩
        · rw [hzero] at hslot
          simp at hslot
          omega
        · omega
      · have hpos := Finset.card_pos.mpr ⟨i, mem_unusedTables.mpr ⟨hi, hfree⟩⟩
        have := hc.unused
        omega
    have hkeep : (mapNext L s).paging = s.paging := mapPage_full s.gNextFreePhys pageFlagRw hno
    have hbelow : s.gHeapMappedEnd.toNat < 2 ^ 26 := by
      clear hlow
      omega
    have hnext := mapNext_end L hbelow
    have hlow' : 2 ^ 22 ≤ (mapNext L s).gHeapMappedEnd.toNat :=
      hnext ▸ Nat.le_trans hlow (Nat.le_add_right _ 4096)
    have hend' : (mapNext L s).gHeapMappedEnd.toNat + 4096 * n ≤ 2 ^ 26 := by
      clear hlow hlow'
      omega
    calc (growPages L (n + 1) s).paging = (growPages L n (mapNext L s)).paging := rfl
      _ = (mapNext L s).paging := ih (hkeep ▸ hc) hlow' hend'
      _ = s.paging := hkeep

theorem Crowded.lookup_zero (hc : Crowded L pg n) (hd : (dirIndexOf w).toNat ≠ 0)
    (hlow : (dirIndexOf w).toNat < 16) : lookup L pg w = 0 := by
  have hnull : getPageTable L pg (dirIndexOf w) = nullptr := by
    by_contra hne
    rcases (hc.slots _ (dirIndexOf_lt w)).mp hne with hzero | ⟨hge, -⟩
    · exact hd (by rw [hzero]; rfl)
    · omega
  simp only [lookup, hnull, if_true]

theorem Holds.withPaging {h : Heap} (hs : Holds s h) (pg : Paging) :
    Holds { s with paging := pg } h := by
  have hrep := hs.rep.remap pg s.gNextFreePhys (Nat.le_refl _) hs.rep.limit hs.rep.page
  exact ⟨hrep, hs.mappedEnd⟩

/-- On a heap just initialised a block is handed out that goes on past 4 MB, with no page there. It is
all of the heap, so no header is written there either. -/
theorem Crowded.unmapped_block (hc : Crowded L s.paging 31) (hs : Holds s (initialHeap 0x123456)) :
    ∃ m ph me, kmalloc L s 0x2DDB90 = some (0x123470,
        { s with mem := m, gNextFreePhys := ph, gHeapMappedEnd := me }) ∧
      me.toNat = 0x401000 := by
  have hg := growsSoundly_of_noWrap hs.rep (by decide : (0x2DDB90 : U32) ≠ 0)
    (noWrap_of_small (by decide))
  obtain ⟨m, pg, ph, me, hserve, hend, -⟩ := kmalloc_malloc L hs (by decide) (by decide) hg
  have hq : (malloc (alignUp 0x2DDB90 allocAlign) (initialHeap 0x123456)).1 = 0x123470 := by decide
  have hme : (malloc (alignUp 0x2DDB90 allocAlign) (initialHeap 0x123456)).2.mappedEnd = 0x401000 := by
    decide
  have hstart : s.gHeapMappedEnd.toNat = 0x400000 := hs.mappedEnd
  rw [hq] at hserve
  have hpaging : pg = s.paging := by
    obtain ⟨m', hm'⟩ := serve_grows (e := (.kmalloc 0x2DDB90, 0x123470)) hserve
    rw [extendLoop_growPages L _ s (by omega) (by omega)] at hm'
    refine (congrArg State.paging hm').trans (hc.grow (by omega) ?_)
    unfold pagesBelowLimit
    omega
  subst hpaging
  exact ⟨m, ph, me, hserve, hend.mappedEnd.trans hme⟩

/-- 31 calls of `map_page` use the pool up, and the heap then hands out what is not mapped. -/
theorem unmapped_block_handed_out :
    ∃ es t q t', Run (SystemStep bootLayout) bootState es t ∧
      SystemStep bootLayout t (.heap (.kmalloc 0x2DDB90, q)) t' ∧ q ≠ nullptr ∧
      ¬ HeapPresent bootLayout t' ∧
      ∃ w, q ≤ w ∧ w < q + 0x2DDB90 ∧ lookup bootLayout t'.paging w &&& pageFlagPresent = 0 := by
  have hcrowd : Crowded bootLayout (crowd bootLayout bootState.paging 31) 31 :=
    crowd_crowded bootLayout resetState.paging (Nat.le_refl 31)
  have hboot : Holds bootState (initialHeap 0x123456) :=
    kmallocInit_holds blankState (by decide) (by decide)
  have hrun := crowd_run bootLayout bootState (Nat.le_refl 31)
  have hstart : alignDown bootState.gHeapStart pageSize ≤ 0x400000 := by decide
  generalize crowd bootLayout bootState.paging 31 = pg at hcrowd hrun
  generalize bootState = boot at *
  obtain ⟨m, ph, me, hserve, hend⟩ :=
    Crowded.unmapped_block (s := { boot with paging := pg }) hcrowd (hboot.withPaging pg)
  have habsent : lookup bootLayout pg 0x400000 = 0 := hcrowd.lookup_zero (by decide) (by decide)
  refine ⟨_, _, _, _, hrun, hserve, by decide, ?_, 0x400000, by decide, by decide, ?_⟩
  · intro hpresent
    have hbelow : (0x400000 : U32) < me := by bv_omega
    exact hpresent 0x400000 hstart hbelow (by rw [habsent]; decide)
  · rw [habsent]
    decide

end Kernix.Proofs
