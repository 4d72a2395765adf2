import Kernix.Proofs.GrowthFits

namespace Kernix.Proofs
open Library Memory Memory.HeapBlock Memory.Client

variable {L : Layout} {c : Client} {s s' : State} {h : Heap} {b t : Block} {pre : List Block}
  {q r size : U32}

/-- After a growth by the pages asked for, the last block fits, unless the request and a header
wrap. -/
theorem allocate_grown {n : Nat} (ha : allocate r (pre ++ [t]) = none) (hr : r.toNat ≤ 0xFFFFFFF8)
    (hr8 : r.toNat % 8 = 0) (ht : t.size.toNat ≤ 2 ^ 26) (hn : n = pagesFor r t) (hpos : 0 < n)
    (hle : t.size.toNat + 4096 * n ≤ 2 ^ 26) :
    allocate r (enlarge (BitVec.ofNat 32 (4096 * n)) (pre ++ [t])) = none ↔
      t.free = false ∧ 2 ^ 32 ≤ r.toNat + 24 := by
  have hno := allocate_eq_none.mp ha
  have hpre : ∀ d ∈ pre, fits r d = false := fun d hd => hno d (by simp [hd])
  have htno := fits_eq_false.mp (hno t (by simp))
  rw [allocate_eq_none, enlarge_append]
  simp only [List.mem_append, or_imp, forall_and]
  rw [and_iff_right hpre]
  have hadd : (BitVec.ofNat 32 (4096 * n)).toNat = 4096 * n := by
    rw [BitVec.toNat_ofNat]
    omega
  cases hf : t.free with
  | true =>
    simp only [hf, Bool.true_eq_false, false_or] at htno
    simp only [pagesFor, hf, if_true] at hn
    have hsize : (t.size + BitVec.ofNat 32 (4096 * n)).toNat = t.size.toNat + 4096 * n := by bv_omega
    simp only [enlarge_free hf, List.mem_singleton, forall_eq, fits_eq_false, hsize, hf,
      Bool.true_eq_false, false_or, false_and, iff_false, Nat.not_lt]
    bv_omega
  | false =>
    simp only [pagesFor, hf, Bool.false_eq_true, if_false] at hn
    have hsize : (BitVec.ofNat 32 (4096 * n) - 24).toNat = 4096 * n - 24 := by bv_omega
    simp only [enlarge_used hf, List.mem_cons, List.not_mem_nil, or_false, forall_eq_or_imp,
      forall_eq, fits_eq_false, hsize, hf, true_or, true_and, Bool.true_eq_false, false_or]
    bv_omega

/-- Where no page is added, or none is left to add, a `kmalloc` that fails changes nothing. -/
theorem kmalloc_refused (hs : Rep s (pre ++ [t])) (hsize : size ≠ 0)
    (ha : allocate (alignUp size allocAlign) (pre ++ [t]) = none)
    (hstop : (pagesFor (alignUp size allocAlign) t = 0 ∧ t.free = true) ∨
      (0 < pagesFor (alignUp size allocAlign) t ∧ 2 ^ 26 ≤ s.gHeapMappedEnd.toNat)) :
    kmalloc L s size = some (nullptr, s) := by
  have hstart : ¬ (size = 0 ∨ s.gHeapHead = nullptr) := not_or.mpr ⟨hsize, hs.head_ne⟩
  have hfind : findFreeBlock s (alignUp size allocAlign) = some nullptr :=
    findFreeBlock_none (h := ⟨pre ++ [t], s.gHeapMappedEnd.toNat⟩) ⟨hs, rfl⟩ ha
  have hno := allocate_eq_none.mp ha t (by simp)
  have hext := extendHeapToFit_eq L hs hno
  rcases hstop with ⟨hpages, hfree⟩ | ⟨hpos, hfull⟩
  · have hload : (load s.mem t.addr).free = 1 := by
      rw [(linked_zipper.mp hs.linked).2.1, header, hfree, flag_true]
    have hsame : growTail s.mem t.addr (BitVec.ofNat 32 (4096 * 0)) = s.mem := by
      rw [growTail, hload, if_pos (by decide), Nat.mul_zero, BitVec.add_zero]
      exact Mem.write32_read32 s.mem (t.addr + 4)
    rw [hpages, extendLoop] at hext
    dsimp only at hext
    rw [hsame] at hext
    exact kmalloc_short hstart hfind hext hfind
  · rw [extendLoop_full L hfull hpos] at hext
    exact kmalloc_limit hstart hfind hext

/-- `GrowsWhole` where no block fits, in the numbers of the last block. -/
theorem growsWhole_iff (hs : Rep s (pre ++ [t])) (hsize : size ≠ 0)
    (ha : allocate (alignUp size allocAlign) (pre ++ [t]) = none) :
    GrowsWhole s size ↔ s.gHeapMappedEnd.toNat = 2 ^ 26 ∨
      pagesFor (alignUp size allocAlign) t = 0 ∨
      s.gHeapMappedEnd.toNat + 4096 * pagesFor (alignUp size allocAlign) t ≤ 2 ^ 26 ∧
        (t.free = false → (alignUp size allocAlign).toNat + 24 < 2 ^ 32) := by
  have hfind : findFreeBlock s (alignUp size allocAlign) = some nullptr :=
    findFreeBlock_none (h := ⟨pre ++ [t], s.gHeapMappedEnd.toNat⟩) ⟨hs, rfl⟩ ha
  have hpages : (pagesNeeded (load s.mem t.addr) (alignUp size allocAlign)).toNat =
      pagesFor (alignUp size allocAlign) t := by
    rw [(linked_zipper.mp hs.linked).2.1, toNat_pagesNeeded]
  have hend : s.gHeapMappedEnd = heapVirtLimit ↔ s.gHeapMappedEnd.toNat = 2 ^ 26 := by
    rw [← BitVec.toNat_inj]
    rfl
  have htail : tailUsed s = true ↔ t.free = false := by
    rw [hs.tailUsed, Bool.not_eq_true']
  simp only [GrowsWhole, hsize, hfind, hs.lastBlock, Option.some.injEq, forall_eq', hpages, hend,
    htail, ne_eq, not_true_eq_false, false_or]
  rfl

theorem allocate_ne_null {lo : Nat} {bs bs' : List Block} (ha : allocate r bs = some (q, bs'))
    (hp : Placed lo bs') : q ≠ nullptr := by
  obtain ⟨pre, b, post, -, -, -, rfl, rfl⟩ := allocate_eq_some.mp ha
  obtain ⟨d, ds, -, haddr, hcarve⟩ := cut_head r b
  have := hp.payload_ne (b := { d with free := false }) (by simp [hcarve])
  rwa [Block.payload, haddr] at this

theorem find?_fits_none {bs : List Block} :
    bs.find? (fits r) = none ↔ ∀ b ∈ bs, fits r b = false := by
  simp only [List.find?_eq_none, Bool.not_eq_true]

/-- A block that fits is handed out, whatever the size. -/
theorem kmalloc_first {bs : List Block} (hs : Rep s bs) (hsize : size ≠ 0)
    (hfind : bs.find? (fits (alignUp size allocAlign)) = some b)
    (hrun : kmalloc L s size = some (q, s')) : q ≠ nullptr ∧ GrowsWhole s size := by
  have hmem := List.mem_of_find?_eq_some hfind
  have hblock : findFreeBlock s (alignUp size allocAlign) = some b.addr := by
    rw [hs.findFreeBlock, hfind]
    rfl
  have hne := hs.placed.addr_ne hmem
  have hout := kmalloc_handsOut (L := L) (not_or.mpr ⟨hsize, hs.head_ne⟩) hblock hne
  rw [hrun] at hout
  have hq : q = blockPayload b.addr := (Prod.mk.inj (Option.some.inj hout)).1
  refine ⟨fun hnull => ?_, .inr (.inl ?_)⟩
  · rw [hq, blockPayload_addr] at hnull
    exact hs.placed.payload_ne hmem hnull
  · rw [hblock]
    exact fun he => hne (Option.some.inj he)

/-- Where pages are added, `malloc` fails if they pass the limit or the request and a header
wrap, and the end of the heap moves all the same. -/
theorem malloc_grown {lo : Nat} (ha : allocate r h.blocks = none) (hblocks : h.blocks = pre ++ [t])
    (hr : r.toNat ≤ 0xFFFFFFF8) (hr8 : r.toNat % 8 = 0) (ht : t.size.toNat ≤ h.mappedEnd)
    (hpos : 0 < pagesFor r t) (hroom : h.mappedEnd < 2 ^ 26)
    (hp : Placed lo (malloc r h).2.blocks) :
    ((malloc r h).1 = nullptr ↔ h.mappedEnd + 4096 * pagesFor r t ≤ 2 ^ 26 →
        t.free = false ∧ 2 ^ 32 ≤ r.toNat + 24) ∧
      ((malloc r h).1 = nullptr → (malloc r h).2.mappedEnd ≠ h.mappedEnd) := by
  have hpages : tailPages r h.blocks = pagesFor r t := by rw [hblocks, tailPages_append]
  by_cases hfits : h.mappedEnd + 4096 * pagesFor r t ≤ 2 ^ 26
  · have hgrown := allocate_grown (hblocks ▸ ha) hr hr8 (by omega) rfl hpos (by omega)
    rw [← hblocks] at hgrown
    cases ha' : allocate r (enlarge (BitVec.ofNat 32 (4096 * pagesFor r t)) h.blocks) with
    | some x =>
      rw [malloc_extended ha hpages hfits ha'] at hp ⊢
      have hne := allocate_ne_null ha' hp
      refine ⟨iff_of_false hne ?_, fun hq => absurd hq hne⟩
      intro hwraps
      have hnone := hgrown.mpr (hwraps hfits)
      simp [ha'] at hnone
    | none =>
      rw [malloc_short ha hpages hfits ha']
      exact ⟨iff_of_true rfl fun _ => hgrown.mp ha', fun _ => by dsimp only; omega⟩
  · rw [malloc_limit ha hpages hfits]
    exact ⟨iff_of_true rfl fun hle => absurd hle hfits, fun _ => by dsimp only; omega⟩

/-- Where pages are added, only a `kmalloc` that succeeds can be said to change nothing. -/
theorem kmalloc_grown (hs : Holds s h) (hblocks : h.blocks = pre ++ [t])
    (hn : NoWrap s size.toNat) (hsize : size ≠ 0)
    (ha : allocate (alignUp size allocAlign) h.blocks = none)
    (hpos : 0 < pagesFor (alignUp size allocAlign) t) (hroom : s.gHeapMappedEnd.toNat < 2 ^ 26)
    (hrun : kmalloc L s size = some (q, s')) : (q = nullptr → s' = s) ↔ GrowsWhole s size := by
  obtain ⟨m, pg, ph, me, hmalloc, hs', -⟩ :=
    kmalloc_malloc L hs hsize (noWrap_le hn) (growsSoundly_of_noWrap hs.rep hsize hn)
  have hround := alignUp_request hsize (noWrap_le hn)
  have hrep := hs.rep
  have hend := hs.mappedEnd
  have ht := hrep.bounds (b := t) (by simp [hblocks])
  obtain ⟨hnull, hmoved⟩ := malloc_grown ha hblocks (by omega) hround.2.2.1 (by omega) hpos
    (by omega) hs'.rep.placed
  rw [hblocks] at hrep ha
  rw [growsWhole_iff hrep hsize ha]
  rw [hrun] at hmalloc
  obtain ⟨hq, rfl⟩ := Prod.mk.inj (Option.some.inj hmalloc)
  rw [← hq] at hnull hmoved
  have hchanged : q = nullptr →
      ¬ (⟨m, pg, ph, s.gHeapStart, me, s.gHeapHead⟩ : State) = s := by
    intro hq0 he
    have hend' : me.toNat = (malloc (alignUp size allocAlign) h).2.mappedEnd := hs'.mappedEnd
    have hme : me = s.gHeapMappedEnd := congrArg State.gHeapMappedEnd he
    rw [hme] at hend'
    exact hmoved hq0 (hend'.symm.trans hend)
  constructor
  · intro hsame
    have hne : q ≠ nullptr := fun hq0 => hchanged hq0 (hsame hq0)
    have hgrows := Classical.not_imp.mp (mt hnull.mpr hne)
    refine .inr (.inr ⟨by omega, ?_⟩)
    intro hf
    exact Nat.lt_of_not_le fun hle => hgrows.2 ⟨hf, hle⟩
  · rintro (hfull | hzero | ⟨hfits, hno⟩) hq0
    · omega
    · omega
    · obtain ⟨hf, hwraps⟩ := hnull.mp hq0 (by omega)
      exact absurd (hno hf) (Nat.not_lt.mpr hwraps)

/-- Exactly where a failing `kmalloc` leaves everything as it was. -/
theorem kmalloc_failure (hs : Holds s h) (hn : NoWrap s size.toNat)
    (hrun : kmalloc L s size = some (q, s')) :
    (q = nullptr → s' = s) ↔ GrowsWhole s size := by
  by_cases hsize : size = 0
  · rw [kmalloc, if_pos (.inl hsize)] at hrun
    obtain ⟨rfl, rfl⟩ : nullptr = q ∧ s = s' := by simpa using hrun
    exact ⟨fun _ => .inl hsize, fun _ _ => rfl⟩
  cases hfind : h.blocks.find? (fits (alignUp size allocAlign)) with
  | some b =>
    obtain ⟨hq, hwhole⟩ := kmalloc_first hs.rep hsize hfind hrun
    exact iff_of_true (fun hq0 => absurd hq0 hq) hwhole
  | none =>
    have ha : allocate (alignUp size allocAlign) h.blocks = none :=
      allocate_eq_none.mpr (find?_fits_none.mp hfind)
    obtain ⟨pre, t, hblocks⟩ := (List.eq_nil_or_concat' h.blocks).resolve_left hs.rep.ne
    have hpos := growsSoundly_of_noWrap hs.rep hsize hn ha t (by simp [hblocks])
    have hlimit := hs.rep.limit
    by_cases hstop : (pagesFor (alignUp size allocAlign) t = 0 ∧ t.free = true) ∨
        (0 < pagesFor (alignUp size allocAlign) t ∧ 2 ^ 26 ≤ s.gHeapMappedEnd.toNat)
    · have hrep := hs.rep
      rw [hblocks] at hrep ha
      have hrefused := kmalloc_refused (L := L) hrep hsize ha hstop
      rw [hrun] at hrefused
      obtain ⟨-, hsame⟩ := Prod.mk.inj (Option.some.inj hrefused)
      refine iff_of_true (fun _ => hsame) ((growsWhole_iff hrep hsize ha).mpr ?_)
      omega
    · have hgrows : 0 < pagesFor (alignUp size allocAlign) t := by
        refine Nat.pos_of_ne_zero fun h0 => hstop (.inl ⟨h0, ?_⟩)
        cases hf : t.free with
        | true => rfl
        | false => exact absurd h0 (Nat.ne_of_gt (hpos hf))
      exact kmalloc_grown hs hblocks hn hsize ha hgrows (by omega) hrun

/-! Sizes that wrap. They do not make a `kmalloc` fail that has changed something. -/

/-- Where the last block is handed out and only the new one behind it fits, `kmalloc` takes that. -/
theorem kmalloc_takesNew {pg : Paging} {ph me : U32} (hs : Rep s (pre ++ [t])) (hsize : size ≠ 0)
    (hused : t.free = false) (hno : ∀ b ∈ pre ++ [t], fits (alignUp size allocAlign) b = false)
    (hloop : extendLoop L (pagesFor (alignUp size allocAlign) t) s =
      (true, { s with paging := pg, gNextFreePhys := ph, gHeapMappedEnd := me }))
    (hfits : alignUp size allocAlign ≤
      BitVec.ofNat 32 (4096 * pagesFor (alignUp size allocAlign) t) - 24)
    (hrun : kmalloc L s size = some (q, s')) : q ≠ nullptr := by
  have hstart : ¬ (size = 0 ∨ s.gHeapHead = nullptr) := not_or.mpr ⟨hsize, hs.head_ne⟩
  obtain ⟨added, hadded⟩ : ∃ added, added =
    BitVec.ofNat 32 (4096 * pagesFor (alignUp size allocAlign) t) := ⟨_, rfl⟩
  have hfind : findFreeBlock s (alignUp size allocAlign) = some nullptr := by
    rw [hs.findFreeBlock, find?_fits_none.mpr hno]
    rfl
  have hext := extendHeapToFit_eq L hs (hno t (by simp))
  rw [hloop, ← hadded] at hext
  have hagain := findFreeBlock_grown hs pg ph me added (alignUp size allocAlign)
  have hnew : fits (alignUp size allocAlign) ⟨t.addr + 24 + t.size, added - 24, true⟩ = true := by
    simpa [fits, hadded] using hfits
  have hfirst : (pre ++ enlarge added [t]).find? (fits (alignUp size allocAlign)) =
      some ⟨t.addr + 24 + t.size, added - 24, true⟩ := by
    have hsplit : pre ++ enlarge added [t] =
        (pre ++ [t]) ++ [⟨t.addr + 24 + t.size, added - 24, true⟩] := by
      simp [enlarge_used hused]
    rw [hsplit, List.find?_append, find?_fits_none.mpr hno, List.find?_cons_of_pos hnew]
    rfl
  rw [hfirst] at hagain
  have haddr := grownTail_addr hs.placed added hused
  have hend := hs.placed.around.2.1
  simp only [grownTail, hused, Bool.false_eq_true, if_false] at haddr
  have hne : t.addr + 24 + t.size ≠ nullptr := by
    intro hnull
    rw [hnull] at haddr
    have hzero : nullptr.toNat = 0 := rfl
    omega
  have hout := kmalloc_extended hstart hfind hext hagain hne
  rw [hrun] at hout
  have hq : q = blockPayload (t.addr + 24 + t.size) := (Prod.mk.inj (Option.some.inj hout)).1
  rw [hq, blockPayload, headerSize_eq]
  intro hnull
  have hpayload := congrArg BitVec.toNat hnull
  have hzero : nullptr.toNat = 0 := rfl
  rw [BitVec.toNat_add, haddr, hzero] at hpayload
  have h24 : (24 : U32).toNat = 24 := rfl
  omega

/-- A size that rounds to 0 asks for one page, whose block fits it if there is room for the page. -/
theorem kmalloc_roundsToZero (hs : Rep s (pre ++ [t])) (hlarge : 0xFFFFFFF8 < size.toNat)
    (hno : ∀ b ∈ pre ++ [t], fits (alignUp size allocAlign) b = false)
    (hrun : kmalloc L s size = some (q, s')) : (q = nullptr → s' = s) ∧ GrowsWhole s size := by
  have hsize : size ≠ 0 := by
    rintro rfl
    exact absurd hlarge (by decide)
  have ha : allocate (alignUp size allocAlign) (pre ++ [t]) = none := allocate_eq_none.mpr hno
  have hround := toNat_alignUp_alloc size
  have hlt := size.isLt
  have hpage := hs.page
  have hlimit := hs.limit
  have hused : t.free = false := by
    refine (fits_eq_false.mp (hno t (by simp))).resolve_right ?_
    omega
  have hone : pagesFor (alignUp size allocAlign) t = 1 := by
    rw [pagesFor, hused, if_neg Bool.false_ne_true]
    bv_omega
  rw [growsWhole_iff hs hsize ha]
  by_cases hfull : s.gHeapMappedEnd.toNat = 2 ^ 26
  · have hrefused := kmalloc_refused (L := L) hs hsize ha (.inr ⟨by omega, by omega⟩)
    rw [hrun] at hrefused
    obtain ⟨-, hsame⟩ := Prod.mk.inj (Option.some.inj hrefused)
    exact ⟨fun _ => hsame, .inl hfull⟩
  · obtain ⟨pg, ph, me, hloop, -⟩ := extendLoop_spec L 1 s hpage hlimit
    rw [decide_eq_true (by omega), ← hone] at hloop
    have hq := kmalloc_takesNew hs hsize hused hno hloop (by bv_omega) hrun
    exact ⟨fun hnull => absurd hnull hq, .inr (.inr ⟨by omega, fun _ => by omega⟩)⟩

/-- A size that rounds to no page is handed the block of size -24 behind the last one. -/
theorem kmalloc_roundsToNoPage (hs : Rep s (pre ++ [t])) (hused : t.free = false)
    (hlow : 0xFFFFEFE9 ≤ size.toNat) (hhigh : size.toNat ≤ 0xFFFFFFE8)
    (hno : ∀ b ∈ pre ++ [t], fits (alignUp size allocAlign) b = false)
    (hrun : kmalloc L s size = some (q, s')) : q ≠ nullptr ∧ GrowsWhole s size := by
  have hsize : size ≠ 0 := by
    rintro rfl
    exact absurd hlow (by decide)
  have hround := toNat_alignUp_alloc size
  have hnone : pagesFor (alignUp size allocAlign) t = 0 := by
    rw [pagesFor, hused, if_neg Bool.false_ne_true]
    bv_omega
  have hloop : extendLoop L 0 s = (true, s) := rfl
  rw [← hnone] at hloop
  rw [growsWhole_iff hs hsize (allocate_eq_none.mpr hno)]
  exact ⟨kmalloc_takesNew hs hsize hused hno hloop (by bv_omega) hrun, .inr (.inl hnone)⟩

/-- A size that wraps is refused with nothing changed, or handed a block. -/
theorem kmalloc_wrapped (hs : Holds s h) (hsize : size ≠ 0) (hn : ¬ NoWrap s size.toNat)
    (hrun : kmalloc L s size = some (q, s')) : (q = nullptr → s' = s) ∧ GrowsWhole s size := by
  obtain ⟨pre, t, hblocks⟩ := (List.eq_nil_or_concat' h.blocks).resolve_left hs.rep.ne
  have hrep := hs.rep
  rw [hblocks] at hrep
  cases hfind : (pre ++ [t]).find? (fits (alignUp size allocAlign)) with
  | some b =>
    obtain ⟨hq, hwhole⟩ := kmalloc_first hrep hsize hfind hrun
    exact ⟨fun hnull => absurd hnull hq, hwhole⟩
  | none =>
    have hno := find?_fits_none.mp hfind
    by_cases hlarge : 0xFFFFFFF8 < size.toNat
    · exact kmalloc_roundsToZero hrep hlarge hno hrun
    · have htail : tailUsed s = true ↔ t.free = false := by
        rw [hrep.tailUsed, Bool.not_eq_true']
      have hin : t.free = false ∧ 0xFFFFEFE9 ≤ size.toNat ∧ size.toNat ≤ 0xFFFFFFE8 := by
        by_contra hout
        rw [← htail] at hout
        exact hn (.inr ⟨by omega, hout⟩)
      obtain ⟨hused, hlow, hhigh⟩ := hin
      obtain ⟨hq, hwhole⟩ := kmalloc_roundsToNoPage hrep hused hlow hhigh hno hrun
      exact ⟨fun hnull => absurd hnull hq, hwhole⟩

/-- Exactly where a failing `kmalloc` leaves everything as it was, for every size. -/
theorem kmalloc_unchanged_iff (hs : Holds s h) (hrun : kmalloc L s size = some (q, s')) :
    (q = nullptr → s' = s) ↔ GrowsWhole s size := by
  by_cases hn : NoWrap s size.toNat
  · exact kmalloc_failure hs hn hrun
  · by_cases hsize : size = 0
    · exact absurd (noWrap_of_small (by rw [hsize]; decide)) hn
    · obtain ⟨hsame, hwhole⟩ := kmalloc_wrapped hs hsize hn hrun
      exact iff_of_true hsame hwhole

/-- A size asked for again once it is rounded. -/
theorem growsWhole_alignUp (hr : alignUp size allocAlign ≠ 0) :
    GrowsWhole s (alignUp size allocAlign) ↔ GrowsWhole s size := by
  have hsize : size ≠ 0 := by
    rintro rfl
    exact hr rfl
  have hround := toNat_alignUp_alloc size
  have hsame := alignUp_rounded (r := alignUp size allocAlign) (by omega)
  simp only [GrowsWhole, hsame, hr, hsize, false_or]

/-- The same of `krealloc`, for every pointer. -/
theorem krealloc_unchanged_iff {ptr : U32} (hs : Holds s h) (hptr : ptr ≠ nullptr) (hsize : size ≠ 0)
    (hrun : krealloc L s ptr size = some (q, s')) :
    (q = nullptr → s' = s) ↔ (Rejected s ptr ∨ FitsInPlace s ptr size) ∨ GrowsWhole s size := by
  simp only [krealloc, if_neg hptr, if_neg hsize, Option.bind_eq_bind] at hrun
  split at hrun
  · rename_i hrejected
    obtain ⟨-, rfl⟩ := Prod.mk.inj (Option.some.inj hrun)
    exact iff_of_true (fun _ => rfl) (.inl (.inl hrejected))
  rename_i haccepted
  split at hrun
  · rename_i hfits
    obtain ⟨rfl, -⟩ := Prod.mk.inj (Option.some.inj hrun)
    exact iff_of_true (fun hnull => absurd hnull hptr) (.inl (.inr (.inl hfits)))
  rename_i hlarge
  split at hrun
  · rename_i habsorbs
    obtain ⟨rfl, -⟩ := Prod.mk.inj (Option.some.inj hrun)
    exact iff_of_true (fun hnull => absurd hnull hptr) (.inl (.inr (.inr habsorbs)))
  rename_i hnot
  have hinplace : ¬ (Rejected s ptr ∨ FitsInPlace s ptr size) := by
    rintro (hrejected | hfits | habsorbs)
    · exact haccepted hrejected
    · exact hlarge hfits
    · exact hnot habsorbs
  have hr : alignUp size allocAlign ≠ 0 := by
    intro hzero
    rw [hzero] at hlarge
    exact hlarge (Nat.zero_le _)
  obtain ⟨⟨newPtr, s₁⟩, hkmalloc, hrun⟩ := Option.bind_eq_some_iff.mp hrun
  have hgrows := (kmalloc_unchanged_iff hs hkmalloc).trans (growsWhole_alignUp hr)
  rw [or_iff_right hinplace, ← hgrows]
  split at hrun
  · rename_i hnull
    obtain ⟨rfl, rfl⟩ := Prod.mk.inj (Option.some.inj hrun)
    have hnull : newPtr = nullptr := hnull
    rw [hnull]
  · rename_i hne
    obtain ⟨rfl, -⟩ := Prod.mk.inj (Option.some.inj hrun)
    exact iff_of_true (fun hnull => absurd hnull hne) (fun hnull => absurd hnull hne)

theorem kcalloc_unchanged_iff {count : U32} (hs : Holds s h)
    (hrun : kcalloc L s count size = some (q, s')) :
    (q = nullptr → s' = s) ↔
      2 ^ 32 ≤ count.toNat * size.toNat ∨ GrowsWhole s (count * size) := by
  by_cases hzero : count = 0 ∨ size = 0
  · rw [kcalloc_refused L s (.inl hzero)] at hrun
    obtain ⟨rfl, rfl⟩ := Prod.mk.inj (Option.some.inj hrun)
    refine iff_of_true (fun _ => rfl) (.inr (.inl ?_))
    rcases hzero with rfl | rfl <;> simp
  by_cases hbig : 0xFFFFFFFF < count.toNat * size.toNat
  · rw [kcalloc_refused L s (.inr hbig)] at hrun
    obtain ⟨rfl, rfl⟩ := Prod.mk.inj (Option.some.inj hrun)
    exact iff_of_true (fun _ => rfl) (.inl (by omega))
  rw [kcalloc_asked L s hzero hbig] at hrun
  obtain ⟨⟨q', s''⟩, hkmalloc, hrun⟩ := Option.map_eq_some_iff.mp hrun
  rw [or_iff_right (by omega), ← kmalloc_unchanged_iff hs hkmalloc]
  dsimp only at hrun
  by_cases hq : q' = nullptr
  · rw [if_pos hq] at hrun
    obtain ⟨rfl, rfl⟩ := Prod.mk.inj hrun
    simp [hq]
  · rw [if_neg hq] at hrun
    obtain ⟨rfl, -⟩ := Prod.mk.inj hrun
    exact iff_of_true (fun hnull => absurd hnull hq) (fun hnull => absurd hnull hq)

/-- After every run of requests that do not wrap, the next one, whatever it asks for and whatever
pointer it comes with: failing, it leaves the whole machine as it was exactly where its growth does
not stop midway. -/
theorem failed_allocation_unchanged (L : Layout) (kernelEnd : U32) (s : State) {es : List Event}
    (hk : kernelEnd < identityMapLimit) (hon : (kmallocInit kernelEnd s).gHeapHead ≠ nullptr)
    (hrun : Run (Guarded (fun c e => NoWrap c.state e.1.bytes) (Client.Step L))
      (Client.start (kmallocInit kernelEnd s)) es c)
    {req : Request} (hreq : req.Allocating) (hserve : serve L c.state req = some (q, s')) :
    (q = nullptr → s' = c.state) ↔ req.GrowsWhole c.state := by
  obtain ⟨h, hc⟩ := run_backed hk hon hrun
  cases req with
  | kmalloc size => exact kmalloc_unchanged_iff hc.holds hserve
  | kcalloc count size => exact kcalloc_unchanged_iff hc.holds hserve
  | krealloc ptr newSize =>
    by_cases hptr : ptr = nullptr
    · subst hptr
      rw [serve, krealloc_null] at hserve
      have hiff := kmalloc_unchanged_iff hc.holds hserve
      simpa [Request.GrowsWhole] using hiff
    · have hiff := krealloc_unchanged_iff hc.holds hptr hreq hserve
      simpa [Request.GrowsWhole, hptr] using hiff
  | kfree ptr => exact hreq.elim
  | write addr value => exact hreq.elim

/-- A `krealloc` of a pointer outside of the heap fails, for more bytes than the heap can hold. -/
theorem failed_allocation_unchanged_stray :
    serve bootLayout bootState (.krealloc 0x10 0x08000000) = some (nullptr, bootState) ∧
      (Request.krealloc 0x10 0x08000000).GrowsWhole bootState := by
  have hfails : serve bootLayout bootState (.krealloc 0x10 0x08000000) = some (nullptr, bootState) :=
    rfl
  have hiff := failed_allocation_unchanged bootLayout 0x123456 blankState (by decide) (by decide)
    .nil (show (Request.krealloc 0x10 0x08000000).Allocating from
      (by decide : (0x08000000 : U32) ≠ 0)) hfails
  exact ⟨hfails, hiff.mp fun _ => rfl⟩

/-- `kmalloc(0x08000000)` on a heap just initialised returns null, with the heap grown to its limit. -/
theorem kmalloc_failure_grows : ∃ s',
    serve bootLayout bootState (.kmalloc 0x08000000) = some (nullptr, s') ∧
      s'.gHeapMappedEnd ≠ bootState.gHeapMappedEnd := by
  obtain ⟨s', hrun, hholds⟩ := refused_boot
  refine ⟨s', hrun, fun he => ?_⟩
  have hend := hholds.mappedEnd
  rw [he] at hend
  exact absurd hend (by decide)

end Kernix.Proofs
