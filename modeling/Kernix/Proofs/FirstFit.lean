import Kernix.Proofs.Lists

namespace Kernix.Proofs
open Library Memory Memory.HeapBlock Memory.Client

variable {L : Layout} {c : Client} {s s' : State} {h : Heap} {bs pre post : List Block}
  {b t : Block} {q r : U32} {kernelEnd : U32} {es : List Event}

/-- The free block of lowest address that holds `r` bytes. -/
structure FirstFit (r : U32) (bs : List Block) (b : Block) : Prop where
  free : b.free = true
  enough : r ≤ b.size
  lowest : ∀ d ∈ bs, d.free = true → r ≤ d.size → b.addr ≤ d.addr

/-- The bytes that `t`, as the last block, is short of for `r` and, where it is used, a header. -/
def missing (r : U32) (t : Block) : Nat :=
  if t.free then r.toNat - t.size.toNat else r.toNat + 24

/-- Whole pages that hold `n` bytes. -/
def pagesHolding (n : Nat) : Nat := (n + 4095) / 4096

/-- Within the limit the 32-bit sums of `pages_needed` do not wrap. -/
theorem pagesFor_missing (hr : r.toNat ≤ 2 ^ 26) (hno : fits r t = false) :
    pagesFor r t = pagesHolding (missing r t) := by
  unfold pagesFor pagesHolding missing
  cases ht : t.free with
  | true =>
    have hsize : ¬ r ≤ t.size := by simpa [fits, ht] using hno
    simp only [if_true]
    bv_omega
  | false =>
    simp only [Bool.false_eq_true, if_false]
    bv_omega

theorem missing_pos (hr : 0 < r.toNat) (hno : fits r t = false) : 0 < missing r t := by
  unfold missing
  cases ht : t.free with
  | true =>
    have hsize : ¬ r ≤ t.size := by simpa [fits, ht] using hno
    rw [if_pos rfl]
    bv_omega
  | false =>
    rw [if_neg (by simp)]
    omega

/-- The last block after the growth holds the request, and no block before it does. -/
theorem allocate_enlarge (hr : 0 < r.toNat ∧ r.toNat ≤ 2 ^ 26)
    (ha : allocate r (pre ++ [t]) = none)
    (hfits : t.size.toNat + 4096 * pagesHolding (missing r t) ≤ 2 ^ 26) :
    ∃ init last, enlarge (BitVec.ofNat 32 (4096 * pagesHolding (missing r t))) (pre ++ [t]) =
        init ++ [last] ∧
      allocate r (init ++ [last]) = some (last.payload, init ++ carve r last) := by
  have hno := allocate_eq_none.mp ha
  have hpre : ∀ d ∈ pre, fits r d = false := fun d hd => hno d (by simp [hd])
  have ht := hno t (by simp)
  have hadd : (BitVec.ofNat 32 (4096 * pagesHolding (missing r t))).toNat =
      4096 * pagesHolding (missing r t) := by
    rw [BitVec.toNat_ofNat]
    omega
  have hpages : missing r t ≤ 4096 * pagesHolding (missing r t) := by
    unfold pagesHolding
    omega
  generalize pagesHolding (missing r t) = k at *
  rw [enlarge_append]
  unfold missing at hpages
  cases hfree : t.free with
  | true =>
    rw [hfree, if_pos rfl] at hpages
    rw [enlarge_free hfree]
    refine ⟨pre, _, rfl, allocate_eq_some.mpr ⟨pre, _, [], rfl, hpre, ?_, rfl, by simp⟩⟩
    have henough : r ≤ t.size + BitVec.ofNat 32 (4096 * k) := by bv_omega
    simpa [fits, hfree] using henough
  | false =>
    rw [hfree, if_neg (by simp)] at hpages
    rw [enlarge_used hfree]
    refine ⟨pre ++ [t], _, by rw [List.append_assoc]; rfl, allocate_eq_some.mpr
      ⟨pre ++ [t], _, [], rfl, ?_, ?_, rfl, by simp⟩⟩
    · intro d hd
      rcases List.mem_append.mp hd with hd | hd
      · exact hpre d hd
      · exact List.mem_singleton.mp hd ▸ ht
    · have henough : r ≤ BitVec.ofNat 32 (4096 * k) - 24 := by bv_omega
      simpa [fits] using henough

/-- Where no block fits, `malloc` adds the pages missing at the tail, or fails. -/
theorem malloc_tail (hr : 0 < r.toNat ∧ r.toNat ≤ 2 ^ 26) (hblocks : h.blocks = pre ++ [t])
    (ha : allocate r h.blocks = none) (ht : t.size.toNat ≤ h.mappedEnd) :
    (h.mappedEnd + 4096 * pagesHolding (missing r t) ≤ 2 ^ 26 →
      ∃ init last, enlarge (BitVec.ofNat 32 (4096 * pagesHolding (missing r t))) h.blocks =
          init ++ [last] ∧
        malloc r h = (last.payload,
          ⟨init ++ carve r last, h.mappedEnd + 4096 * pagesHolding (missing r t)⟩)) ∧
      (¬ h.mappedEnd + 4096 * pagesHolding (missing r t) ≤ 2 ^ 26 → (malloc r h).1 = nullptr) := by
  have hno : fits r t = false := allocate_eq_none.mp ha t (by simp [hblocks])
  have hpages : tailPages r h.blocks = pagesHolding (missing r t) := by
    rw [hblocks, tailPages_append, pagesFor_missing hr.2 hno]
  constructor
  · intro hfits
    obtain ⟨init, last, hgrown, hlast⟩ := allocate_enlarge hr (hblocks ▸ ha) (by omega)
    rw [← hblocks] at hgrown
    exact ⟨init, last, hgrown, malloc_extended ha hpages hfits (hgrown ▸ hlast)⟩
  · intro hfull
    rw [malloc_limit ha hpages hfull]
    rfl

/-- First fit finds the block of lowest address. -/
theorem allocate_firstFit {lo : Nat} (hp : Placed lo (pre ++ b :: post))
    (hb : FirstFit r (pre ++ b :: post) b) :
    allocate r (pre ++ b :: post) = some (b.payload, pre ++ carve r b ++ post) := by
  refine allocate_eq_some.mpr ⟨pre, b, post, rfl, ?_, ?_, rfl, rfl⟩
  · intro d hd
    refine fits_eq_false.mpr (or_iff_not_imp_left.mpr fun hfree => Nat.lt_of_not_le ?_)
    intro hle
    have hlow := hb.lowest d (by simp [hd]) (by simpa using hfree) hle
    obtain ⟨-, -, hbefore, -⟩ := hp.around
    have := hbefore d hd
    bv_omega
  · simp [fits, hb.free, hb.enough]

/-! The same of `kmalloc`, for sizes within the limit. -/

section
variable {size : U32} (hs : Holds s h) (hpos : 0 < size.toNat) (hle : size.toNat ≤ 2 ^ 26)
  (hrun : kmalloc L s size = some (q, s'))
include hs hpos hle hrun

theorem kmalloc_small :
    (0 < (alignUp size allocAlign).toNat ∧ (alignUp size allocAlign).toNat ≤ 2 ^ 26) ∧
      (malloc (alignUp size allocAlign) h).1 = q ∧
      Holds s' (malloc (alignUp size allocAlign) h).2 := by
  have hsize : size ≠ 0 := by
    rintro rfl
    exact absurd hpos (by decide)
  have hwrap : size.toNat ≤ 0xFFFFFFF8 := Nat.le_trans hle (by decide)
  have hround := alignUp_request hsize hwrap
  obtain ⟨m, pg, ph, me, hkm, hs', -⟩ :=
    kmalloc_malloc L hs hsize hwrap (growsSoundly_of_noWrap hs.rep hsize (noWrap_of_small hle))
  rw [hrun] at hkm
  obtain ⟨rfl, rfl⟩ := Prod.mk.inj (Option.some.inj hkm)
  exact ⟨by omega, rfl, hs'⟩

theorem kmalloc_fits {bs' : List Block} {p : U32}
    (ha : allocate (alignUp size allocAlign) h.blocks = some (p, bs')) :
    q = p ∧ s'.gHeapMappedEnd = s.gHeapMappedEnd ∧ Holds s' { h with blocks := bs' } := by
  obtain ⟨-, hq, hs'⟩ := kmalloc_small hs hpos hle hrun
  rw [malloc_fits ha] at hq hs'
  refine ⟨hq.symm, BitVec.eq_of_toNat_eq ?_, hs'⟩
  exact hs'.mappedEnd.trans hs.mappedEnd.symm

/-- Where no block fits: the last one after the growth is handed out, if the limit lets it. -/
theorem kmalloc_tail (hblocks : h.blocks = pre ++ [t])
    (ha : allocate (alignUp size allocAlign) h.blocks = none) :
    let k := pagesHolding (missing (alignUp size allocAlign) t)
    (q ≠ nullptr ↔ s.gHeapMappedEnd.toNat + 4096 * k ≤ 2 ^ 26) ∧
      (q ≠ nullptr → s'.gHeapMappedEnd.toNat = s.gHeapMappedEnd.toNat + 4096 * k ∧
        ∃ init last, enlarge (BitVec.ofNat 32 (4096 * k)) h.blocks = init ++ [last] ∧
          q = last.payload ∧ Lists s' (init ++ carve (alignUp size allocAlign) last)) := by
  intro k
  obtain ⟨hr, hq, hs'⟩ := kmalloc_small hs hpos hle hrun
  have hrep := hs.rep
  have hend := hs.mappedEnd
  have ht := hrep.bounds (b := t) (by simp [hblocks])
  obtain ⟨hgrows, hfull⟩ := malloc_tail hr hblocks ha (by omega)
  rw [← hend] at hgrows hfull
  by_cases hfits : s.gHeapMappedEnd.toNat + 4096 * k ≤ 2 ^ 26
  · obtain ⟨init, last, hgrown, hmalloc⟩ := hgrows hfits
    rw [hmalloc] at hq hs'
    obtain ⟨d, ds, -, haddr, hcarve⟩ := cut_head (alignUp size allocAlign) last
    have hne : last.payload ≠ nullptr := by
      have := hs'.rep.placed.payload_ne (b := { d with free := false }) (by simp [hcarve])
      rwa [Block.payload, haddr] at this
    refine ⟨iff_of_true (hq ▸ hne) hfits, fun _ => ⟨hs'.mappedEnd, init, last, hgrown, hq.symm, ?_⟩⟩
    exact hs'.rep.lists
  · have hnull : q = nullptr := hq.symm.trans (hfull hfits)
    exact ⟨iff_of_false (not_not.mpr hnull) hfits, fun hne => absurd hnull hne⟩

end

/-- `kmalloc` is first fit, with growth at the tail where no block fits. -/
theorem kmalloc_first_fit (L : Layout) (kernelEnd : U32) (s : State)
    (hk : kernelEnd < identityMapLimit)
    (hon : (kmallocInit kernelEnd s).gHeapHead ≠ nullptr)
    (hrun : Run (Guarded (fun _ e => WithinLimit e) (Client.Step L))
      (Client.start (kmallocInit kernelEnd s)) es c)
    {size : U32} (hpos : 1 ≤ size.toNat) (hle : size.toNat ≤ heapVirtLimit.toNat) :
    let r := alignUp size allocAlign
    ∃ bs q s', bs ≠ [] ∧ Lists c.state bs ∧ kmalloc L c.state size = some (q, s') ∧
      (∀ pre b post, bs = pre ++ b :: post → FirstFit r bs b →
        q = b.payload ∧ s'.gHeapMappedEnd = c.state.gHeapMappedEnd ∧
          Lists s' (pre ++ carve r b ++ post)) ∧
      ((∀ b ∈ bs, b.free = true → ¬ r ≤ b.size) → ∀ pre t, bs = pre ++ [t] →
        let k := pagesHolding (missing r t)
        (q ≠ nullptr ↔ c.state.gHeapMappedEnd.toNat + 4096 * k ≤ heapVirtLimit.toNat) ∧
          (q ≠ nullptr → s'.gHeapMappedEnd.toNat = c.state.gHeapMappedEnd.toNat + 4096 * k ∧
            ∃ init last, enlarge (BitVec.ofNat 32 (4096 * k)) bs = init ++ [last] ∧
              q = last.payload ∧ Lists s' (init ++ carve r last))) := by
  intro r
  obtain ⟨h, hc⟩ := run_backed hk hon (run_noWrap hrun)
  obtain ⟨q, s', -, hkm, -⟩ := kmalloc_allocates L hc.holds (noWrap_of_small hle)
  refine ⟨h.blocks, q, s', hc.holds.rep.ne, hc.holds.rep.lists, hkm, ?_, ?_⟩
  · intro pre b post hblocks hb
    have hp := hc.holds.rep.placed
    rw [hblocks] at hp hb
    have ha := allocate_firstFit hp hb
    rw [← hblocks] at ha
    obtain ⟨hq, hend, hs'⟩ := kmalloc_fits hc.holds hpos hle hkm ha
    exact ⟨hq, hend, hs'.rep.lists⟩
  · intro hno pre t hblocks
    refine kmalloc_tail hc.holds hpos hle hkm hblocks (allocate_eq_none.mpr ?_)
    intro b hb
    cases hfree : b.free with
    | true => simpa [fits, hfree] using hno b hb hfree
    | false => simp [fits, hfree]

theorem kmalloc_first_fit_boot : ∃ bs q s', Lists bootState bs ∧
    kmalloc bootLayout bootState 16 = some (q, s') ∧
      ∀ pre b post, bs = pre ++ b :: post → FirstFit 16 bs b →
        q = b.payload ∧ s'.gHeapMappedEnd = bootState.gHeapMappedEnd ∧
          Lists s' (pre ++ carve 16 b ++ post) := by
  have hpos : 1 ≤ (16 : U32).toNat := by decide
  obtain ⟨bs, q, s', -, hl, hkm, hfound, -⟩ :=
    kmalloc_first_fit bootLayout 0x123456 blankState (by decide) (by decide) .nil hpos (by decide)
  exact ⟨bs, q, s', hl, hkm, hfound⟩

end Kernix.Proofs
