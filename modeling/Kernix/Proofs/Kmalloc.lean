import Kernix.Proofs.Align
import Kernix.Proofs.Represents

namespace Kernix.Proofs
open Library Memory Memory.HeapBlock

theorem toNat_pagesNeeded (r : U32) (t : Block) (prev next : U32) :
    (pagesNeeded (header t prev next) r).toNat = pagesFor r t := by
  rw [pagesNeeded, BitVec.toNat_udiv, toNat_alignUp_page]
  simp only [header, flag_ne_zero, headerSize_eq, pagesFor, pageSize]
  exact Nat.mul_div_cancel _ (by decide)

/-- The heap with one page more, as a turn of the loop leaves it. -/
def mapNext (L : Layout) (s : State) : State :=
  { s with
    paging := mapPage L s.paging s.gHeapMappedEnd s.gNextFreePhys pageFlagRw
    gHeapMappedEnd := s.gHeapMappedEnd + pageSize
    gNextFreePhys := s.gNextFreePhys + pageSize }

theorem mapNext_paging (L : Layout) (s : State) : (mapNext L s).paging =
    mapPage L s.paging s.gHeapMappedEnd s.gNextFreePhys pageFlagRw := rfl

theorem mapNext_end (L : Layout) {s : State} (hroom : s.gHeapMappedEnd.toNat < 2 ^ 26) :
    (mapNext L s).gHeapMappedEnd.toNat = s.gHeapMappedEnd.toNat + 4096 := by
  change (s.gHeapMappedEnd + 4096).toNat = _
  bv_omega

theorem extendLoop_room (L : Layout) (n : Nat) {s : State}
    (hroom : s.gHeapMappedEnd.toNat < 2 ^ 26) :
    extendLoop L (n + 1) s = extendLoop L n (mapNext L s) := by
  rw [extendLoop, if_neg]
  · rfl
  · exact Nat.not_le_of_lt hroom

/-- At the limit the loop stops before it touches anything. -/
theorem extendLoop_full (L : Layout) {n : Nat} {s : State}
    (hfull : 2 ^ 26 ≤ s.gHeapMappedEnd.toNat) (hn : 0 < n) : extendLoop L n s = (false, s) := by
  obtain ⟨n, rfl⟩ := Nat.exists_eq_succ_of_ne_zero (Nat.ne_of_gt hn)
  rw [extendLoop, if_pos]
  exact hfull

/-- The growth loop moves the end of the mapped pages, as far as the limit, and the
paging state; the heap's bytes stay. -/
theorem extendLoop_spec (L : Layout) (n : Nat) (s : State)
    (hpage : s.gHeapMappedEnd.toNat % 4096 = 0) (hlimit : s.gHeapMappedEnd.toNat ≤ 2 ^ 26) :
    ∃ pg ph me,
      extendLoop L n s = (decide (s.gHeapMappedEnd.toNat + 4096 * n ≤ 2 ^ 26),
        { s with paging := pg, gNextFreePhys := ph, gHeapMappedEnd := me }) ∧
      me.toNat = min (s.gHeapMappedEnd.toNat + 4096 * n) (2 ^ 26) := by
  induction n generalizing s with
  | zero =>
    refine ⟨s.paging, s.gNextFreePhys, s.gHeapMappedEnd, ?_, by omega⟩
    rw [extendLoop, decide_eq_true (by omega)]
  | succ n ih =>
    rcases Nat.lt_or_ge s.gHeapMappedEnd.toNat (2 ^ 26) with hroom | hfull
    · have hnext := mapNext_end L hroom
      obtain ⟨pg, ph, me, hrun, hme⟩ := ih (mapNext L s) (by omega) (by omega)
      refine ⟨pg, ph, me, ?_, by omega⟩
      have hd : decide ((mapNext L s).gHeapMappedEnd.toNat + 4096 * n ≤ 2 ^ 26) =
          decide (s.gHeapMappedEnd.toNat + 4096 * (n + 1) ≤ 2 ^ 26) := by
        rw [decide_eq_decide]
        omega
      rw [extendLoop_room L n hroom, hrun, hd]
      rfl
    · refine ⟨s.paging, s.gNextFreePhys, s.gHeapMappedEnd, ?_, by omega⟩
      have hd : ¬ (s.gHeapMappedEnd.toNat + 4096 * (n + 1) ≤ 2 ^ 26) := by omega
      rw [extendLoop_full L hfull (Nat.succ_pos n), decide_eq_false hd]

variable {s : State} {bs pre post : List Block} {b t : Block} {r : U32}

/-- The list does not depend on the paging state, nor on mapped pages past its end. -/
theorem Rep.remap (h : Rep s bs) (pg : Paging) (ph : U32) {me : U32}
    (hle : s.gHeapMappedEnd.toNat ≤ me.toNat) (hlimit : me.toNat ≤ 2 ^ 26)
    (hpage : me.toNat % 4096 = 0) :
    Rep { s with paging := pg, gNextFreePhys := ph, gHeapMappedEnd := me } bs :=
  ⟨h.ne, h.head, h.aligned, h.placed, h.sized, Nat.le_trans h.mapped hle, hlimit, hpage, h.linked⟩

/-- `bs` with the end of the mapped pages, as the abstract heap. -/
structure Holds (s : State) (h : Heap) : Prop where
  rep : Rep s h.blocks
  mappedEnd : s.gHeapMappedEnd.toNat = h.mappedEnd

/-! Handing a block out. -/

theorem cut_head (r : U32) (b : Block) :
    ∃ c cs, cut r b = c :: cs ∧ c.addr = b.addr ∧ carve r b = { c with free := false } :: cs := by
  unfold carve cut
  split
  · exact ⟨b, [], rfl, rfl, rfl⟩
  · exact ⟨{ b with size := r }, _, rfl, rfl, rfl⟩

theorem cut_sized (hb : 0 < b.size.toNat ∧ b.size.toNat % 8 = 0) (hr : 0 < r.toNat ∧ r.toNat % 8 = 0) :
    ∀ d ∈ cut r b, 0 < d.size.toNat ∧ d.size.toNat % 8 = 0 := by
  by_cases hcut : b.size.toNat < r.toNat + 32
  · rw [cut_whole hcut]
    simpa using hb
  · have hrest : (b.size - r - 24).toNat = b.size.toNat - r.toNat - 24 := by bv_omega
    rw [cut_two (Nat.not_lt.mp hcut)]
    intro d hd
    rcases List.mem_cons.mp hd with rfl | hd
    · exact hr
    · rw [List.mem_singleton.mp hd]
      simp only [hrest]
      omega

theorem cut_room (hp : Placed s.gHeapStart.toNat (pre ++ b :: post)) (r : U32) :
    room (cut r b) = room [b] := by
  by_cases hcut : b.size.toNat < r.toNat + 32
  · rw [cut_whole hcut]
  · rw [cut_two (Nat.not_lt.mp hcut)]
    obtain ⟨-, hns⟩ := remainder_addr hp (Nat.not_lt.mp hcut)
    simp only [room, span_cons, span_nil, Block.len, hns]
    omega

/-- `split_block` on a block of the heap. -/
theorem Rep.split (h : Rep s (pre ++ b :: post)) (hr : 0 < r.toNat ∧ r.toNat % 8 = 0)
    (hfit : r.toNat ≤ b.size.toNat) :
    Rep { s with mem := splitBlock s.mem b.addr r } (pre ++ cut r b ++ post) ∧
      SameOutside (pre ++ cut r b ++ post) s.mem (splitBlock s.mem b.addr r) := by
  obtain ⟨hl, hout⟩ := splitBlock_linked h.placed h.linked hfit
  obtain ⟨c, cs, hc, -, -⟩ := cut_head r b
  refine ⟨h.edit (by simp [hc]) (h.placed.cut r) ?_ ?_ hl, hout⟩
  · have := cut_room h.placed r
    simp only [room, span_append, span_cons, span_nil] at this ⊢
    omega
  · intro d hd
    simp only [List.mem_append] at hd
    rcases hd with (hd | hd) | hd
    · exact h.sized d (by simp [hd])
    · exact cut_sized (h.sized b (by simp)) hr d hd
    · exact h.sized d (by simp [hd])

/-- Only the flag of one block changes. -/
theorem Rep.setFree (h : Rep s (pre ++ b :: post)) (f : Bool) :
    Rep { s with mem := setFree s.mem b.addr (flag f) } (pre ++ { b with free := f } :: post) ∧
      SameOutside [b] s.mem (setFree s.mem b.addr (flag f)) := by
  obtain ⟨hl, hout⟩ := setFree_linked h.placed h.linked f
  have hlen : room (pre ++ { b with free := f } :: post) = room (pre ++ b :: post) := by
    simp only [room, span_append, span_cons, Block.len]
  refine ⟨h.edit (by simp) ⟨h.placed.low, ?_, hlen ▸ h.placed.high⟩ hlen ?_ hl, hout⟩
  · simpa only [tiles_append, tiles_cons, Block.start, Block.len] using h.placed.laid
  · intro d hd
    have hs := h.sized
    simp only [List.mem_append, List.mem_cons] at hd hs
    rcases hd with hd | rfl | hd
    · exact hs d (.inl hd)
    · exact hs b (.inr (.inl rfl))
    · exact hs d (.inr (.inr hd))

theorem handOut_rep (h : Rep s (pre ++ b :: post)) (hr : 0 < r.toNat ∧ r.toNat % 8 = 0)
    (hfit : r.toNat ≤ b.size.toNat) :
    ∃ m, handOut s b.addr r = (b.payload, { s with mem := m }) ∧
      Rep { s with mem := m } (pre ++ carve r b ++ post) ∧
      SameOutside (pre ++ carve r b ++ post) s.mem m := by
  obtain ⟨hsplit, hout⟩ := h.split hr hfit
  obtain ⟨c, cs, hc, haddr, hcarve⟩ := cut_head r b
  rw [hc, List.append_assoc, List.cons_append] at hsplit hout
  obtain ⟨hfree, hout'⟩ := hsplit.setFree false
  rw [hcarve, List.append_assoc, List.cons_append]
  refine ⟨setFree (splitBlock s.mem b.addr r) c.addr 0, ?_, hfree, ?_⟩
  · rw [haddr]
    rfl
  · exact (hout.mono (by simp)).trans (hout'.mono (by simp))

/-! Growing. -/

/-- `extend_heap_to_fit` on a heap whose last block does not fit: the loop, then the tail. -/
theorem extendHeapToFit_eq (L : Layout) (h : Rep s (pre ++ [t])) (hno : fits r t = false) :
    extendHeapToFit L s r = some (match extendLoop L (pagesFor r t) s with
      | (false, s') => (false, s')
      | (true, s') => (true, { s' with
          mem := growTail s'.mem t.addr (BitVec.ofNat 32 (4096 * pagesFor r t)) })) := by
  obtain ⟨-, ht, -⟩ := linked_zipper.mp h.linked
  have hcond : ¬ ((load s.mem t.addr).free ≠ 0 ∧ r ≤ (load s.mem t.addr).size) := by
    rw [ht]
    simpa [header, fits] using hno
  have hpages : (pagesNeeded (load s.mem t.addr) r).toNat = pagesFor r t := by
    rw [ht, toNat_pagesNeeded]
  have hbytes : pagesNeeded (load s.mem t.addr) r * pageSize =
      BitVec.ofNat 32 (4096 * pagesFor r t) := by
    apply BitVec.eq_of_toNat_eq
    rw [BitVec.toNat_mul, hpages, BitVec.toNat_ofNat, Nat.mul_comm]
    rfl
  simp only [extendHeapToFit, if_neg h.head_ne, h.lastBlock, if_neg hcond, hpages, hbytes,
    if_neg (h.placed.addr_ne (b := t) (by simp)), Option.bind_eq_bind, Option.bind_some]
  rcases extendLoop L (pagesFor r t) s with ⟨_ | _, s'⟩ <;> rfl

theorem enlarge_sized {added : U32} (ht : 0 < t.size.toNat ∧ t.size.toNat % 8 = 0)
    (hsmall : t.size.toNat + added.toNat ≤ 2 ^ 26) (hadd : added.toNat % 8 = 0)
    (h24 : t.free = false → 24 < added.toNat) :
    ∀ d ∈ enlarge added [t], 0 < d.size.toNat ∧ d.size.toNat % 8 = 0 := by
  intro d hd
  cases hf : t.free with
  | true =>
    rw [enlarge_free hf, List.mem_singleton] at hd
    have hsize : (t.size + added).toNat = t.size.toNat + added.toNat := by bv_omega
    subst hd
    simp only [hsize]
    omega
  | false =>
    have := h24 hf
    have hsize : (added - 24).toNat = added.toNat - 24 := by bv_omega
    rw [enlarge_used hf, List.mem_cons, List.mem_singleton] at hd
    rcases hd with rfl | rfl
    · exact ht
    · simp only [hsize]
      omega

/-- Growth within the limit, or up to it. A used last block asks for a page at least:
`r + 24` must not wrap to nothing. -/
theorem extendHeapToFit_rep (L : Layout) (h : Rep s (pre ++ [t])) (hno : fits r t = false)
    (hk : t.free = false → 0 < pagesFor r t) :
    ∃ m pg ph me ok, extendHeapToFit L s r = some (ok,
        { s with mem := m, paging := pg, gNextFreePhys := ph, gHeapMappedEnd := me }) ∧
      me.toNat = min (s.gHeapMappedEnd.toNat + 4096 * pagesFor r t) (2 ^ 26) ∧
      (s.gHeapMappedEnd.toNat + 4096 * pagesFor r t ≤ 2 ^ 26 →
        ok = true ∧
        Rep { s with mem := m, paging := pg, gNextFreePhys := ph, gHeapMappedEnd := me }
          (pre ++ enlarge (BitVec.ofNat 32 (4096 * pagesFor r t)) [t]) ∧
        SameOutside (pre ++ enlarge (BitVec.ofNat 32 (4096 * pagesFor r t)) [t]) s.mem m) ∧
      (2 ^ 26 < s.gHeapMappedEnd.toNat + 4096 * pagesFor r t → ok = false ∧ m = s.mem) := by
  obtain ⟨pg, ph, me, hloop, hme⟩ := extendLoop_spec L (pagesFor r t) s h.page h.limit
  have heq := extendHeapToFit_eq L h hno
  rw [hloop] at heq
  have hmapped := h.mapped
  by_cases hfits : s.gHeapMappedEnd.toNat + 4096 * pagesFor r t ≤ 2 ^ 26
  · rw [decide_eq_true hfits] at heq
    have hadd : (BitVec.ofNat 32 (4096 * pagesFor r t)).toNat = 4096 * pagesFor r t := by
      rw [BitVec.toNat_ofNat]
      omega
    have hend : s.gHeapStart.toNat + room (pre ++ [t]) +
        (BitVec.ofNat 32 (4096 * pagesFor r t)).toNat ≤ 2 ^ 26 := by omega
    have h24 : t.free = false → 24 ≤ (BitVec.ofNat 32 (4096 * pagesFor r t)).toNat := by
      intro ht
      have := hk ht
      omega
    obtain ⟨hplaced, hroom⟩ := h.placed.enlarge hend h24
    obtain ⟨hlinked, hout⟩ := growTail_linked h.linked hplaced.apart
    have hroom' := h.placed.laid.bounds (x := t) (by simp)
    simp only [Block.start, Block.len, room] at hroom hroom' hend hmapped
    refine ⟨_, pg, ph, me, true, heq, hme, fun _ => ⟨rfl, ⟨?_, h.head, h.aligned, hplaced, ?_, ?_,
      ?_, ?_, hlinked⟩, hout⟩, fun hno => by omega⟩
    · cases ht : t.free <;> simp [enlarge, ht]
    · intro d hd
      rcases List.mem_append.mp hd with hd | hd
      · exact h.sized d (by simp [hd])
      · refine enlarge_sized (h.sized t (by simp)) (by omega) (by omega) ?_ d hd
        intro ht
        have := hk ht
        omega
    · simp only [room]
      omega
    · change me.toNat ≤ 2 ^ 26
      omega
    · have := h.page
      change me.toNat % 4096 = 0
      omega
  · rw [decide_eq_false hfits] at heq
    exact ⟨s.mem, pg, ph, me, false, heq, hme, fun hyes => absurd hyes hfits, fun _ => ⟨rfl, rfl⟩⟩

/-! The whole of `kmalloc`. -/

theorem find?_of_first {bs : List Block} (hbs : bs = pre ++ b :: post)
    (hpre : ∀ c ∈ pre, fits r c = false) (hb : fits r b = true) : bs.find? (fits r) = some b := by
  rw [hbs, List.find?_append, List.find?_eq_none.mpr (by simpa using hpre), Option.none_or,
    List.find?_cons_of_pos hb]

/-- No header goes away when a block is handed out. -/
theorem allocate_addrs {bs bs' : List Block} {q : U32} (ha : allocate r bs = some (q, bs')) :
    bs.map Block.addr ⊆ bs'.map Block.addr := by
  obtain ⟨pre, b, post, rfl, -, -, -, rfl⟩ := allocate_eq_some.mp ha
  obtain ⟨c, cs, -, haddr, hcarve⟩ := cut_head r b
  rw [hcarve]
  intro a h
  simp only [List.map_append, List.map_cons, List.mem_append, List.mem_cons, haddr] at h ⊢
  tauto

/-- A growth by no page at all, which would leave a used last block with a new block
of no bytes behind it, is not asked for. -/
def GrowsSoundly (r : U32) (bs : List Block) : Prop :=
  allocate r bs = none → ∀ t ∈ bs.getLast?, t.free = false → 0 < pagesFor r t

/-- First fit on the bytes is first fit on the list. -/
theorem handOut_allocate {h : Heap} {bs' : List Block} {q : U32} (hs : Holds s h)
    (hr : 0 < r.toNat ∧ r.toNat % 8 = 0) (ha : allocate r h.blocks = some (q, bs')) :
    ∃ block m, findFreeBlock s r = some block ∧ block ≠ nullptr ∧
      handOut s block r = (q, { s with mem := m }) ∧
      Holds { s with mem := m } { h with blocks := bs' } ∧ SameOutside bs' s.mem m := by
  obtain ⟨pre, b, post, hbs, hpre, hb, rfl, rfl⟩ := allocate_eq_some.mp ha
  obtain ⟨hrep, hend⟩ := hs
  rw [hbs] at hrep
  have hfit : r.toNat ≤ b.size.toNat := by
    have : b.free = true ∧ r ≤ b.size := by simpa [fits] using hb
    exact this.2
  obtain ⟨m, hout, hrep', hsame⟩ := handOut_rep hrep hr hfit
  refine ⟨b.addr, m, ?_, hrep.placed.addr_ne (by simp), hout, ⟨hrep', hend⟩, hsame⟩
  rw [hrep.findFreeBlock, find?_of_first rfl hpre hb]
  rfl

theorem findFreeBlock_none {h : Heap} (hs : Holds s h) (ha : allocate r h.blocks = none) :
    findFreeBlock s r = some nullptr := by
  have hnone : h.blocks.find? (fits r) = none := by
    simpa using allocate_eq_none.mp ha
  rw [hs.rep.findFreeBlock, hnone]
  rfl

/-! The branches of `kmalloc` behind its first test. -/

section
variable {L : Layout} {s₁ : State} {size block : U32}

theorem kmalloc_handsOut (hstart : ¬ (size = 0 ∨ s.gHeapHead = nullptr))
    (hfind : findFreeBlock s (alignUp size allocAlign) = some block) (hne : block ≠ nullptr) :
    kmalloc L s size = some (handOut s block (alignUp size allocAlign)) := by
  simp only [kmalloc, if_neg hstart, hfind, Option.bind_eq_bind, Option.bind_some, if_pos hne]
  rfl

theorem kmalloc_limit (hstart : ¬ (size = 0 ∨ s.gHeapHead = nullptr))
    (hfind : findFreeBlock s (alignUp size allocAlign) = some nullptr)
    (hext : extendHeapToFit L s (alignUp size allocAlign) = some (false, s₁)) :
    kmalloc L s size = some (nullptr, s₁) := by
  simp only [kmalloc, if_neg hstart, hfind, hext, Option.bind_eq_bind, Option.bind_some, ne_eq,
    not_true_eq_false, if_false, Bool.not_false, if_true]
  rfl

theorem kmalloc_extended (hstart : ¬ (size = 0 ∨ s.gHeapHead = nullptr))
    (hfind : findFreeBlock s (alignUp size allocAlign) = some nullptr)
    (hext : extendHeapToFit L s (alignUp size allocAlign) = some (true, s₁))
    (hagain : findFreeBlock s₁ (alignUp size allocAlign) = some block) (hne : block ≠ nullptr) :
    kmalloc L s size = some (handOut s₁ block (alignUp size allocAlign)) := by
  simp only [kmalloc, if_neg hstart, hfind, hext, hagain, Option.bind_eq_bind, Option.bind_some,
    ne_eq, not_true_eq_false, if_false, Bool.not_true, Bool.false_eq_true, if_neg hne]
  rfl

theorem kmalloc_short (hstart : ¬ (size = 0 ∨ s.gHeapHead = nullptr))
    (hfind : findFreeBlock s (alignUp size allocAlign) = some nullptr)
    (hext : extendHeapToFit L s (alignUp size allocAlign) = some (true, s₁))
    (hagain : findFreeBlock s₁ (alignUp size allocAlign) = some nullptr) :
    kmalloc L s size = some (nullptr, s₁) := by
  simp only [kmalloc, if_neg hstart, hfind, hext, hagain, Option.bind_eq_bind, Option.bind_some,
    ne_eq, not_true_eq_false, if_false, Bool.not_true, Bool.false_eq_true, if_true]
  rfl

end

/-- `kmalloc` does to the heap what `malloc` does to the list. -/
theorem kmalloc_malloc (L : Layout) {h : Heap} {size : U32} (hs : Holds s h) (hsize : size ≠ 0)
    (hle : size.toNat ≤ 0xFFFFFFF8) (hg : GrowsSoundly (alignUp size allocAlign) h.blocks) :
    ∃ m pg ph me,
      kmalloc L s size = some ((malloc (alignUp size allocAlign) h).1,
        { s with mem := m, paging := pg, gNextFreePhys := ph, gHeapMappedEnd := me }) ∧
      Holds { s with mem := m, paging := pg, gNextFreePhys := ph, gHeapMappedEnd := me }
        (malloc (alignUp size allocAlign) h).2 ∧
      SameOutside (malloc (alignUp size allocAlign) h).2.blocks s.mem m := by
  have hround := alignUp_request hsize hle
  have hr : 0 < (alignUp size allocAlign).toNat ∧ (alignUp size allocAlign).toNat % 8 = 0 :=
    ⟨hround.2.2.2, hround.2.2.1⟩
  have hstart : ¬ (size = 0 ∨ s.gHeapHead = nullptr) := not_or.mpr ⟨hsize, hs.rep.head_ne⟩
  cases ha : allocate (alignUp size allocAlign) h.blocks with
  | some x =>
    obtain ⟨q, bs'⟩ := x
    obtain ⟨block, m, hfind, hne, hout, hrep, hsame⟩ := handOut_allocate hs hr ha
    rw [malloc_fits ha]
    refine ⟨m, s.paging, s.gNextFreePhys, s.gHeapMappedEnd, ?_, hrep, hsame⟩
    rw [kmalloc_handsOut hstart hfind hne, hout]
  | none =>
    have hfind := findFreeBlock_none hs ha
    obtain ⟨pre, t, hbs⟩ := (List.eq_nil_or_concat' h.blocks).resolve_left hs.rep.ne
    have hpages : tailPages (alignUp size allocAlign) h.blocks =
        pagesFor (alignUp size allocAlign) t := by
      rw [hbs, tailPages_append]
    have hno := allocate_eq_none.mp ha t (by simp [hbs])
    have hrep : Rep s (pre ++ [t]) := hbs ▸ hs.rep
    obtain ⟨m, pg, ph, me, ok, hext, hme, hyes, hfull⟩ :=
      extendHeapToFit_rep L hrep hno (hg ha t (by simp [hbs]))
    rw [hs.mappedEnd] at hme hyes hfull
    generalize pagesFor (alignUp size allocAlign) t = n at *
    by_cases hroom : h.mappedEnd + 4096 * n ≤ 2 ^ 26
    · obtain ⟨rfl, hgrown, hsame⟩ := hyes hroom
      rw [← enlarge_append, ← hbs] at hgrown hsame
      have hs₁ : Holds { s with mem := m, paging := pg, gNextFreePhys := ph, gHeapMappedEnd := me }
          ⟨enlarge (BitVec.ofNat 32 (4096 * n)) h.blocks, h.mappedEnd + 4096 * n⟩ :=
        ⟨hgrown, hme.trans (by simp only; omega)⟩
      cases ha₁ : allocate (alignUp size allocAlign)
          (enlarge (BitVec.ofNat 32 (4096 * n)) h.blocks) with
      | some x =>
        obtain ⟨q, bs'⟩ := x
        obtain ⟨block, m', hagain, hne, hout, hrep', hsame'⟩ := handOut_allocate hs₁ hr ha₁
        rw [malloc_extended ha hpages hroom ha₁]
        refine ⟨m', pg, ph, me, ?_, hrep', (hsame.mono (allocate_addrs ha₁)).trans hsame'⟩
        rw [kmalloc_extended hstart hfind hext hagain hne, hout]
      | none =>
        rw [malloc_short ha hpages hroom ha₁]
        refine ⟨m, pg, ph, me, ?_, hs₁, hsame⟩
        exact kmalloc_short hstart hfind hext (findFreeBlock_none hs₁ ha₁)
    · obtain ⟨rfl, rfl⟩ := hfull (Nat.lt_of_not_le hroom)
      have hle := hs.rep.limit
      have hmapped := hs.mappedEnd
      rw [malloc_limit ha hpages hroom]
      refine ⟨s.mem, pg, ph, me, kmalloc_limit hstart hfind hext,
        ⟨hs.rep.remap pg ph ?_ ?_ ?_, ?_⟩, SameOutside.refl _ _⟩
      · omega
      · omega
      · omega
      · change me.toNat = 2 ^ 26
        omega

/-! `kcalloc` by way of `kmalloc`. -/

theorem toNat_product {count size : U32} (hbig : ¬ 0xFFFFFFFF < count.toNat * size.toNat) :
    (count * size).toNat = count.toNat * size.toNat := by
  rw [BitVec.toNat_mul]
  omega

theorem kcalloc_refused (L : Layout) (s : State) {count size : U32}
    (h : (count = 0 ∨ size = 0) ∨ 0xFFFFFFFF < count.toNat * size.toNat) :
    kcalloc L s count size = some (nullptr, s) := by
  by_cases hzero : count = 0 ∨ size = 0
  · rw [kcalloc, if_pos hzero]
    rfl
  · simp only [kcalloc, if_neg hzero, if_pos (h.resolve_left hzero)]
    rfl

/-- The block of `kmalloc`, if it gives one, with zeroes in it. -/
theorem kcalloc_asked (L : Layout) (s : State) {count size : U32}
    (hzero : ¬ (count = 0 ∨ size = 0)) (hbig : ¬ 0xFFFFFFFF < count.toNat * size.toNat) :
    kcalloc L s count size = (kmalloc L s (count * size)).map fun (q, s) =>
      if q = nullptr then (nullptr, s)
      else (q, { s with mem := s.mem.storeBytes q (fun _ => 0) (count * size).toNat }) := by
  have htotal : BitVec.ofNat 32 (count.toNat * size.toNat) = count * size := by
    rw [← toNat_product hbig, BitVec.ofNat_toNat, BitVec.setWidth_eq]
  simp only [kcalloc, if_neg hzero, if_neg hbig, htotal]
  cases kmalloc L s (count * size) with
  | none => rfl
  | some r =>
    by_cases hq : r.1 = nullptr
    · simp [hq]
    · simp [hq]

end Kernix.Proofs
