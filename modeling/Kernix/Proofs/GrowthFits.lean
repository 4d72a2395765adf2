import Kernix.Memory.Growth
import Kernix.Proofs.HeapGuarantees

namespace Kernix.Proofs
open Library Memory Memory.HeapBlock Memory.Client

variable {L : Layout} {c : Client} {s s' : State} {es : List Event} {pre : List Block} {t : Block}
  {r added : U32} {lo : Nat}

/-! The list after a growth, by as many bytes as there are, none at all included. -/

/-- The last block after a growth. -/
def grownTail (added : U32) (t : Block) : Block :=
  if t.free then { t with size := t.size + added } else ⟨t.addr + 24 + t.size, added - 24, true⟩

/-- The blocks before it. -/
def beforeTail (pre : List Block) (t : Block) : List Block := if t.free then pre else pre ++ [t]

theorem append_enlarge (pre : List Block) (t : Block) (added : U32) :
    pre ++ enlarge added [t] = beforeTail pre t ++ [grownTail added t] := by
  cases hf : t.free with
  | true => simp [enlarge_free hf, beforeTail, grownTail, hf]
  | false => simp [enlarge_used hf, beforeTail, grownTail, hf]

@[simp] theorem grownTail_free (added : U32) (t : Block) : (grownTail added t).free = true := by
  unfold grownTail
  split
  · assumption
  · rfl

/-- A new block begins where the last one ends. -/
theorem grownTail_addr (hp : Placed lo (pre ++ [t])) (added : U32) (hused : t.free = false) :
    (grownTail added t).addr.toNat = t.addr.toNat + 24 + t.size.toNat := by
  have hend := hp.around.2.1
  simp only [grownTail, hused, Bool.false_eq_true, if_false]
  bv_omega

theorem enlarge_apart (hp : Placed lo (pre ++ [t])) (added : U32) :
    (pre ++ enlarge added [t]).Pairwise fun b d => Apart 20 b.addr d.addr := by
  rw [append_enlarge]
  cases hf : t.free with
  | true =>
    have hsame : (pre ++ [grownTail added t]).map Block.addr = (pre ++ [t]).map Block.addr := by
      simp [grownTail, hf]
    have hap := List.pairwise_map.mpr hp.apart
    rw [← hsame] at hap
    rw [beforeTail, hf]
    exact List.pairwise_map.mp hap
  | false =>
    have haddr := grownTail_addr hp added hf
    obtain ⟨-, hend, hbefore, -⟩ := hp.around
    simp only [beforeTail, hf, Bool.false_eq_true, if_false]
    refine List.pairwise_append.mpr ⟨hp.apart, List.pairwise_singleton .., ?_⟩
    intro b hb d hd
    rw [List.mem_singleton.mp hd]
    refine apart_of_lt ?_ (by omega)
    rcases List.mem_append.mp hb with hb | hb
    · have := hbefore b hb
      omega
    · rw [List.mem_singleton.mp hb]
      omega

theorem enlarge_addr_ne (hp : Placed lo (pre ++ [t])) (added : U32) :
    ∀ b ∈ pre ++ enlarge added [t], b.addr ≠ nullptr := by
  have hold := fun b hb => hp.addr_ne (b := b) hb
  intro b hb
  rw [append_enlarge] at hb
  cases hf : t.free with
  | true =>
    simp only [beforeTail, grownTail, hf, if_true, List.mem_append, List.mem_singleton] at hb
    rcases hb with hb | rfl
    · exact hold b (by simp [hb])
    · exact hold t (by simp)
  | false =>
    have haddr := grownTail_addr hp added hf
    simp only [beforeTail, hf, Bool.false_eq_true, if_false] at hb
    rcases List.mem_append.mp hb with hb | hb
    · exact hold b hb
    · rw [List.mem_singleton.mp hb]
      rintro hnull
      have : (0 : U32).toNat = (grownTail added t).addr.toNat := congrArg BitVec.toNat hnull.symm
      have : (0 : U32).toNat = 0 := rfl
      omega

theorem lastBlock_grown (h : Rep s (pre ++ [t])) (pg : Paging) (ph me added : U32) :
    let s' : State := { s with
      mem := growTail s.mem t.addr added, paging := pg, gNextFreePhys := ph, gHeapMappedEnd := me }
    lastBlock s' = some (grownTail added t).addr ∧
      ∃ prev, load s'.mem (grownTail added t).addr = header (grownTail added t) prev nullptr := by
  obtain ⟨hl, -⟩ := growTail_linked h.linked (enlarge_apart h.placed added)
  have hne := enlarge_addr_ne h.placed added
  have hlen := h.length_lt
  have hhead : firstAddr (pre ++ enlarge added [t]) nullptr = s.gHeapHead := by
    rw [← h.firstAddr]
    cases hf : t.free with
    | true => simp [enlarge_free hf]
    | false => simp [enlarge_used hf]
  have hbefore : (beforeTail pre t).length < walkFuel := by
    have : (beforeTail pre t).length ≤ (pre ++ [t]).length := by
      unfold beforeTail
      split
      · simp
      · rfl
    omega
  rw [append_enlarge] at hl hne hhead
  exact ⟨lastBlock_linked hhead h.head_ne hl hne hbefore, _, (linked_zipper.mp hl).2.1⟩

theorem Rep.length_le {bs : List Block} (h : Rep s bs) : bs.length ≤ 2 ^ 26 := by
  have hlen : bs.length ≤ span Block.len bs :=
    length_le_span fun b _ => Nat.lt_of_lt_of_le (by decide) (Nat.le_add_right 24 b.size.toNat)
  have hhigh := h.placed.high
  simp only [room] at hhigh
  omega

/-- The first block that fits, in the list after a growth. -/
theorem findFreeBlock_grown (h : Rep s (pre ++ [t])) (pg : Paging) (ph me added r : U32) :
    findFreeBlock { s with
        mem := growTail s.mem t.addr added, paging := pg, gNextFreePhys := ph
        gHeapMappedEnd := me } r =
      some ((((pre ++ enlarge added [t]).find? (fits r)).map Block.addr).getD nullptr) := by
  obtain ⟨hl, -⟩ := growTail_linked h.linked (enlarge_apart h.placed added)
  have hhead : firstAddr (pre ++ enlarge added [t]) nullptr = s.gHeapHead := by
    rw [← h.firstAddr]
    cases hf : t.free with
    | true => simp [enlarge_free hf]
    | false => simp [enlarge_used hf]
  have hlen : (pre ++ enlarge added [t]).length < walkFuel := by
    have hbefore := h.length_le
    have hlonger : (pre ++ enlarge added [t]).length ≤ (pre ++ [t]).length + 1 := by
      cases hf : t.free with
      | true => simp [enlarge_free hf]
      | false => simp [enlarge_used hf]
    unfold walkFuel
    omega
  rw [Memory.findFreeBlock]
  dsimp only
  rw [← hhead]
  exact findFreeBlockLoop_linked hl (enlarge_addr_ne h.placed added) hlen

/-- Once the heap has grown the last block is free, so it is its size and its end that decide. -/
theorem tailHolds_iff (h : Rep s (pre ++ [t])) (pg : Paging) (ph me added : U32) :
    TailHolds { s with
        mem := growTail s.mem t.addr added, paging := pg, gNextFreePhys := ph
        gHeapMappedEnd := me } r ↔
      r ≤ (grownTail added t).size ∧ (grownTail added t).addr < me ∧
        (grownTail added t).addr.toNat + 24 + (grownTail added t).size.toNat ≤ me.toNat := by
  obtain ⟨hlast, prev, hload⟩ := lastBlock_grown h pg ph me added
  have hne : (grownTail added t).addr ≠ nullptr :=
    enlarge_addr_ne h.placed added _ (by simp [append_enlarge])
  simp only [TailHolds, hlast, Option.some.injEq, exists_eq_left', hload, header, grownTail_free,
    flag_true, hne, ne_eq, not_false_eq_true, true_and]
  simp

/-- The last block holds what was asked for exactly where its new bytes do. -/
theorem tailHolds_grown (h : Rep s (pre ++ [t])) (pg : Paging) (ph : U32) {me : U32} {pages : Nat}
    (hme : me.toNat = s.gHeapMappedEnd.toNat + 4096 * pages) (hlimit : me.toNat ≤ 2 ^ 26) :
    TailHolds { s with
        mem := growTail s.mem t.addr (BitVec.ofNat 32 (4096 * pages)), paging := pg
        gNextFreePhys := ph, gHeapMappedEnd := me } r ↔
      if t.free then r.toNat ≤ t.size.toNat + 4096 * pages else r.toNat + 24 ≤ 4096 * pages := by
  have hbounds := h.bounds (b := t) (by simp)
  have hadded : (BitVec.ofNat 32 (4096 * pages)).toNat = 4096 * pages := by
    rw [BitVec.toNat_ofNat]
    omega
  rw [tailHolds_iff h]
  generalize BitVec.ofNat 32 (4096 * pages) = added at hadded ⊢
  cases hf : t.free with
  | true =>
    have hsize : (grownTail added t).size.toNat = t.size.toNat + 4096 * pages := by
      simp only [grownTail, hf, if_true]
      bv_omega
    have haddr : (grownTail added t).addr = t.addr := by simp [grownTail, hf]
    rw [if_pos rfl, BitVec.le_def, BitVec.lt_def, hsize, haddr]
    omega
  | false =>
    have hsize : (grownTail added t).size.toNat = (4096 * pages + (2 ^ 32 - 24)) % 2 ^ 32 := by
      simp only [grownTail, hf, Bool.false_eq_true, if_false]
      bv_omega
    have haddr := grownTail_addr h.placed added hf
    rw [if_neg Bool.false_ne_true, BitVec.le_def, BitVec.lt_def, hsize, haddr]
    -- by no page at all the new block has 2^32 - 24 bytes and runs past every end
    omega

theorem extendHeapToFit_holds_iff (L : Layout) (h : Rep s (pre ++ [t])) (hno : fits r t = false) :
    (∀ s', extendHeapToFit L s r = some (true, s') → TailHolds s' r) ↔
      (s.gHeapMappedEnd.toNat + 4096 * pagesFor r t ≤ 2 ^ 26 →
        if t.free then r.toNat ≤ t.size.toNat + 4096 * pagesFor r t
        else r.toNat + 24 ≤ 4096 * pagesFor r t) := by
  obtain ⟨pg, ph, me, hloop, hme⟩ := extendLoop_spec L (pagesFor r t) s h.page h.limit
  have heq := extendHeapToFit_eq L h hno
  rw [hloop] at heq
  by_cases hroom : s.gHeapMappedEnd.toNat + 4096 * pagesFor r t ≤ 2 ^ 26
  · have hmapped : me.toNat = s.gHeapMappedEnd.toNat + 4096 * pagesFor r t := by omega
    rw [decide_eq_true hroom] at heq
    rw [imp_iff_right hroom, ← tailHolds_grown h pg ph hmapped (by omega), heq]
    simp
  · rw [decide_eq_false hroom] at heq
    rw [heq]
    exact iff_of_true (by simp) (fun hyes => absurd hyes hroom)

/-! The pages, as the code counts them, hold the bytes asked for. -/

theorem enough_free (hfree : t.free = true) (hr : t.size.toNat < r.toNat) :
    r.toNat ≤ t.size.toNat + 4096 * pagesFor r t ↔ (r - t.size).toNat ≤ 0xFFFFF000 := by
  have hneed : (r - t.size).toNat = r.toNat - t.size.toNat := by bv_omega
  have := r.isLt
  rw [pagesFor, hfree, if_pos rfl, hneed]
  omega

theorem enough_used {me : Nat} (hused : t.free = false) (hr : r.toNat % 8 = 0)
    (hpage : me % 4096 = 0) (hlimit : me ≤ 2 ^ 26) :
    (me + 4096 * pagesFor r t ≤ 2 ^ 26 → r.toNat + 24 ≤ 4096 * pagesFor r t) ↔
      r.toNat + 24 ≤ 0xFFFFF000 ∨ 0xFFFFFFF0 ≤ r.toNat ∧ me = 2 ^ 26 := by
  have hneed : (r + 24).toNat = (r.toNat + 24) % 2 ^ 32 := by
    rw [BitVec.toNat_add]
    rfl
  have := r.isLt
  rw [pagesFor, hused, if_neg Bool.false_ne_true, hneed]
  omega

theorem Rep.roundsUp_iff (h : Rep s (pre ++ [t])) : RoundsUp s r ↔
    if t.free then (r - t.size).toNat ≤ 0xFFFFF000
    else r.toNat + 24 ≤ 0xFFFFF000 ∨
      0xFFFFFFF0 ≤ r.toNat ∧ s.gHeapMappedEnd.toNat = 2 ^ 26 := by
  obtain ⟨-, ht, -⟩ := linked_zipper.mp h.linked
  have hend : s.gHeapMappedEnd = heapVirtLimit ↔ s.gHeapMappedEnd.toNat = 2 ^ 26 := by
    rw [← BitVec.toNat_inj]
    rfl
  simp only [RoundsUp, h.lastBlock, Option.some.injEq, forall_eq', ht, header, flag_ne_zero, hend]
  rfl

theorem Rep.none_fits {bs : List Block} (h : Rep s bs) (hno : Memory.findFreeBlock s r = some nullptr) :
    ∀ b ∈ bs, fits r b = false := by
  rw [h.findFreeBlock] at hno
  cases hfind : bs.find? (fits r) with
  | none => simpa using hfind
  | some b =>
    rw [hfind] at hno
    exact absurd (Option.some.inj hno) (h.placed.addr_ne (List.mem_of_find?_eq_some hfind))

/-- After every run of requests that do not wrap, a growth that is reported to have worked leaves
the block it was made for, exactly where the bytes it needs round up to a page. -/
theorem growth_fits_iff (L : Layout) (kernelEnd : U32) (s : State)
    (hk : kernelEnd < identityMapLimit) (hon : (kmallocInit kernelEnd s).gHeapHead ≠ nullptr)
    (hrun : Run (Guarded (fun c e => NoWrap c.state e.1.bytes) (Client.Step L))
      (Client.start (kmallocInit kernelEnd s)) es c)
    (hr : r.toNat % 8 = 0) (hno : findFreeBlock c.state r = some nullptr) :
    (∃ x, extendHeapToFit L c.state r = some x) ∧
      ((∀ s', extendHeapToFit L c.state r = some (true, s') → TailHolds s' r) ↔
        RoundsUp c.state r) := by
  obtain ⟨h, hc⟩ := run_backed hk hon hrun
  have hrep := hc.holds.rep
  obtain ⟨pre, t, hbs⟩ := (List.eq_nil_or_concat' h.blocks).resolve_left hrep.ne
  rw [hbs] at hrep
  have hnot := hrep.none_fits hno t (by simp)
  refine ⟨⟨_, extendHeapToFit_eq L hrep hnot⟩, ?_⟩
  rw [extendHeapToFit_holds_iff L hrep hnot, hrep.roundsUp_iff]
  cases hf : t.free with
  | true =>
    have hlt : t.size < r := by simpa [fits, hf] using hnot
    have henough := enough_free hf (BitVec.lt_def.mp hlt)
    have hlimit := hrep.limit
    simp only [if_true]
    rw [henough]
    refine ⟨fun hholds => ?_, fun hround _ => hround⟩
    by_contra hbig
    -- a sum that wraps asks for no page, and there is room for none
    have hnone : pagesFor r t = 0 := by
      have := (r - t.size).isLt
      rw [pagesFor, hf, if_pos rfl]
      omega
    exact hbig (hholds (by omega))
  | false =>
    simp only [Bool.false_eq_true, if_false]
    exact enough_used hf hr hrep.page hrep.limit

theorem boot_none : findFreeBlock bootState 0x00400000 = some nullptr := by decide

theorem growth_fits_iff_boot : (∃ x, extendHeapToFit bootLayout bootState 0x00400000 = some x) ∧
    ((∀ s', extendHeapToFit bootLayout bootState 0x00400000 = some (true, s') →
      TailHolds s' 0x00400000) ↔ RoundsUp bootState 0x00400000) := by
  have hround : (0x00400000 : U32).toNat % 8 = 0 := by decide
  exact growth_fits_iff (c := Client.start bootState) bootLayout 0x123456 blankState (by decide)
    (by decide) .nil hround boot_none

/-! The same heap with all its pages mapped and its one block handed out. -/

/-- A request larger than any heap is refused with the pages mapped up to the limit. -/
theorem refused_boot : ∃ s', kmalloc bootLayout bootState 0x08000000 = some (nullptr, s') ∧
    Holds s' ⟨(initialHeap 0x123456).blocks, 2 ^ 26⟩ := by
  have hholds : Holds bootState (initialHeap 0x123456) :=
    kmallocInit_holds blankState (by decide) (by decide)
  obtain ⟨m, pg, ph, me, hrun, hafter, -⟩ := kmalloc_malloc bootLayout hholds
    (show (0x08000000 : U32) ≠ 0 by decide) (by decide)
    (growsSoundly_of_noWrap hholds.rep (by decide) (by unfold NoWrap; decide))
  have hmalloc : malloc (alignUp 0x08000000 allocAlign) (initialHeap 0x123456) =
      (0, ⟨(initialHeap 0x123456).blocks, 2 ^ 26⟩) := by rfl
  rw [hmalloc] at hrun hafter
  exact ⟨_, hrun, hafter⟩

theorem whole_run : ∃ es c,
    Run (Guarded (fun c e => NoWrap c.state e.1.bytes) (Client.Step bootLayout))
      (Client.start bootState) es c ∧
      Holds c.state ⟨[] ++ [⟨0x123458, 0x2DCB90, false⟩], 2 ^ 26⟩ := by
  obtain ⟨s', hrefused, hholds⟩ := refused_boot
  obtain ⟨m, pg, ph, me, hrun, hafter, -⟩ := kmalloc_malloc bootLayout hholds
    (show (0x2DCB90 : U32) ≠ 0 by decide) (by decide)
    (growsSoundly_of_noWrap hholds.rep (by decide) (noWrap_of_small (by decide)))
  have hmalloc : malloc (alignUp 0x2DCB90 allocAlign) ⟨(initialHeap 0x123456).blocks, 2 ^ 26⟩ =
      (0x123470, ⟨[⟨0x123458, 0x2DCB90, false⟩], 2 ^ 26⟩) := by rfl
  rw [hmalloc] at hrun hafter
  have hfirst : Guarded (fun c e => NoWrap c.state e.1.bytes) (Client.Step bootLayout)
      (Client.start bootState) (.kmalloc 0x08000000, nullptr) ⟨s', own ∅ nullptr⟩ := by
    refine ⟨?_, trivial, s', hrefused, rfl⟩
    change NoWrap bootState 0x08000000
    unfold NoWrap
    decide
  have hsecond : Guarded (fun c e => NoWrap c.state e.1.bytes) (Client.Step bootLayout)
      ⟨s', own ∅ nullptr⟩ (.kmalloc 0x2DCB90, 0x123470) ⟨_, own (own ∅ nullptr) 0x123470⟩ :=
    ⟨noWrap_of_small (by decide), trivial, _, hrun, rfl⟩
  exact ⟨_, _, (Run.single hfirst).snoc hsecond, hafter⟩

/-- A growth for 0xFFFFF000 bytes maps no page and makes a block of 0xFFFFFFE8 bytes. -/
theorem growth_fits_not : ∃ es c s',
    Run (Guarded (fun c e => NoWrap c.state e.1.bytes) (Client.Step bootLayout))
      (Client.start bootState) es c ∧ c.state.gHeapMappedEnd.toNat = 2 ^ 26 ∧
    findFreeBlock c.state 0xFFFFF000 = some nullptr ∧
    extendHeapToFit bootLayout c.state 0xFFFFF000 = some (true, s') ∧ ¬ TailHolds s' 0xFFFFF000 := by
  obtain ⟨es, c, hrun, hholds⟩ := whole_run
  have hno : fits 0xFFFFF000 ⟨0x123458, 0x2DCB90, false⟩ = false := by decide
  have hpages : pagesFor 0xFFFFF000 ⟨0x123458, 0x2DCB90, false⟩ = 0 := by decide
  have hrep : Rep c.state ([] ++ [⟨0x123458, 0x2DCB90, false⟩]) := hholds.rep
  have hfind : findFreeBlock c.state 0xFFFFF000 = some nullptr := by
    rw [hrep.findFreeBlock]
    decide
  have hgrown := extendHeapToFit_eq bootLayout hrep hno
  rw [hpages] at hgrown
  refine ⟨es, c, _, hrun, hholds.mappedEnd, hfind, hgrown, fun htail => ?_⟩
  have hholds_iff := (extendHeapToFit_holds_iff bootLayout hrep hno).mp
  rw [hpages, hgrown] at hholds_iff
  have henough := hholds_iff (fun s' hs' => (Prod.mk.inj (Option.some.inj hs')).2 ▸ htail)
    (Nat.le_of_eq hholds.mappedEnd)
  exact absurd henough (by decide)

end Kernix.Proofs
