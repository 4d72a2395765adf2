import Kernix.Proofs.Contents

namespace Kernix.Proofs
open Library Memory Memory.HeapBlock Memory.Client

variable {c : Client} {s s' : State} {h h' : Heap} {b d : Block} {p q r : U32}

theorem krealloc_null (L : Layout) (s : State) (n : U32) :
    krealloc L s nullptr n = kmalloc L s n := by
  rw [krealloc, if_pos rfl]

theorem krealloc_zero (L : Layout) (s : State) (hp : p ≠ nullptr) :
    krealloc L s p 0 = some (nullptr, kfree s p) := by
  rw [krealloc, if_neg hp, if_pos rfl]
  rfl

theorem Reallocates.backed (hc : Backed c h) (hb : b ∈ used h.blocks)
    (ha : Reallocates c.state s' h h' b r q) :
    Backed ⟨s', if q ≠ nullptr then own (c.live.erase b.payload) q else c.live⟩ h' := by
  have hplaced := hc.holds.rep.placed
  refine ⟨ha.holds, ?_⟩
  intro p
  by_cases hq : q = nullptr
  · rw [if_neg (not_not.mpr hq), hc.live]
    simp only [(ha.kept hq).1]
  · obtain ⟨e, rfl, hrep⟩ := (ha.given hq).1
    rw [if_pos hq, own, if_neg hq, Finset.mem_insert, Finset.mem_erase, hc.live]
    constructor
    · rintro (rfl | ⟨hne, d, hd, rfl⟩)
      · exact ⟨e, (hrep.mem e).mpr (.inr rfl), rfl⟩
      · exact ⟨d, (hrep.mem d).mpr (.inl ⟨hd, fun he => hne (he ▸ rfl)⟩), rfl⟩
    · rintro ⟨d, hd, rfl⟩
      rcases (hrep.mem d).mp hd with ⟨hd, hne⟩ | rfl
      · refine .inr ⟨fun he => hne ?_, d, hd, rfl⟩
        exact hplaced.eq_of_payload (mem_of_used hd) (mem_of_used hb) he
      · exact .inl rfl

theorem Reallocates.contents_kept (hc : Backed c h) (hb : b ∈ used h.blocks)
    (ha : Reallocates c.state s' h h' b r nullptr) :
    (⟨s', c.live⟩ : Client).contents = c.contents := by
  funext p
  have hc' := ha.backed hc hb
  rw [if_neg (not_not.mpr rfl)] at hc'
  apply hc.contents_eq hc' (fun d _ => (ha.kept rfl).1 d)
  intro d hd _
  by_cases hdb : d = b
  · exact hdb ▸ (ha.kept rfl).2
  · exact ha.others d hd hdb

/-- The argument's pointer is gone, and the result stands for its bytes. -/
theorem Reallocates.contents_given (hc : Backed c h) (hb : b ∈ used h.blocks)
    (ha : Reallocates c.state s' h h' b r q) (hq : q ≠ nullptr) :
    (q = b.payload ∨ c.contents q = none) ∧ ∃ k, r.toNat ≤ k ∧ k < 2 ^ 32 ∧
      (⟨s', own (c.live.erase b.payload) q⟩ : Client).contents =
        Function.update (Function.update c.contents b.payload none) q (some (s'.mem.bytes q k)) := by
  have hc' := ha.backed hc hb
  rw [if_pos hq] at hc'
  obtain ⟨e, rfl, hrep⟩ := (ha.given hq).1
  have hfresh : e.payload = b.payload ∨ ∀ d ∈ used h.blocks, d.payload ≠ e.payload := by
    apply or_iff_not_imp_left.mpr
    intro hne d hd he
    by_cases hdb : d = b
    · exact hne (he.symm.trans (hdb ▸ rfl))
    · exact hrep.fresh d hd hdb he
  refine ⟨hfresh.imp_right hc.contents_none, e.size.toNat, hrep.enough, e.size.isLt,
    funext ?_⟩
  intro p
  by_cases hp : p = e.payload
  · rw [hp, Function.update_self, hc'.contents_used ((hrep.mem e).mpr (.inr rfl))]
  · rw [Function.update_of_ne hp]
    by_cases hpb : p = b.payload
    · rw [hpb, Function.update_self]
      apply hc'.contents_none
      intro d hd he
      rcases (hrep.mem d).mp hd with ⟨hd, hne⟩ | rfl
      · exact hne (hc.holds.rep.placed.eq_of_payload (mem_of_used hd) (mem_of_used hb) he)
      · exact hp (hpb.trans he.symm)
    · rw [Function.update_of_ne hpb]
      refine hc.contents_eq hc' ?_ fun d hd he => ha.others d hd ?_
      · intro d hd
        rw [hrep.mem]
        constructor
        · rintro (⟨hd, -⟩ | rfl)
          · exact hd
          · exact absurd hd.symm hp
        · exact fun hd' => .inl ⟨hd', fun he => hpb (hd.symm.trans (he ▸ rfl))⟩
      · exact fun hdb => hpb (he.symm.trans (hdb ▸ rfl))

/-- A client's store into a block it owns. -/
theorem write_backed (hc : Backed c h) (hb : b ∈ used h.blocks) {x : U32} (v : Byte)
    (hx : InPayload b x) :
    Backed ⟨{ c.state with mem := c.state.mem.write8 x v }, c.live⟩ h ∧
      (⟨{ c.state with mem := c.state.mem.write8 x v }, c.live⟩ : Client).contents =
        Function.update c.contents b.payload
          (some ((c.state.mem.bytes b.payload b.size.toNat).set (x - b.payload).toNat v)) := by
  have hother : ∀ y, ¬ InPayload b y → c.state.mem.write8 x v y = c.state.mem y := by
    intro y hy
    apply if_neg
    rintro rfl
    exact hy hx
  have hc' : Backed ⟨{ c.state with mem := c.state.mem.write8 x v }, c.live⟩ h :=
    ⟨⟨hc.holds.rep.congr_payload (mem_of_used hb) hother, hc.holds.mappedEnd⟩, hc.live⟩
  refine ⟨hc', funext ?_⟩
  intro p
  by_cases hp : p = b.payload
  · have hback : b.payload + BitVec.ofNat 32 (x - b.payload).toNat = x := by
      rw [BitVec.ofNat_toNat, BitVec.setWidth_eq]
      bv_omega
    have hset := Mem.bytes_write8 (m := c.state.mem) (a := b.payload) (v := v)
      (Nat.le_of_lt b.size.isLt) hx
    rw [hback] at hset
    rw [hp, Function.update_self, hc'.contents_used hb]
    exact congrArg some hset
  · rw [Function.update_of_ne hp]
    refine hc.contents_eq hc' (fun _ _ => Iff.rfl) fun d hd he y hy => hother y ?_
    refine hc.holds.rep.placed.payload_disjoint (mem_of_used hd) (mem_of_used hb) ?_ hy
    rintro rfl
    exact hp he.symm

/-- The request returns, the heap stays in order, and its clients see one step of the store. -/
def Serves (L : Layout) (c : Client) (req : Request) : Prop :=
  ∃ q s' h', serve L c.state req = some (q, s') ∧
    Backed ⟨s', liveAfter c.live (req, q)⟩ h' ∧
    StoreStep c.contents (req, q) (contents ⟨s', liveAfter c.live (req, q)⟩)

theorem serve_kmalloc (L : Layout) (hc : Backed c h) {n : U32} (hn : NoWrap c.state n.toNat) :
    Serves L c (.kmalloc n) := by
  obtain ⟨q, s', h', hrun, ha⟩ := kmalloc_allocates L hc.holds hn
  refine ⟨q, s', h', hrun, ha.backed hc, ?_⟩
  by_cases hq : q = nullptr
  · subst hq
    rw [liveAfter, own, if_pos rfl, ha.contents_failed hc]
    exact .kmallocFails n
  · obtain ⟨hnew, k, hk, -, hcontents⟩ := ha.contents_given hc hq
    rw [liveAfter, hcontents]
    exact .kmalloc hq hnew (by simpa using hk)

theorem serve_kcalloc (L : Layout) (hc : Backed c h) {k n : U32}
    (hn : NoWrap c.state (k.toNat * n.toNat)) : Serves L c (.kcalloc k n) := by
  obtain ⟨q, s', h', hrun, ha, hzero⟩ := kcalloc_allocates L hc.holds hn
  refine ⟨q, s', h', hrun, ha.backed hc, ?_⟩
  by_cases hq : q = nullptr
  · subst hq
    rw [liveAfter, own, if_pos rfl, ha.contents_failed hc]
    exact .kcallocFails k n
  · obtain ⟨hnew, l, hl, -, hcontents⟩ := ha.contents_given hc hq
    rw [liveAfter, hcontents]
    refine .kcalloc hq hnew (by simpa using hl) ?_
    apply List.ext_getElem
    · simpa using hl
    · intro i hi _
      have hi : i < k.toNat * n.toNat ∧ i < l := by simpa using hi
      simp only [List.getElem_take, Mem.getElem_bytes, List.getElem_replicate]
      exact hzero hq i hi.1

/-- A null pointer makes krealloc an allocation: there is no block to give up. -/
theorem serve_krealloc_null (L : Layout) (hc : Backed c h) {n : U32}
    (hn : NoWrap c.state n.toNat) : Serves L c (.krealloc nullptr n) := by
  obtain ⟨q, s', h', hrun, ha⟩ := kmalloc_allocates L hc.holds hn
  have hlive : liveAfter c.live (.krealloc nullptr n, q) = own c.live q := by
    rw [liveAfter, Finset.erase_eq_of_notMem hc.null_not_live, own]
    by_cases hq : q = nullptr <;> simp [hq]
  refine ⟨q, s', h', (krealloc_null L c.state n).trans hrun, ?_⟩
  rw [hlive]
  refine ⟨ha.backed hc, ?_⟩
  by_cases hq : q = nullptr
  · subst hq
    rw [own, if_pos rfl, ha.contents_failed hc]
    exact .kreallocNullFails n
  · obtain ⟨hnew, k, hk, -, hcontents⟩ := ha.contents_given hc hq
    rw [hcontents]
    exact .kreallocNull hq hnew (by simpa using hk)

/-- A zero size makes it a release. -/
theorem serve_krealloc_zero (L : Layout) (hc : Backed c h) (hb : b ∈ used h.blocks) :
    Serves L c (.krealloc b.payload 0) := by
  have hne := hc.holds.rep.placed.payload_ne (mem_of_used hb)
  obtain ⟨h', hc', hcontents⟩ := kfree_backed hc hb
  refine ⟨nullptr, _, h', krealloc_zero L c.state hne, ?_, ?_⟩
  · simpa [liveAfter, own] using hc'
  · have := StoreStep.kreallocZero (hc.isSome hb)
    rw [← hcontents] at this
    simpa [liveAfter, own] using this

theorem liveAfter_krealloc (live : Finset U32) {n : U32} (hzero : n ≠ 0) :
    liveAfter live (.krealloc p n, q) = if q ≠ nullptr then own (live.erase p) q else live := by
  simp only [liveAfter, hzero, false_or]

theorem serve_krealloc (L : Layout) (hc : Backed c h) (hb : b ∈ used h.blocks) {n : U32}
    (hzero : n ≠ 0) (hn : NoWrap c.state n.toNat) : Serves L c (.krealloc b.payload n) := by
  obtain ⟨s', hrun, ha⟩ := krealloc_realloc L hc.holds hb hzero (noWrap_le hn)
    (growsSoundly_of_noWrap hc.holds.rep hzero hn)
  have hround := (alignUp_request hzero (noWrap_le hn)).1
  generalize realloc b.payload (alignUp n allocAlign) h = x at hrun ha
  obtain ⟨q, h'⟩ := x
  dsimp only at hrun ha
  refine ⟨q, s', h', hrun, ?_, ?_⟩
  · rw [liveAfter_krealloc c.live hzero]
    exact ha.backed hc hb
  by_cases hq : q = nullptr
  · subst hq
    rw [liveAfter_krealloc c.live hzero, if_neg (not_not.mpr rfl), ha.contents_kept hc hb]
    exact .kreallocFails (hc.isSome hb) hzero
  · obtain ⟨hnew, k, hk, -, hcontents⟩ := ha.contents_given hc hb hq
    rw [liveAfter_krealloc c.live hzero, if_pos hq, hcontents]
    refine .krealloc (hc.contents_used hb) hzero hq hnew ?_ ?_
    · rw [Mem.length_bytes]
      omega
    · refine Mem.take_bytes ?_ ?_ fun i hi => (ha.given hq).2 i ?_ ?_
      · simp
      · rw [Mem.length_bytes]
        omega
      · rw [Mem.length_bytes] at hi
        omega
      · omega

theorem serve_kfree_null (L : Layout) (hc : Backed c h) : Serves L c (.kfree nullptr) := by
  refine ⟨nullptr, c.state, h, congrArg some (congrArg _ (kfree_rejected (rejected_null _))), ?_⟩
  rw [liveAfter, Finset.erase_eq_of_notMem hc.null_not_live]
  exact ⟨hc, .kfreeNull⟩

theorem serve_kfree (L : Layout) (hc : Backed c h) (hb : b ∈ used h.blocks) :
    Serves L c (.kfree b.payload) := by
  obtain ⟨h', hc', hcontents⟩ := kfree_backed hc hb
  refine ⟨nullptr, _, h', rfl, hc', ?_⟩
  rw [liveAfter, hcontents]
  exact .kfree (hc.isSome hb)

theorem serve_write (L : Layout) (hc : Backed c h) (hb : b ∈ used h.blocks) {x : U32}
    (v : Byte) (hx : InPayload b x) : Serves L c (.write x v) := by
  obtain ⟨hc', hcontents⟩ := write_backed hc hb v hx
  refine ⟨nullptr, _, h, rfl, hc', ?_⟩
  rw [liveAfter, hcontents]
  refine .write (hc.contents_used hb) (by simpa [InPayload] using hx) ?_
  rw [BitVec.ofNat_toNat, BitVec.setWidth_eq]
  bv_omega

/-- Every permitted request that does not wrap is served. -/
theorem serve_step (L : Layout) (hc : Backed c h) {req : Request} (hperm : c.Permitted req)
    (hn : NoWrap c.state req.bytes) : Serves L c req := by
  cases req with
  | kmalloc n => exact serve_kmalloc L hc hn
  | kcalloc k n => exact serve_kcalloc L hc hn
  | krealloc p n =>
    rcases hperm with rfl | hp
    · exact serve_krealloc_null L hc hn
    · obtain ⟨b, hb, rfl⟩ := (hc.live p).mp hp
      by_cases hzero : n = 0
      · exact hzero ▸ serve_krealloc_zero L hc hb
      · exact serve_krealloc L hc hb hzero hn
  | kfree p =>
    rcases hperm with rfl | hp
    · exact serve_kfree_null L hc
    · obtain ⟨b, hb, rfl⟩ := (hc.live p).mp hp
      exact serve_kfree L hc hb
  | write x v =>
    obtain ⟨p, hp, hx⟩ := hperm
    obtain ⟨b, hb, rfl⟩ := (hc.live p).mp hp
    rw [hc.holds.rep.ksize hb] at hx
    exact serve_write L hc hb v hx

end Kernix.Proofs
