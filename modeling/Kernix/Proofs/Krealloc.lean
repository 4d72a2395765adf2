import Kernix.Proofs.Payloads

namespace Kernix.Proofs
open Library Memory Memory.HeapBlock

variable {s : State} {lo : Nat} {bs pre post : List Block} {b c d : Block} {m : Mem} {r : U32}

/-- The copy loop stores the source's bytes, if it overwrites neither the source nor the
size it reads at every turn. -/
theorem copyLoop_storeBytes (m : Mem) (block dst src : U32)
    (hheader : ∀ x, InHeader block x → (load m block).size.toNat ≤ (x - dst).toNat)
    (hsrc : ∀ i < (load m block).size.toNat,
      (load m block).size.toNat ≤ (src + BitVec.ofNat 32 i - dst).toNat)
    (fuel i : Nat) (hi : i ≤ (load m block).size.toNat)
    (hfuel : (load m block).size.toNat < fuel + i) :
    copyLoop block dst src fuel (BitVec.ofNat 32 i)
        (m.storeBytes dst (fun j => m (src + BitVec.ofNat 32 j)) i) =
      m.storeBytes dst (fun j => m (src + BitVec.ofNat 32 j)) (load m block).size.toNat := by
  have hlt := (load m block).size.isLt
  generalize hf : (fun j => m (src + BitVec.ofNat 32 j)) = f
  induction fuel generalizing i with
  | zero => omega
  | succ fuel ih =>
    have hsize : (load (m.storeBytes dst f i) block).size = (load m block).size := by
      refine congrArg HeapBlock.size (load_congr ?_)
      intro x hx
      exact Mem.storeBytes_outside (by omega) (Nat.le_trans hi (hheader x hx))
    have hi32 : (BitVec.ofNat 32 i).toNat = i := by
      rw [BitVec.toNat_ofNat]
      omega
    rw [copyLoop, hsize]
    rcases Nat.lt_or_ge i (load m block).size.toNat with hlt | hge
    · have hbyte : m.storeBytes dst f i (src + BitVec.ofNat 32 i) = f i := by
        rw [← hf]
        exact Mem.storeBytes_outside (by omega) (Nat.le_trans hi (hsrc i hlt))
      have hnext : BitVec.ofNat 32 i + 1 = BitVec.ofNat 32 (i + 1) := by bv_omega
      have hcond : BitVec.ofNat 32 i < (load m block).size := by
        rw [BitVec.lt_def, hi32]
        exact hlt
      rw [if_pos hcond, hbyte, hnext]
      exact ih (i + 1) hlt (by omega)
    · have hcond : ¬ BitVec.ofNat 32 i < (load m block).size := by
        rw [BitVec.lt_def, hi32]
        omega
      have heq : i = (load m block).size.toNat := by omega
      rw [if_neg hcond, heq]

/-- Resized in place, a used block keeps its address and its neighbours. -/
theorem used_resize (hb : b.free = false) (hr : resize r b post = some bs) :
    ∃ c, used bs = c :: used post ∧ c.addr = b.addr ∧ c.free = false ∧ r ≤ c.size := by
  unfold resize at hr
  split at hr
  · rename_i hle
    obtain ⟨c, hc, haddr, hfree, hrc, -⟩ := used_cut hb hle
    simp only [Option.some.injEq] at hr
    exact ⟨c, by rw [← hr, used_append, hc]; rfl, haddr, hfree, hrc⟩
  · obtain ⟨c, rest, hm, haddr, hfree, hrest⟩ := used_mergeNext b post
    rw [hm] at hr
    simp only [Option.ite_none_right_eq_some, Option.some.injEq] at hr
    obtain ⟨hle, rfl⟩ := hr
    obtain ⟨c', hc, haddr', hfree', hrc, -⟩ := used_cut (hfree.trans hb) hle
    exact ⟨c', by rw [used_append, hc, hrest]; rfl, haddr'.trans haddr, hfree', hrc⟩

/-- Where `krealloc` starts: the block of a live pointer, and its header. -/
theorem krealloc_start (L : Layout) {size : U32} (h : Rep s (pre ++ b :: post))
    (hb : b.free = false) (hsize : size ≠ 0) :
    krealloc L s b.payload size =
      let r := alignUp size allocAlign
      let next := firstAddr post nullptr
      if r ≤ b.size then some (b.payload, { s with mem := splitBlock s.mem b.addr r })
      else if next ≠ nullptr ∧ (load s.mem next).free ≠ 0 ∧
          (load s.mem next).magic = blockMagic ∧ r ≤ b.size + 24 + (load s.mem next).size then
        some (b.payload, { s with mem := splitBlock (coalesceWithNext s.mem b.addr) b.addr r })
      else do
        let (q, s') ← kmalloc L s r
        if q = nullptr then return (nullptr, s')
        let m := copyLoop b.addr q b.payload (2 ^ 32) 0 s'.mem
        return (q, kfree { s' with mem := m } b.payload) := by
  have hblock := h.blockFromPtr (b := b) (by simp)
  have hload := (linked_zipper.mp h.linked).2.1
  have hfree : (load s.mem b.addr).free = 0 := by rw [hload, header, hb, flag_false]
  have hsize' : (load s.mem b.addr).size = b.size := by rw [hload, header]
  have hnext : (load s.mem b.addr).next = firstAddr post nullptr := by rw [hload, header]
  have hguard : ¬ (b.addr = nullptr ∨ (load s.mem b.addr).free ≠ 0) :=
    not_or.mpr ⟨h.placed.addr_ne (by simp), not_not.mpr hfree⟩
  simp only [krealloc, if_neg (h.placed.payload_ne (b := b) (by simp)), if_neg hsize, hblock,
    if_neg hguard, hsize', hnext, headerSize_eq]
  rfl

/-- An edit that leaves `b` where it was, `r` bytes long at least, keeps the other payloads
and the first `r` bytes of its own. -/
theorem SameOutside.resized {ds : List Block} {m' : Mem} {x : U32} (h : SameOutside ds m m')
    (hp : Placed lo ds) (hu : used ds = used pre ++ c :: used post) (hb : b.free = false)
    (haddr : c.addr = b.addr) (hr : r ≤ c.size) (hd : d ∈ used (pre ++ b :: post))
    (hx : InPayload d x) (hxr : d = b → (x - b.payload).toNat < r.toNat) : m' x = m x := by
  have hin : ∀ e ∈ used pre ++ c :: used post, InPayload e x → m' x = m x := by
    intro e he hex
    exact h.payload hp (mem_of_used (hu ▸ he)) hex
  rw [used_append, used_cons_used post hb, List.mem_append, List.mem_cons] at hd
  rcases hd with hd | rfl | hd
  · exact hin d (by simp [hd]) hx
  · apply hin c (by simp)
    have := hxr rfl
    unfold InPayload Block.payload at *
    rw [haddr]
    exact Nat.lt_of_lt_of_le this hr
  · exact hin d (by simp [hd]) hx

/-- `krealloc` that keeps the block: the list is resized, and only headers are written. -/
theorem krealloc_resize (L : Layout) {size : U32} (h : Rep s (pre ++ b :: post))
    (hb : b.free = false) (hsize : size ≠ 0) (hle : size.toNat ≤ 0xFFFFFFF8)
    (hr : resize (alignUp size allocAlign) b post = some bs) :
    ∃ m, krealloc L s b.payload size = some (b.payload, { s with mem := m }) ∧
      Rep { s with mem := m } (pre ++ bs) ∧
      ∀ d ∈ used (pre ++ b :: post), ∀ x, InPayload d x →
        (d = b → (x - b.payload).toNat < (alignUp size allocAlign).toNat) → m x = s.mem x := by
  have hrun := krealloc_start L h hb hsize
  have hround := alignUp_request hsize hle
  obtain ⟨c, hu, haddr, hfree, hrc⟩ := used_resize hb hr
  generalize alignUp size allocAlign = r at *
  have hpos : 0 < r.toNat ∧ r.toNat % 8 = 0 := ⟨hround.2.2.2, hround.2.2.1⟩
  have hu' : used (pre ++ bs) = used pre ++ c :: used post := by rw [used_append, hu]
  unfold resize at hr
  split at hr
  · rename_i hfit
    obtain ⟨hrep, hout⟩ := h.split hpos hfit
    simp only [Option.some.injEq] at hr
    rw [List.append_assoc, hr] at hrep hout
    refine ⟨_, by rw [hrun]; exact if_pos hfit, hrep, ?_⟩
    intro d hd x hx hxr
    exact hout.resized hrep.placed hu' hb haddr hrc hd hx hxr
  · rename_i hfit
    cases post with
    | nil =>
      simp only [mergeNext, Option.ite_none_right_eq_some] at hr
      exact absurd hr.1 hfit
    | cons n post =>
      cases hn : n.free with
      | false =>
        rw [mergeNext_used hn] at hr
        simp only [Option.ite_none_right_eq_some] at hr
        exact absurd hr.1 hfit
      | true =>
        rw [mergeNext_free hn] at hr
        simp only [Option.ite_none_right_eq_some, Option.some.injEq] at hr
        obtain ⟨hfit', rfl⟩ := hr
        have hload := (linked_zipper.mp h.linked).2.2.1
        obtain ⟨hmerge, hout₁⟩ := h.coalesce
        rw [mergeNext_free hn] at hmerge
        obtain ⟨hrep, hout₂⟩ := hmerge.split hpos hfit'
        rw [List.append_assoc] at hrep hout₂
        have hcond : firstAddr (n :: post) nullptr ≠ nullptr ∧
            (load s.mem (firstAddr (n :: post) nullptr)).free ≠ 0 ∧
            (load s.mem (firstAddr (n :: post) nullptr)).magic = blockMagic ∧
            r ≤ b.size + 24 + (load s.mem (firstAddr (n :: post) nullptr)).size := by
          rw [firstAddr_cons, hload, header, hn]
          exact ⟨h.placed.addr_ne (by simp), by simp, rfl, by rwa [BitVec.add_assoc]⟩
        refine ⟨_, by rw [hrun]; exact (if_neg hfit).trans (if_pos hcond), hrep,
          ?_⟩
        intro d hd x hx hxr
        refine (hout₂.resized hrep.placed hu' hb haddr hrc hd hx hxr).trans ?_
        exact hout₁.payload h.placed (mem_of_used hd) hx

/-- A rounded size is its own rounding. -/
theorem alignUp_rounded (hr : r.toNat % 8 = 0) : alignUp r allocAlign = r := by
  apply BitVec.eq_of_toNat_eq
  rw [toNat_alignUp_alloc]
  omega

/-- Two used blocks of one heap, and the bytes of the first stored into the second: the copy
loop does just that, and the list stays. -/
theorem Rep.copy (h : Rep s bs) (hb : b ∈ bs) (hc : c ∈ bs) (hne : b ≠ c)
    (hle : b.size.toNat ≤ c.size.toNat) :
    ∃ m, copyLoop b.addr c.payload b.payload (2 ^ 32) 0 s.mem = m ∧ Rep { s with mem := m } bs ∧
      (∀ x, ¬ InPayload c x → m x = s.mem x) ∧
      ∀ i < b.size.toNat,
        m (c.payload + BitVec.ofNat 32 i) = s.mem (b.payload + BitVec.ofNat 32 i) := by
  have hsize : (load s.mem b.addr).size = b.size := by
    obtain ⟨pre, post, rfl⟩ := List.append_of_mem hb
    rw [(linked_zipper.mp h.linked).2.1, header]
  have hout : ∀ x, ¬ InPayload c x → b.size.toNat ≤ (x - c.payload).toNat := by
    intro x hx
    exact Nat.le_trans hle (Nat.le_of_not_lt hx)
  have hlt := b.size.isLt
  have hcopy := copyLoop_storeBytes s.mem b.addr c.payload b.payload ?_ ?_ (2 ^ 32) 0
    (Nat.zero_le _) (by omega)
  · rw [hsize] at hcopy
    have hrest : ∀ x, ¬ InPayload c x →
        s.mem.storeBytes c.payload (fun j => s.mem (b.payload + BitVec.ofNat 32 j)) b.size.toNat x =
          s.mem x :=
      fun x hx => Mem.storeBytes_outside (Nat.le_of_lt hlt) (hout x hx)
    exact ⟨_, hcopy, h.congr_payload hc hrest, hrest,
      fun i hi => Mem.storeBytes_inside (Nat.le_of_lt hlt) hi⟩
  · intro x hx
    rw [hsize]
    exact hout x fun hin => h.placed.payload_outside hc hin b hb hx
  · intro i hi
    rw [hsize] at hi ⊢
    refine hout _ (h.placed.payload_disjoint hb hc hne ?_)
    unfold InPayload
    bv_omega

theorem inPayload_offset {i : Nat} (hi : i < b.size.toNat) :
    InPayload b (b.payload + BitVec.ofNat 32 i) := by
  unfold InPayload
  bv_omega

/-- The end of a move: the copy, then the free of the block that was copied. -/
theorem Rep.copy_kfree (h : Rep s bs) (hb : b ∈ used bs) (hc : c ∈ used bs) (hne : b ≠ c)
    (hle : b.size.toNat ≤ c.size.toNat) :
    ∃ m, kfree { s with mem := copyLoop b.addr c.payload b.payload (2 ^ 32) 0 s.mem } b.payload =
        { s with mem := m } ∧
      Rep { s with mem := m } (freeAt b.payload bs) ∧
      (∀ d ∈ used bs, d ≠ c → ∀ x, InPayload d x → m x = s.mem x) ∧
      ∀ i < b.size.toNat,
        m (c.payload + BitVec.ofNat 32 i) = s.mem (b.payload + BitVec.ofNat 32 i) := by
  obtain ⟨m₁, hcopy, hrep, hrest, hbytes⟩ := h.copy (mem_of_used hb) (mem_of_used hc) hne hle
  obtain ⟨hmem, hfree⟩ := mem_used.mp hb
  obtain ⟨pre, post, rfl⟩ := List.append_of_mem hmem
  obtain ⟨m₂, hrun, hrep', hout⟩ := kfree_release hrep hfree
  refine ⟨m₂, by rw [hcopy, hrun], by rw [h.placed.freeAt hfree]; exact hrep', ?_, ?_⟩
  · intro d hd hdc x hx
    refine (hout.payload hrep.placed (mem_of_used hd) hx).trans (hrest x ?_)
    exact h.placed.payload_disjoint (mem_of_used hd) (mem_of_used hc) hdc hx
  · intro i hi
    have hin : InPayload c (c.payload + BitVec.ofNat 32 i) :=
      inPayload_offset (Nat.lt_of_lt_of_le hi hle)
    exact (hout.payload hrep.placed (mem_of_used hc) hin).trans (hbytes i hi)

/-- `c`, of `r` bytes at least, takes the place of `b` among the used blocks. -/
structure Replaces (r : U32) (bs : List Block) (b c : Block) (bs' : List Block) : Prop where
  free : c.free = false
  enough : r ≤ c.size
  fresh : ∀ d ∈ used bs, d ≠ b → d.payload ≠ c.payload
  mem : ∀ d, d ∈ used bs' ↔ (d ∈ used bs ∧ d ≠ b) ∨ d = c

theorem Adds.replaces {lo' : Nat} {bs' : List Block} (h : Adds r bs c bs') (hp : Placed lo bs)
    (hp' : Placed lo' bs') (hb : b ∈ used bs) : Replaces r bs b c (freeAt b.payload bs') := by
  refine ⟨h.free, h.enough, fun d hd _ => h.fresh d hd, ?_⟩
  intro d
  rw [hp'.mem_used_freeAt ((h.mem b).mpr (.inl hb)), h.mem]
  constructor
  · rintro ⟨hd | rfl, hne⟩
    · exact .inl ⟨hd, fun he => hne (congrArg Block.payload he)⟩
    · exact .inr rfl
  · rintro (⟨hd, hne⟩ | rfl)
    · exact ⟨.inl hd, fun he => hne (hp.eq_of_payload (mem_of_used hd) (mem_of_used hb) he)⟩
    · exact ⟨.inr rfl, (h.fresh b hb).symm⟩

theorem resize_replaces (hp : Placed lo (pre ++ b :: post)) (hb : b.free = false)
    (hr : resize r b post = some bs) :
    ∃ c, c.payload = b.payload ∧ Replaces r (pre ++ b :: post) b c (pre ++ bs) := by
  obtain ⟨c, hu, haddr, hfree, hrc⟩ := used_resize hb hr
  have hold : used (pre ++ b :: post) = used pre ++ b :: used post := by
    rw [used_append, used_cons_used post hb]
  have hnew : used (pre ++ bs) = used pre ++ c :: used post := by rw [used_append, hu]
  have hpayload : c.payload = b.payload := congrArg (· + 24) haddr
  have hpb : b ∉ used pre ++ used post := fun hin => hp.fresh hold b hin rfl
  refine ⟨c, hpayload, hfree, hrc, fun d hd hne he => hne ?_, ?_⟩
  · exact hp.eq_of_payload (mem_of_used hd) (by simp) (he.trans hpayload)
  · intro d
    simp only [hold, hnew, List.mem_append, List.mem_cons] at hpb ⊢
    constructor
    · rintro (hd | rfl | hd)
      · exact .inl ⟨.inl hd, fun he => hpb (.inl (he ▸ hd))⟩
      · exact .inr rfl
      · exact .inl ⟨.inr (.inr hd), fun he => hpb (.inr (he ▸ hd))⟩
    · rintro (⟨hd | rfl | hd, hne⟩ | rfl)
      · exact .inl hd
      · exact absurd rfl hne
      · exact .inr (.inr hd)
      · exact .inr (.inl rfl)

/-- What `krealloc` of the used block `b` comes to: `q` returned, `s'` and `h'` left. -/
structure Reallocates (s s' : State) (h h' : Heap) (b : Block) (r q : U32) : Prop where
  holds : Holds s' h'
  start : s'.gHeapStart = s.gHeapStart
  others : ∀ d ∈ used h.blocks, d ≠ b → ∀ x, InPayload d x → s'.mem x = s.mem x
  kept : q = nullptr → (∀ d, d ∈ used h'.blocks ↔ d ∈ used h.blocks) ∧
    ∀ x, InPayload b x → s'.mem x = s.mem x
  given : q ≠ nullptr → (∃ c, c.payload = q ∧ Replaces r h.blocks b c h'.blocks) ∧
    ∀ i < b.size.toNat, i < r.toNat →
      s'.mem (q + BitVec.ofNat 32 i) = s.mem (b.payload + BitVec.ofNat 32 i)

/-- The two tests of `krealloc` decide whether the block is resized. -/
theorem resize_isSome (h : Rep s (pre ++ b :: post)) :
    (resize r b post).isSome ↔ r ≤ b.size ∨
      firstAddr post nullptr ≠ nullptr ∧ (load s.mem (firstAddr post nullptr)).free ≠ 0 ∧
        (load s.mem (firstAddr post nullptr)).magic = blockMagic ∧
        r ≤ b.size + 24 + (load s.mem (firstAddr post nullptr)).size := by
  unfold resize
  split
  · rename_i hfit
    exact iff_of_true rfl (.inl hfit)
  · rename_i hfit
    rw [or_iff_right hfit]
    cases post with
    | nil => simp [mergeNext, hfit]
    | cons n post =>
      have hne : n.addr ≠ nullptr := h.placed.addr_ne (by simp)
      rw [firstAddr_cons, (linked_zipper.mp h.linked).2.2.1]
      cases hn : n.free with
      | false => simp [mergeNext_used hn, header, hn, hfit]
      | true => simp [mergeNext_free hn, header, hn, hne, BitVec.add_assoc]

theorem resize_none (h : Rep s (pre ++ b :: post)) (hr : resize r b post = none) :
    ¬ r ≤ b.size ∧
      ¬ (firstAddr post nullptr ≠ nullptr ∧ (load s.mem (firstAddr post nullptr)).free ≠ 0 ∧
        (load s.mem (firstAddr post nullptr)).magic = blockMagic ∧
        r ≤ b.size + 24 + (load s.mem (firstAddr post nullptr)).size) := by
  apply not_or.mp
  intro hsome
  have := (resize_isSome h).mpr hsome
  simp [hr] at this

/-- `krealloc` that keeps the block. -/
theorem krealloc_keep (L : Layout) {h : Heap} {size : U32} (hs : Holds s h)
    (hblocks : h.blocks = pre ++ b :: post) (hb : b.free = false) (hsize : size ≠ 0)
    (hle : size.toNat ≤ 0xFFFFFFF8) (hr : resize (alignUp size allocAlign) b post = some bs) :
    ∃ s', krealloc L s b.payload size =
        some ((realloc b.payload (alignUp size allocAlign) h).1, s') ∧
      Reallocates s s' h (realloc b.payload (alignUp size allocAlign) h).2 b
        (alignUp size allocAlign) (realloc b.payload (alignUp size allocAlign) h).1 := by
  have hrep := hs.rep
  rw [hblocks] at hrep
  have hfind := hrep.placed.findUsed hb
  rw [← hblocks] at hfind
  have hrealloc : realloc b.payload (alignUp size allocAlign) h =
      (b.payload, { h with blocks := pre ++ bs }) := by
    simp only [realloc, hfind, hr]
  obtain ⟨m, hrun, hrep', hkeep⟩ := krealloc_resize L hrep hb hsize hle hr
  have hreplaces := resize_replaces hrep.placed hb hr
  rw [← hblocks] at hkeep hreplaces
  have hbu : b ∈ used h.blocks := mem_used.mpr ⟨by simp [hblocks], hb⟩
  rw [hrealloc]
  refine ⟨{ s with mem := m }, hrun, ⟨hrep', hs.mappedEnd⟩, rfl, ?_, ?_, ?_⟩
  · exact fun d hd hne x hx => hkeep d hd x hx fun he => absurd he hne
  · exact fun he => absurd he (hrep.placed.payload_ne (b := b) (by simp))
  · refine fun _ => ⟨hreplaces, fun i hi hir => hkeep b hbu _ (inPayload_offset hi) ?_⟩
    intro _
    have hoff : (b.payload + BitVec.ofNat 32 i - b.payload).toNat = i := by bv_omega
    rwa [hoff]

/-- `krealloc` that moves the block: an allocation, a copy and a free. -/
theorem krealloc_move (L : Layout) {h : Heap} {size : U32} (hs : Holds s h)
    (hblocks : h.blocks = pre ++ b :: post) (hb : b.free = false) (hsize : size ≠ 0)
    (hle : size.toNat ≤ 0xFFFFFFF8) (hr : resize (alignUp size allocAlign) b post = none)
    (hg : GrowsSoundly (alignUp size allocAlign) h.blocks) :
    ∃ s', krealloc L s b.payload size =
        some ((realloc b.payload (alignUp size allocAlign) h).1, s') ∧
      Reallocates s s' h (realloc b.payload (alignUp size allocAlign) h).2 b
        (alignUp size allocAlign) (realloc b.payload (alignUp size allocAlign) h).1 := by
  have hrep := hs.rep
  rw [hblocks] at hrep
  have hround := alignUp_request hsize hle
  have hrun := krealloc_start L hrep hb hsize
  have hfind := hrep.placed.findUsed hb
  rw [← hblocks] at hfind
  generalize alignUp size allocAlign = r at *
  have hr0 : r ≠ 0 := by
    rintro rfl
    exact absurd hround.2.2.2 (by decide)
  have hkm := kmalloc_malloc L hs hr0 (by have := r.isLt; omega)
    (by rwa [alignUp_rounded hround.2.2.1])
  rw [alignUp_rounded hround.2.2.1] at hkm
  obtain ⟨m₁, pg, ph, me, hkm, hs₁, hout₁⟩ := hkm
  have hbu : b ∈ used h.blocks := mem_used.mpr ⟨by simp [hblocks], hb⟩
  have hrealloc : realloc b.payload r h =
      if (malloc r h).1 = nullptr then (nullptr, (malloc r h).2)
      else ((malloc r h).1,
        { (malloc r h).2 with blocks := freeAt b.payload (malloc r h).2.blocks }) := by
    simp only [realloc, hfind, hr]
    rfl
  obtain ⟨hno, hnext⟩ := resize_none hrep hr
  have hgrow : b.size.toNat < r.toNat := Nat.lt_of_not_le hno
  simp only [if_neg hno, if_neg hnext, hkm, Option.bind_eq_bind, Option.bind_some] at hrun
  rw [hrun, hrealloc]
  generalize hq : (malloc r h).1 = q at *
  rcases malloc_adds hs₁.rep.placed with ⟨hq0, hsame⟩ | ⟨c, hc, hcne, hadds⟩
  · -- no room for the copy: the block stays
    have hq0 : q = nullptr := hq.symm.trans hq0
    rw [if_pos hq0, if_pos hq0]
    refine ⟨_, rfl, hs₁, rfl, ?_, fun _ => ⟨hsame, ?_⟩,
      fun hne => absurd rfl hne⟩
    · intro d hd _ x hx
      exact hout₁.payload hs₁.rep.placed (mem_of_used ((hsame d).mpr hd)) hx
    · intro x hx
      exact hout₁.payload hs₁.rep.placed (mem_of_used ((hsame b).mpr hbu)) hx
  · rw [hq] at hc
    subst hc
    rw [if_neg hcne, if_neg hcne]
    have hused : ∀ d ∈ used h.blocks, d ∈ used (malloc r h).2.blocks :=
      fun d hd => (hadds.mem d).mpr (.inl hd)
    have hne : ∀ d ∈ used h.blocks, d ≠ c :=
      fun d hd he => hadds.fresh d hd (congrArg Block.payload he)
    have hkept : ∀ d ∈ used h.blocks, ∀ x, InPayload d x → m₁ x = s.mem x :=
      fun d hd x hx => hout₁.payload hs₁.rep.placed (mem_of_used (hused d hd)) hx
    obtain ⟨m₂, hfree, hrep₂, hothers, hbytes⟩ := hs₁.rep.copy_kfree (hused b hbu)
      ((hadds.mem c).mpr (.inr rfl)) (hne b hbu)
      (Nat.le_of_lt (Nat.lt_of_lt_of_le hgrow hadds.enough))
    refine ⟨{ s with mem := m₂, paging := pg, gNextFreePhys := ph, gHeapMappedEnd := me },
      by rw [hfree]; rfl, ⟨hrep₂, hs₁.mappedEnd⟩, rfl, ?_, ?_, ?_⟩
    · exact fun d hd _ x hx => (hothers d (hused d hd) (hne d hd) x hx).trans (hkept d hd x hx)
    · exact fun he => absurd he hcne
    · refine fun _ => ⟨⟨c, rfl, hadds.replaces hs.rep.placed hs₁.rep.placed hbu⟩, ?_⟩
      intro i hi _
      exact (hbytes i hi).trans (hkept b hbu _ (inPayload_offset hi))

/-- `krealloc` of a live pointer does to the heap what `realloc` does to the list. -/
theorem krealloc_realloc (L : Layout) {h : Heap} {size : U32} (hs : Holds s h)
    (hb : b ∈ used h.blocks) (hsize : size ≠ 0) (hle : size.toNat ≤ 0xFFFFFFF8)
    (hg : GrowsSoundly (alignUp size allocAlign) h.blocks) :
    ∃ s', krealloc L s b.payload size =
        some ((realloc b.payload (alignUp size allocAlign) h).1, s') ∧
      Reallocates s s' h (realloc b.payload (alignUp size allocAlign) h).2 b
        (alignUp size allocAlign) (realloc b.payload (alignUp size allocAlign) h).1 := by
  obtain ⟨hmem, hfree⟩ := mem_used.mp hb
  obtain ⟨pre, post, hblocks⟩ := List.append_of_mem hmem
  cases hr : resize (alignUp size allocAlign) b post with
  | none => exact krealloc_move L hs hblocks hfree hsize hle hr hg
  | some bs => exact krealloc_keep L hs hblocks hfree hsize hle hr

end Kernix.Proofs
