import Kernix.Proofs.Linked

namespace Kernix.Proofs
open Library Memory Memory.HeapBlock

/-- Nothing outside the headers of `bs` differs. -/
def SameOutside (bs : List Block) (m m' : Mem) : Prop :=
  ∀ x, (∀ b ∈ bs, ¬ InHeader b.addr x) → m' x = m x

theorem SameOutside.refl (bs : List Block) (m : Mem) : SameOutside bs m m := fun _ _ => rfl

theorem SameOutside.trans {bs : List Block} {m m' m'' : Mem} (h : SameOutside bs m m')
    (h' : SameOutside bs m' m'') : SameOutside bs m m'' :=
  fun x hx => (h' x hx).trans (h x hx)

theorem SameOutside.mono {bs ds : List Block} {m m' : Mem} (h : SameOutside bs m m')
    (hs : bs.map Block.addr ⊆ ds.map Block.addr) : SameOutside ds m m' := by
  intro x hx
  apply h x
  intro b hb
  obtain ⟨d, hd, he⟩ := List.mem_map.mp (hs (List.mem_map_of_mem hb))
  exact he ▸ hx d hd

theorem SameOutside.subset {bs ds : List Block} {m m' : Mem} (h : SameOutside bs m m')
    (hs : ∀ b ∈ bs, b ∈ ds) : SameOutside ds m m' :=
  h.mono (List.map_subset _ hs)

/-- A header apart from all that changed is as it was. -/
theorem SameOutside.load {bs : List Block} {m m' : Mem} {a : U32} (h : SameOutside bs m m')
    (ha : ∀ b ∈ bs, Apart 20 b.addr a) : load m' a = load m a := by
  apply load_congr
  intro x hx
  apply h
  intro b hb
  obtain ⟨hab, hba⟩ := ha b hb
  unfold InHeader at hx ⊢
  bv_omega

variable {m : Mem} {lo : Nat} {pre post : List Block} {b : Block} {r : U32}

theorem cut_whole (h : b.size.toNat < r.toNat + 32) : cut r b = [b] := if_pos h

theorem cut_two (h : r.toNat + 32 ≤ b.size.toNat) :
    cut r b = [{ b with size := r }, ⟨b.addr + 24 + r, b.size - r - 24, true⟩] :=
  if_neg (Nat.not_lt.mpr h)

/-- Where the remainder of a cut starts. -/
theorem remainder_addr (hp : Placed lo (pre ++ b :: post)) (hr : r.toNat + 32 ≤ b.size.toNat) :
    (b.addr + 24 + r).toNat = b.addr.toNat + 24 + r.toNat ∧
      (b.size - r - 24).toNat = b.size.toNat - r.toNat - 24 := by
  obtain ⟨-, hb, -⟩ := hp.around
  constructor <;> bv_omega

/-- The test of `split_block`, free of wrapping for a block of the heap. -/
theorem split_test (hp : Placed lo (pre ++ b :: post)) (hr : r.toNat ≤ b.size.toNat) :
    b.size < r + 24 + 8 ↔ b.size.toNat < r.toNat + 32 := by
  obtain ⟨-, hb, -⟩ := hp.around
  rw [BitVec.lt_def]
  have : (r + 24 + 8 : U32).toNat = r.toNat + 32 := by bv_omega
  rw [this]

/-- Cutting a block keeps the whole laid end to end. -/
theorem Placed.cut (hp : Placed lo (pre ++ b :: post)) (r : U32) :
    Placed lo (pre ++ cut r b ++ post) := by
  by_cases hcut : b.size.toNat < r.toNat + 32
  · simpa [cut_whole hcut] using hp
  · obtain ⟨hn, hns⟩ := remainder_addr hp (Nat.not_lt.mp hcut)
    have hb := hp.laid.around.1
    rw [cut_two (Nat.not_lt.mp hcut)]
    have hroom : room [{ b with size := r }, ⟨b.addr + 24 + r, b.size - r - 24, true⟩] =
        room [b] := by
      simp only [room, span_cons, span_nil, Block.len, hns]
      omega
    refine ⟨hp.low, ?_, ?_⟩
    · have hone : Laid lo (pre ++ [b] ++ post) := by simpa using hp.laid
      refine hone.replace ?_ hroom
      simp only [tiles_cons, tiles_nil, and_true, Block.start, Block.len, hn] at hb ⊢
      omega
    · have := hp.high
      simp only [room, span_append, span_cons, span_nil] at this hroom ⊢
      omega

theorem splitBlock_linked (hp : Placed lo (pre ++ b :: post))
    (hl : Linked m nullptr (pre ++ b :: post) nullptr) (hr : r.toNat ≤ b.size.toNat) :
    Linked (splitBlock m b.addr r) nullptr (pre ++ cut r b ++ post) nullptr ∧
      SameOutside (pre ++ cut r b ++ post) m (splitBlock m b.addr r) := by
  obtain ⟨hpre, hb, hpost⟩ := linked_zipper.mp hl
  have htest := split_test hp hr
  by_cases hcut : b.size.toNat < r.toNat + 32
  · have hsplit : splitBlock m b.addr r = m := by
      simp only [splitBlock, hb, header, headerSize_eq, minSplitPayload_eq, htest, hcut, if_true]
    rw [hsplit, cut_whole hcut]
    exact ⟨by simpa using hl, SameOutside.refl _ _⟩
  have hap := (hp.cut r).apart
  rw [cut_two (Nat.not_lt.mp hcut)] at hap ⊢
  rw [List.append_assoc, List.cons_append, List.singleton_append] at hap ⊢
  obtain ⟨-, hbnq, hpre_ap⟩ := List.pairwise_append.mp hap
  obtain ⟨hbn, hnq⟩ := List.pairwise_cons.mp hbnq
  obtain ⟨hnq, hqq⟩ := List.pairwise_cons.mp hnq
  let n := b.addr + 24 + r
  let rest : Block := ⟨n, b.size - r - 24, true⟩
  have hnb : Apart 20 (b.addr + 24 + r) b.addr := (hbn rest List.mem_cons_self).symm
  have hbq : ∀ c ∈ post, Apart 20 b.addr c.addr := fun c hc => hbn c (List.mem_cons_of_mem _ hc)
  let m₁ := writeHeader m n (header rest b.addr (firstAddr post nullptr))
  let m₂ := linkBack m₁ (firstAddr post nullptr) n
  have hsplit : splitBlock m b.addr r = setNext (setSize m₂ b.addr r) b.addr n := by
    simp only [splitBlock, hb, header, headerSize_eq, minSplitPayload_eq, htest, hcut, if_false,
      blockPayload, load_setMagic_apart hnb, load_setSize_apart hnb, load_setFree_apart hnb,
      load_setPrev_apart hnb, load_setNext_self]
    rfl
  have hout : SameOutside ({ b with size := r } :: rest :: post) m
      (setNext (setSize m₂ b.addr r) b.addr n) := by
    intro x hx
    have hxb : ¬ InHeader b.addr x := hx { b with size := r } (by simp)
    rw [setNext_outside hxb, setSize_outside hxb]
    exact (linkBack_outside fun d hd => hx d (by simp [hd])).trans
      (writeHeader_outside (hx rest (by simp)) _)
  rw [hsplit]
  refine ⟨linked_zipper.mpr ⟨hpre.congr fun c hc => hout.load ?_, ?_, ?_, ?_⟩,
    hout.subset fun d hd => List.mem_append_right _ hd⟩
  · exact fun d hd => (hpre_ap c hc d hd).symm
  · rw [load_setNext_self, load_setSize_self, load_linkBack fun d hd => (hbq d hd).symm,
      load_writeHeader_apart hnb, hb]
    rfl
  · rw [load_setNext_apart hnb.symm, load_setSize_apart hnb.symm,
      load_linkBack fun d hd => (hnq d hd).symm]
    exact load_writeHeader_self m n _
  · have h₁ : Linked m₁ b.addr post nullptr :=
      hpost.congr fun c hc => load_writeHeader_apart (hnq c hc) _
    have h₂ : Linked m₂ n post nullptr :=
      h₁.relink (fun c hc => hp.addr_ne (by simp [hc])) hqq n
    apply h₂.congr
    intro c hc
    rw [load_setNext_apart (hbq c hc), load_setSize_apart (hbq c hc)]

theorem mergeNext_used {n : Block} (h : n.free = false) : mergeNext b (n :: post) = b :: n :: post := by
  simp [mergeNext, h]

theorem mergeNext_free {n : Block} (h : n.free = true) :
    mergeNext b (n :: post) = { b with size := b.size + (24 + n.size) } :: post := by
  simp [mergeNext, h]

/-- The merged block covers both. -/
theorem Placed.mergeNext (hp : Placed lo (pre ++ b :: post)) :
    Placed lo (pre ++ mergeNext b post) := by
  cases post with
  | nil => exact hp
  | cons n post =>
    cases hn : n.free with
    | false => rwa [mergeNext_used hn]
    | true =>
      rw [mergeNext_free hn]
      obtain ⟨-, -, -, hafter⟩ := hp.around
      obtain ⟨hbn, hend⟩ := hafter n List.mem_cons_self
      have hsize : (b.size + (24 + n.size)).toNat = b.size.toNat + 24 + n.size.toNat := by bv_omega
      obtain ⟨hlow, hlaid, hhigh⟩ := hp
      simp only [tiles_append, tiles_cons, room, span_append, span_cons, Block.start, Block.len] at *
      refine ⟨hlow, ?_, ?_⟩
      · simp only [tiles_append, tiles_cons, Block.start, Block.len, hsize]
        obtain ⟨h1, h2, -, h4⟩ := hlaid
        refine ⟨h1, h2, ?_⟩
        convert h4 using 1
        omega
      · simp only [room, span_append, span_cons, Block.len, hsize]
        omega

theorem coalesceWithNext_linked (hp : Placed lo (pre ++ b :: post))
    (hl : Linked m nullptr (pre ++ b :: post) nullptr) :
    Linked (coalesceWithNext m b.addr) nullptr (pre ++ mergeNext b post) nullptr ∧
      SameOutside (pre ++ b :: post) m (coalesceWithNext m b.addr) := by
  obtain ⟨hpre, hb, hpost⟩ := linked_zipper.mp hl
  cases post with
  | nil =>
    have hsame : coalesceWithNext m b.addr = m := by
      simp [coalesceWithNext, hb, header, firstAddr]
    rw [hsame]
    exact ⟨hl, SameOutside.refl _ _⟩
  | cons n post =>
    obtain ⟨hn, hpost⟩ := hpost
    cases hnf : n.free with
    | false =>
      have hsame : coalesceWithNext m b.addr = m := by
        simp [coalesceWithNext, hb, header, firstAddr, hn, hnf]
      rw [hsame, mergeNext_used hnf]
      exact ⟨hl, SameOutside.refl _ _⟩
    | true =>
      obtain ⟨-, hbnq, hpre_ap⟩ := List.pairwise_append.mp hp.apart
      obtain ⟨hbn, hnq⟩ := List.pairwise_cons.mp hbnq
      obtain ⟨hnq, hqq⟩ := List.pairwise_cons.mp hnq
      have hnb : Apart 20 b.addr n.addr := hbn n List.mem_cons_self
      have hbq : ∀ c ∈ post, Apart 20 b.addr c.addr :=
        fun c hc => hbn c (List.mem_cons_of_mem _ hc)
      have hne : n.addr ≠ nullptr := hp.addr_ne (by simp)
      let m₁ := setNext (setSize m b.addr (b.size + (24 + n.size))) b.addr (firstAddr post nullptr)
      have hmerge : coalesceWithNext m b.addr = linkBack m₁ (firstAddr post nullptr) b.addr := by
        have hcond : ¬ (n.addr = nullptr ∨ flag n.free = 0 ∨ blockMagic ≠ blockMagic) := by
          simp [hnf, hne]
        simp only [coalesceWithNext, hb, header, firstAddr_cons, hn, hcond, if_false,
          load_setSize_apart hnb, load_setNext_self, headerSize_eq]
        rfl
      have hout : SameOutside (b :: post) m (linkBack m₁ (firstAddr post nullptr) b.addr) := by
        intro x hx
        have hxb : ¬ InHeader b.addr x := hx b List.mem_cons_self
        refine (linkBack_outside fun d hd => hx d (List.mem_cons_of_mem _ hd)).trans ?_
        exact (setNext_outside hxb _).trans (setSize_outside hxb _)
      rw [hmerge, mergeNext_free hnf]
      refine ⟨linked_zipper.mpr ⟨hpre.congr fun c hc => hout.load ?_, ?_, ?_⟩,
        hout.subset (by simp +contextual)⟩
      · intro d hd
        refine (hpre_ap c hc d ?_).symm
        rcases List.mem_cons.mp hd with rfl | hd
        · exact List.mem_cons_self
        · exact List.mem_cons_of_mem _ (List.mem_cons_of_mem _ hd)
      · rw [load_linkBack fun d hd => (hbq d hd).symm, load_setNext_self, load_setSize_self, hb]
        rfl
      · refine Linked.relink (p := n.addr) ?_ (fun c hc => hp.addr_ne (by simp [hc])) hqq _
        apply hpost.congr
        intro c hc
        rw [load_setNext_apart (hbq c hc), load_setSize_apart (hbq c hc)]

theorem setFree_linked (hp : Placed lo (pre ++ b :: post))
    (hl : Linked m nullptr (pre ++ b :: post) nullptr) (f : Bool) :
    Linked (setFree m b.addr (flag f)) nullptr (pre ++ { b with free := f } :: post) nullptr ∧
      SameOutside [b] m (setFree m b.addr (flag f)) := by
  obtain ⟨hpre, hb, hpost⟩ := linked_zipper.mp hl
  obtain ⟨-, hbq, hpre_ap⟩ := List.pairwise_append.mp hp.apart
  have hbq := (List.pairwise_cons.mp hbq).1
  refine ⟨linked_zipper.mpr ⟨?_, ?_, ?_⟩, fun x hx => setFree_outside (hx b (by simp)) _⟩
  · exact hpre.congr fun c hc => load_setFree_apart (hpre_ap c hc b List.mem_cons_self).symm _
  · rw [load_setFree_self, hb]
    rfl
  · exact hpost.congr fun c hc => load_setFree_apart (hbq c hc) _

theorem enlarge_free {t : Block} (h : t.free = true) (added : U32) :
    enlarge added [t] = [{ t with size := t.size + added }] := by
  simp [enlarge, h]

theorem enlarge_used {t : Block} (h : t.free = false) (added : U32) :
    enlarge added [t] = [t, ⟨t.addr + 24 + t.size, added - 24, true⟩] := by
  simp [enlarge, h]

/-- New bytes behind the last block: it grows, or they become a block. -/
theorem Placed.enlarge {t : Block} {added : U32} (hp : Placed lo (pre ++ [t]))
    (hend : lo + room (pre ++ [t]) + added.toNat ≤ 2 ^ 26)
    (hadd : t.free = false → 24 ≤ added.toNat) :
    Placed lo (pre ++ enlarge added [t]) ∧
      room (pre ++ enlarge added [t]) = room (pre ++ [t]) + added.toNat := by
  have ht := hp.laid.around.1
  obtain ⟨hlow, hlaid, hhigh⟩ := hp
  simp only [tiles_append, room, span_append, span_cons, span_nil, Block.start, Block.len] at *
  cases hf : t.free with
  | true =>
    have hsize : (t.size + added).toNat = t.size.toNat + added.toNat := by bv_omega
    rw [enlarge_free hf]
    refine ⟨⟨hlow, ?_, ?_⟩, ?_⟩
    · simpa [Block.start, Block.len, hsize] using hlaid
    · simp only [room, span_append, span_cons, span_nil, Block.len, hsize]
      omega
    · simp only [span_cons, span_nil, Block.len, hsize]
      omega
  | false =>
    have h24 := hadd hf
    have hsize : (added - 24).toNat = added.toNat - 24 := by bv_omega
    have haddr : (t.addr + 24 + t.size).toNat = t.addr.toNat + 24 + t.size.toNat := by bv_omega
    rw [enlarge_used hf]
    refine ⟨⟨hlow, ?_, ?_⟩, ?_⟩
    · simp only [tiles_append, tiles_cons, tiles_nil, and_true, Block.start, Block.len, haddr]
      exact ⟨hlaid.1, hlaid.2.1, by omega⟩
    · simp only [room, span_append, span_cons, span_nil, Block.len, hsize]
      omega
    · simp only [span_cons, span_nil, Block.len, hsize]
      omega

theorem growTail_linked {t : Block} {added : U32} (hl : Linked m nullptr (pre ++ [t]) nullptr)
    (hap : (pre ++ enlarge added [t]).Pairwise fun c d => Apart 20 c.addr d.addr) :
    Linked (growTail m t.addr added) nullptr (pre ++ enlarge added [t]) nullptr ∧
      SameOutside (pre ++ enlarge added [t]) m (growTail m t.addr added) := by
  obtain ⟨hpre, ht, -⟩ := linked_zipper.mp hl
  cases hf : t.free with
  | true =>
    have hgrow : growTail m t.addr added = setSize m t.addr (t.size + added) := by
      simp [growTail, ht, header, hf]
    rw [enlarge_free hf] at hap ⊢
    rw [hgrow]
    obtain ⟨-, -, hpre_ap⟩ := List.pairwise_append.mp hap
    refine ⟨linked_zipper.mpr ⟨?_, ?_, trivial⟩, ?_⟩
    · exact hpre.congr fun c hc => load_setSize_apart (hpre_ap c hc _ List.mem_cons_self).symm _
    · rw [load_setSize_self, ht]
      rfl
    · exact fun x hx => setSize_outside (hx { t with size := t.size + added } (by simp)) _
  | false =>
    rw [enlarge_used hf] at hap ⊢
    obtain ⟨-, htn, hpre_ap⟩ := List.pairwise_append.mp hap
    let n := t.addr + 24 + t.size
    let fresh : Block := ⟨n, added - 24, true⟩
    have hnt : Apart 20 (t.addr + 24 + t.size) t.addr :=
      ((List.pairwise_cons.mp htn).1 fresh List.mem_cons_self).symm
    have hgrow : growTail m t.addr added =
        setNext (writeHeader m n (header fresh t.addr nullptr)) t.addr n := by
      simp only [growTail, ht, header, hf, flag_false, ne_eq, not_true_eq_false, if_false,
        headerSize_eq]
      rfl
    have hout : SameOutside [t, fresh] m
        (setNext (writeHeader m n (header fresh t.addr nullptr)) t.addr n) := by
      intro x hx
      rw [setNext_outside (hx t (by simp)), writeHeader_outside (hx fresh (by simp))]
    rw [hgrow]
    refine ⟨linked_zipper.mpr ⟨hpre.congr fun c hc => hout.load ?_, ?_, ?_, trivial⟩,
      hout.subset fun d hd => List.mem_append_right _ hd⟩
    · exact fun d hd => (hpre_ap c hc d hd).symm
    · rw [load_setNext_self, load_writeHeader_apart hnt, ht]
      rfl
    · exact (load_setNext_apart hnt.symm _).trans (load_writeHeader_self m n _)

end Kernix.Proofs
