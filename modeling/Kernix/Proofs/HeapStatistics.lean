import Mathlib.Algebra.BigOperators.Group.Finset.Basic
import Kernix.Proofs.Coalescing

namespace Kernix.Proofs
open Library Memory Memory.HeapBlock Memory.Client

variable {L : Layout} {c : Client} {s : State} {h : Heap} {bs : List Block} {b : Block} {m : Mem}
  {p kernelEnd : U32} {es : List Event} {counts : HeapBlock → Bool} {P : Block → Bool}

/-- The bytes of the blocks that `P` lets through. -/
def payloadBytes (P : Block → Bool) (bs : List Block) : Nat :=
  span (fun b => b.size.toNat) (bs.filter P)

theorem payloadBytes_cons (P : Block → Bool) (b : Block) (bs : List Block) :
    payloadBytes P (b :: bs) = (if P b then b.size.toNat else 0) + payloadBytes P bs := by
  unfold payloadBytes
  cases hP : P b with
  | true => simp [hP]
  | false => simp [hP]

/-- Every block counts its payload and a header towards the room. -/
theorem payloadBytes_room (bs : List Block) :
    payloadBytes (fun _ => true) bs + 24 * bs.length = room bs := by
  induction bs with
  | nil => rfl
  | cons b bs ih =>
    simp only [payloadBytes_cons, if_true, List.length_cons, room, span_cons, Block.len] at ih ⊢
    omega

theorem payloadBytes_le (P : Block → Bool) (bs : List Block) :
    payloadBytes P bs ≤ payloadBytes (fun _ => true) bs := by
  induction bs with
  | nil => exact Nat.le_refl _
  | cons b bs ih =>
    rw [payloadBytes_cons, payloadBytes_cons, if_pos rfl]
    split
    · omega
    · omega

/-- A block is used or free. -/
theorem payloadBytes_split (bs : List Block) :
    payloadBytes (fun b => !b.free) bs + payloadBytes (fun b => b.free) bs =
      payloadBytes (fun _ => true) bs := by
  induction bs with
  | nil => rfl
  | cons b bs ih =>
    rw [payloadBytes_cons, payloadBytes_cons, payloadBytes_cons]
    cases hb : b.free with
    | true =>
      simp only [Bool.not_true, Bool.false_eq_true, if_false, if_true]
      omega
    | false =>
      simp only [Bool.not_false, Bool.false_eq_true, if_false, if_true]
      omega

/-- The loop adds up the blocks of a list that is small enough. -/
theorem sizesLoop_linked {q : U32} (total : U32) {fuel : Nat} (hl : Linked m q bs nullptr)
    (hne : ∀ b ∈ bs, b.addr ≠ nullptr) (hf : bs.length < fuel)
    (hcounts : ∀ b ∈ bs, ∀ prev next, counts (header b prev next) = P b)
    (hsum : total.toNat + payloadBytes P bs < 2 ^ 32) :
    ∃ r, sizesLoop m counts fuel total (firstAddr bs nullptr) = some r ∧
      r.toNat = total.toNat + payloadBytes P bs := by
  induction bs generalizing q total fuel with
  | nil =>
    obtain ⟨fuel, rfl⟩ := Nat.exists_eq_succ_of_ne_zero (Nat.ne_of_gt hf)
    exact ⟨total, if_pos (.inl rfl), rfl⟩
  | cons b bs ih =>
    obtain ⟨fuel, rfl⟩ := Nat.exists_eq_succ_of_ne_zero (Nat.ne_of_gt (Nat.zero_lt_of_lt hf))
    obtain ⟨hb, hrest⟩ := hl
    have hgo : ¬ (b.addr = nullptr ∨ (load m b.addr).magic ≠ blockMagic) := by
      rw [hb, header]
      exact not_or.mpr ⟨hne b (by simp), not_not.mpr rfl⟩
    rw [payloadBytes_cons] at hsum ⊢
    rw [firstAddr_cons, sizesLoop, if_neg hgo, hb, hcounts b (by simp)]
    have hrest' := ih (if P b then total + b.size else total) hrest
      (fun d hd => hne d (by simp [hd])) (by simpa using hf)
      (fun d hd => hcounts d (by simp [hd]))
    cases hP : P b with
    | true =>
      rw [hP] at hrest' hsum
      simp only [if_true] at hrest' hsum ⊢
      have hadd : (total + b.size).toNat = total.toNat + b.size.toNat := by bv_omega
      rw [hadd, Nat.add_assoc] at hrest'
      exact hrest' hsum
    | false =>
      rw [hP] at hrest' hsum
      simp only [Bool.false_eq_true, if_false, Nat.zero_add] at hrest' hsum ⊢
      exact hrest' hsum

theorem Rep.payloadBytes_lt (hr : Rep s bs) (P : Block → Bool) : payloadBytes P bs < 2 ^ 32 := by
  have hle := payloadBytes_le P bs
  have hroom := payloadBytes_room bs
  have hhigh := hr.placed.high
  omega

/-- One of the counters, on a heap in order. -/
theorem Rep.sizes (hr : Rep s bs) (counts : HeapBlock → Bool) (P : Block → Bool)
    (hcounts : ∀ b ∈ bs, ∀ prev next, counts (header b prev next) = P b) :
    ∃ r, sizes s counts = some r ∧ r.toNat = payloadBytes P bs := by
  have hsum := hr.payloadBytes_lt P
  obtain ⟨r, hrun, hr'⟩ := sizesLoop_linked 0 hr.linked
    (fun _ hb => hr.placed.addr_ne hb) hr.length_lt hcounts (by simpa using hsum)
  refine ⟨r, ?_, by simpa using hr'⟩
  rw [Memory.sizes, if_neg hr.head_ne, ← hr.firstAddr]
  exact hrun

/-- The payloads of two used blocks differ. -/
theorem Placed.payloads_nodup {lo : Nat} (hp : Placed lo bs) :
    ((used bs).map Block.payload).Nodup := by
  have hap := hp.apart.sublist (used_sublist bs)
  rw [List.Nodup, List.pairwise_map]
  refine hap.imp_of_mem ?_
  intro b d hb hd hbd he
  have hsame := hp.eq_of_payload (mem_of_used hb) (mem_of_used hd) he
  rw [hsame] at hbd
  obtain ⟨hbd, -⟩ := hbd
  simp at hbd

/-- What the clients hold is what the used blocks hold. -/
theorem Backed.sum_ksize (hc : Backed c h) :
    ∑ p ∈ c.live, (ksize c.state p).toNat = payloadBytes (fun b => !b.free) h.blocks := by
  have hlive : c.live = ((used h.blocks).map Block.payload).toFinset := by
    ext p
    rw [hc.live, List.mem_toFinset, List.mem_map]
  rw [hlive, List.sum_toFinset _ hc.holds.rep.placed.payloads_nodup, List.map_map]
  have hsizes : ∀ ds : List Block, (∀ b ∈ ds, b ∈ used h.blocks) →
      (ds.map ((fun p => (ksize c.state p).toNat) ∘ Block.payload)).sum =
        span (fun b => b.size.toNat) ds := by
    intro ds hds
    induction ds with
    | nil => rfl
    | cons d ds ih =>
      rw [List.map_cons, List.sum_cons, span_cons, ih fun b hb => hds b (by simp [hb])]
      rw [Function.comp, hc.holds.rep.ksize (hds d (by simp))]
  exact hsizes _ fun _ hb => hb

/-- The last block ends where the room of all of them does. -/
theorem Rep.chainEnd_room (hr : Rep s bs) :
    ∃ e, Proofs.chainEnd s = some e ∧ e.toNat = s.gHeapStart.toNat + room bs := by
  obtain ⟨pre, t, rfl⟩ := (List.eq_nil_or_concat' bs).resolve_left hr.ne
  have hsize : (HeapBlock.load s.mem t.addr).size = t.size := by
    rw [(linked_zipper.mp hr.linked).2.1, header]
  have hlaid := (tiles_append.mp hr.placed.laid).2.1
  have hhigh := hr.placed.high
  refine ⟨t.addr + headerSize + t.size, ?_, ?_⟩
  · rw [Proofs.chainEnd, hr.lastBlock, Option.map_some, hsize]
  · rw [headerSize_eq]
    simp only [Block.start, Block.len, room, span_append, span_cons, span_nil] at hlaid hhigh ⊢
    bv_omega

/-- After any run the counters agree with the live pointers and with the blocks, and no sum
wraps. -/
theorem heap_statistics_exact (L : Layout) (kernelEnd : U32) (s : State)
    (hk : kernelEnd < identityMapLimit)
    (hon : (kmallocInit kernelEnd s).gHeapHead ≠ nullptr)
    (hrun : Run (Guarded (fun _ e => WithinLimit e) (Client.Step L))
      (Client.start (kmallocInit kernelEnd s)) es c) :
    ∃ used free total bs e, kmallocUsed c.state = some used ∧
      kmallocRemaining c.state = some free ∧ kmallocTotal c.state = some total ∧
      Lists c.state bs ∧ chainEnd c.state = some e ∧
      used.toNat = ∑ p ∈ c.live, (ksize c.state p).toNat ∧
      used.toNat + free.toNat = total.toNat ∧
      c.state.gHeapStart.toNat + (total.toNat + 24 * bs.length) = e.toNat := by
  obtain ⟨h, hc⟩ := run_backed hk hon (run_noWrap hrun)
  have hr := hc.holds.rep
  obtain ⟨used, hused, hused'⟩ := hr.sizes (fun block => block.free = 0)
    (fun b => !b.free) fun b _ _ _ => by cases hb : b.free <;> simp [header, hb, flag]
  obtain ⟨free, hfree, hfree'⟩ := hr.sizes (fun block => block.free ≠ 0)
    (fun b => b.free) fun b _ _ _ => by cases hb : b.free <;> simp [header, hb, flag]
  obtain ⟨total, htotal, htotal'⟩ := hr.sizes (fun _ => true)
    (fun _ => true) fun _ _ _ _ => rfl
  obtain ⟨e, he, he'⟩ := hr.chainEnd_room
  refine ⟨used, free, total, h.blocks, e, hused, hfree, htotal, hr.lists, he, ?_, ?_, ?_⟩
  · rw [hused', hc.sum_ksize]
  · rw [hused', hfree', htotal', payloadBytes_split]
  · rw [he', htotal', payloadBytes_room]

theorem heap_statistics_exact_boot :
    ∃ used free total bs e, kmallocUsed firstCall.2 = some used ∧
      kmallocRemaining firstCall.2 = some free ∧ kmallocTotal firstCall.2 = some total ∧
      Lists firstCall.2 bs ∧ chainEnd firstCall.2 = some e ∧
      used.toNat = ∑ p ∈ firstClient.live, (ksize firstCall.2 p).toNat ∧
      used.toNat + free.toNat = total.toNat ∧
      firstCall.2.gHeapStart.toNat + (total.toNat + 24 * bs.length) = e.toNat :=
  heap_statistics_exact bootLayout 0x123456 blankState (by decide) (by decide) first_run

end Kernix.Proofs
