import Kernix.Proofs.ClientSteps

namespace Kernix.Proofs
open Library Memory Memory.HeapBlock Memory.Client

variable {c : Client} {s s' : State} {h : Heap} {bs : List Block} {b d : Block} {kernelEnd : U32}
  {es : List Event}

/-- The heap `kmalloc_init` leaves: one free block up to 4 MB. -/
def initialHeap (kernelEnd : U32) : Heap :=
  ⟨[⟨alignUp kernelEnd allocAlign, identityMapLimit - alignUp kernelEnd allocAlign - 24, true⟩],
    2 ^ 22⟩

theorem kmallocInit_holds (s : State) (hk : kernelEnd < identityMapLimit)
    (hon : (kmallocInit kernelEnd s).gHeapHead ≠ nullptr) :
    Holds (kmallocInit kernelEnd s) (initialHeap kernelEnd) := by
  have hk : kernelEnd.toNat < 2 ^ 22 := hk
  have hup := toNat_alignUp_alloc kernelEnd
  unfold kmallocInit at hon ⊢
  simp only [headerSize_eq, minSplitPayload_eq] at hon ⊢
  unfold initialHeap
  generalize alignUp kernelEnd allocAlign = start at *
  split at hon
  · exact absurd rfl hon
  rename_i hfits
  rw [if_neg hfits]
  have hfits : start.toNat + 32 < 2 ^ 22 := by
    unfold identityMapLimit at hfits
    bv_omega
  have hpos : 0 < start.toNat := by
    have : start ≠ 0 := hon
    bv_omega
  have hsize : (identityMapLimit - start - 24).toNat = 2 ^ 22 - start.toNat - 24 := by
    unfold identityMapLimit
    bv_omega
  have hroom : room [(⟨start, identityMapLimit - start - 24, true⟩ : Block)] =
      2 ^ 22 - start.toNat := by
    simp only [room, span_cons, span_nil, Block.len, hsize]
    omega
  refine ⟨⟨by simp, rfl, ?_, ⟨hpos, ⟨rfl, trivial⟩, ?_⟩, ?_, ?_, by simp [identityMapLimit],
    by simp [identityMapLimit], ⟨?_, trivial⟩⟩, rfl⟩
  · change start.toNat % 8 = 0
    omega
  · rw [hroom]
    change start.toNat + (2 ^ 22 - start.toNat) ≤ 2 ^ 26
    omega
  · intro d hd
    rw [List.mem_singleton.mp hd]
    simp only [hsize]
    omega
  · rw [hroom]
    change start.toNat + (2 ^ 22 - start.toNat) ≤ 2 ^ 22
    omega
  · exact load_writeHeader_self s.mem start
      ⟨blockMagic, identityMapLimit - start - 24, 1, nullptr, nullptr⟩

theorem start_backed (s : State) (hk : kernelEnd < identityMapLimit)
    (hon : (kmallocInit kernelEnd s).gHeapHead ≠ nullptr) :
    Backed (Client.start (kmallocInit kernelEnd s)) (initialHeap kernelEnd) := by
  refine ⟨kmallocInit_holds s hk hon, ?_⟩
  intro p
  simp [Client.start, initialHeap, used]

/-- One step of a client on a heap in order. -/
theorem step_backed {L : Layout} {e : Event} {c' : Client} (hc : Backed c h)
    (hn : NoWrap c.state e.1.bytes) (hstep : Client.Step L c e c') :
    (∃ h', Backed c' h') ∧ StoreStep c.contents e c'.contents := by
  obtain ⟨req, q⟩ := e
  obtain ⟨hperm, s', hserve, rfl⟩ := hstep
  obtain ⟨q', s'', h', hserve', hc', hstore⟩ := serve_step L hc hperm hn
  obtain ⟨rfl, rfl⟩ : q' = q ∧ s'' = s' := by simpa [hserve'] using hserve
  exact ⟨⟨h', hc'⟩, hstore⟩

/-- The heap is in order after every run of requests that do not wrap. -/
theorem run_backed {L : Layout} (hk : kernelEnd < identityMapLimit)
    (hon : (kmallocInit kernelEnd s).gHeapHead ≠ nullptr)
    (hrun : Run (Guarded (fun c e => NoWrap c.state e.1.bytes) (Client.Step L))
      (Client.start (kmallocInit kernelEnd s)) es c) : ∃ h, Backed c h := by
  refine hrun.invariant (I := fun c => ∃ h, Backed c h) ⟨_, start_backed s hk hon⟩ ?_
  rintro c e c' ⟨h, hc⟩ ⟨hn, hstep⟩
  exact (step_backed hc hn hstep).1

/-! From the block list to the bytes. -/

theorem walk_of_linked {m : Mem} {p : U32} (hl : Linked m p bs nullptr)
    (hne : ∀ b ∈ bs, b.addr ≠ nullptr) : Walk m (firstAddr bs nullptr) (bs.map Block.addr) := by
  induction bs generalizing p with
  | nil => exact .nil
  | cons b bs ih =>
    refine .cons (hne b (by simp)) ?_
    rw [firstAddr_cons, hl.1, header]
    exact ih hl.2 fun c hc => hne c (by simp [hc])

theorem Rep.load (hr : Rep s bs) (hb : b ∈ bs) : ∃ prev next,
    load s.mem b.addr = header b prev next := by
  obtain ⟨pre, post, rfl⟩ := List.append_of_mem hb
  exact ⟨_, _, (linked_zipper.mp hr.linked).2.1⟩

theorem follows_of_linked {m : Mem} {lo : Nat} {p : U32} (hl : Linked m p bs nullptr)
    (hlaid : Laid lo bs) : (bs.map Block.addr).IsChain (Follows m) := by
  induction bs generalizing p lo with
  | nil => exact .nil
  | cons b bs ih =>
    cases bs with
    | nil => exact .singleton _
    | cons d bs =>
      obtain ⟨hb, hd, hrest⟩ := hl
      obtain ⟨hblo, hdlo, hlaid'⟩ := hlaid
      refine .cons_cons ⟨?_, ?_, ?_⟩ (ih ⟨hd, hrest⟩ ⟨hdlo, hlaid'⟩)
      · rw [hb, header, firstAddr_cons]
      · rw [hd, header]
      · simp only [Block.start, Block.len] at hblo hdlo
        simp only [hb, header]
        omega

/-- What holds of every header written for a block holds of the headers in memory. -/
theorem Rep.forall_header (hr : Rep s bs) {P : HeapBlock → Prop}
    (hP : ∀ b ∈ bs, ∀ prev next, P (header b prev next)) :
    ∀ a ∈ bs.map Block.addr, P (HeapBlock.load s.mem a) := by
  simp only [List.forall_mem_map]
  intro b hb
  obtain ⟨prev, next, hl⟩ := hr.load hb
  rw [hl]
  exact hP b hb prev next

theorem Rep.first_header (hr : Rep s bs) :
    ∀ a ∈ (bs.map Block.addr).head?, (HeapBlock.load s.mem a).prev = nullptr := by
  intro a ha
  cases hbs : bs with
  | nil => simp [hbs] at ha
  | cons b bs =>
    have hl := hr.linked
    rw [hbs] at hl ha
    obtain rfl : b.addr = a := by simpa using ha
    rw [hl.1, header]

theorem Rep.last_header (hr : Rep s bs) : ∀ a ∈ (bs.map Block.addr).getLast?,
    (HeapBlock.load s.mem a).next = nullptr ∧
      a.toNat + 24 + (HeapBlock.load s.mem a).size.toNat ≤ s.gHeapMappedEnd.toNat := by
  intro a ha
  rcases List.eq_nil_or_concat' bs with hbs | ⟨pre, t, hbs⟩
  · simp [hbs] at ha
  · have hl := hr.linked
    rw [hbs] at hl ha
    obtain rfl : t.addr = a := by simpa using ha
    have ht := (hr.bounds (b := t) (by simp [hbs])).2.2.1
    rw [(linked_zipper.mp hl).2.1, header, firstAddr_nil]
    exact ⟨rfl, ht⟩

theorem flag_le (free : Bool) : (flag free).toNat ≤ 1 := by
  cases free <;> decide

theorem blockPayload_addr (b : Block) : blockPayload b.addr = b.payload := by
  rw [blockPayload, headerSize_eq, Block.payload]

theorem Backed.live_iff_used (hc : Backed c h) (p : U32) : p ∈ c.live ↔
    ∃ a ∈ h.blocks.map Block.addr, (load c.state.mem a).free = 0 ∧ p = blockPayload a := by
  have hr := hc.holds.rep
  rw [hc.live]
  constructor
  · rintro ⟨b, hb, rfl⟩
    obtain ⟨hmem, hfree⟩ := mem_used.mp hb
    obtain ⟨prev, next, hl⟩ := hr.load hmem
    refine ⟨b.addr, List.mem_map_of_mem hmem, ?_, (blockPayload_addr b).symm⟩
    rw [hl, header, hfree, flag_false]
  · rintro ⟨a, ha, hfree, rfl⟩
    obtain ⟨b, hb, rfl⟩ := List.mem_map.mp ha
    obtain ⟨prev, next, hl⟩ := hr.load hb
    rw [hl] at hfree
    exact ⟨b, mem_used.mpr ⟨hb, flag_eq_zero.mp hfree⟩, (blockPayload_addr b).symm⟩

/-- Where a live pointer lies, in numbers. -/
theorem Backed.live_block (hc : Backed c h) {p : U32} (hp : p ∈ c.live) :
    ∃ b ∈ h.blocks, b.payload = p ∧ ksize c.state p = b.size ∧ p.toNat = b.addr.toNat + 24 := by
  obtain ⟨b, hb, rfl⟩ := (hc.live p).mp hp
  have := hc.holds.rep.bounds (mem_of_used hb)
  refine ⟨b, mem_of_used hb, rfl, hc.holds.rep.ksize hb, ?_⟩
  unfold Block.payload
  bv_omega

theorem Backed.sound (hc : Backed c h) : Sound c (h.blocks.map Block.addr) where
  walk := by
    rw [← hc.holds.rep.firstAddr]
    exact walk_of_linked hc.holds.rep.linked fun b hb => hc.holds.rep.placed.addr_ne hb
  increasing := by
    refine List.pairwise_map.mpr (hc.holds.rep.placed.laid.pairwise.imp fun {a b} hab => ?_)
    simp only [Block.start, Block.len] at hab
    bv_omega
  magic := hc.holds.rep.forall_header (P := fun a => a.magic = blockMagic) fun _ _ _ _ => rfl
  size_pos := hc.holds.rep.forall_header (P := fun a => 0 < a.size.toNat) fun b hb _ _ =>
    (hc.holds.rep.sized b hb).1
  size_aligned := hc.holds.rep.forall_header (P := fun a => a.size.toNat % 8 = 0) fun b hb _ _ =>
    (hc.holds.rep.sized b hb).2
  flag := hc.holds.rep.forall_header (P := fun a => a.free.toNat ≤ 1) fun b _ _ _ => flag_le b.free
  block_aligned := by
    simp only [List.forall_mem_map]
    exact fun b hb => hc.holds.rep.addr_aligned hb
  follows := follows_of_linked hc.holds.rep.linked hc.holds.rep.placed.laid
  first := hc.holds.rep.first_header
  last := hc.holds.rep.last_header
  limit := hc.holds.rep.limit
  live := hc.live_iff_used
  aligned := by
    intro p hp
    obtain ⟨b, hb, -, -, haddr⟩ := hc.live_block hp
    have := hc.holds.rep.addr_aligned hb
    omega
  inside := by
    intro p hp
    obtain ⟨b, hb, -, hsize, haddr⟩ := hc.live_block hp
    have := hc.holds.rep.bounds hb
    rw [hsize]
    omega
  disjoint := by
    intro p hp q hq hne
    obtain ⟨b, hb, hbp, hsize, haddr⟩ := hc.live_block hp
    obtain ⟨d, hd, hdq, hsize', haddr'⟩ := hc.live_block hq
    rw [hsize, hsize']
    rcases hc.holds.rep.placed.order hb hd with rfl | hbd | hbd
    · exact absurd (hbp.symm.trans hdq) hne
    · omega
    · omega
  headers := by
    intro p hp a ha
    obtain ⟨b, hb, -, hsize, haddr⟩ := hc.live_block hp
    obtain ⟨d, hd, rfl⟩ := List.mem_map.mp ha
    rw [hsize]
    rcases hc.holds.rep.placed.order hb hd with rfl | hbd | hbd
    · omega
    · omega
    · omega

end Kernix.Proofs
