import Kernix.Proofs.Edits

namespace Kernix.Proofs
open Library Memory Memory.HeapBlock

/-- The heap's bytes and globals hold the block list `bs`. -/
structure Rep (s : State) (bs : List Block) : Prop where
  ne : bs ≠ []
  head : s.gHeapHead = s.gHeapStart
  aligned : s.gHeapStart.toNat % 8 = 0
  placed : Placed s.gHeapStart.toNat bs
  sized : ∀ b ∈ bs, 0 < b.size.toNat ∧ b.size.toNat % 8 = 0
  mapped : s.gHeapStart.toNat + room bs ≤ s.gHeapMappedEnd.toNat
  limit : s.gHeapMappedEnd.toNat ≤ 2 ^ 26
  page : s.gHeapMappedEnd.toNat % 4096 = 0
  linked : Linked s.mem nullptr bs nullptr

variable {s : State} {bs : List Block} {b : Block}

theorem Rep.firstAddr (h : Rep s bs) : firstAddr bs nullptr = s.gHeapHead := by
  cases bs with
  | nil => exact absurd rfl h.ne
  | cons b bs =>
    apply BitVec.eq_of_toNat_eq
    rw [h.head]
    exact h.placed.laid.1

theorem Rep.head_ne (h : Rep s bs) : s.gHeapHead ≠ nullptr := by
  have := h.placed.low
  rw [h.head]
  rintro he
  simp [he, nullptr] at this

theorem Rep.addr_aligned (h : Rep s bs) (hb : b ∈ bs) : b.addr.toNat % 8 = 0 := by
  refine h.placed.laid.start_mod h.aligned ?_ hb
  intro c hc
  have := (h.sized c hc).2
  simp only [Block.len]
  omega

/-- Where a block of the heap lies, in numbers. -/
theorem Rep.bounds (h : Rep s bs) (hb : b ∈ bs) :
    s.gHeapStart.toNat ≤ b.addr.toNat ∧ 0 < b.addr.toNat ∧
      b.addr.toNat + 24 + b.size.toNat ≤ s.gHeapMappedEnd.toNat ∧
      s.gHeapMappedEnd.toNat ≤ 2 ^ 26 := by
  have hlow := h.placed.low
  have hin := h.placed.laid.bounds hb
  have hmapped := h.mapped
  have hlimit := h.limit
  simp only [Block.start, Block.len, room] at *
  omega

/-- A list that takes the place of the old one in the same room. -/
theorem Rep.edit (h : Rep s bs) {m : Mem} {ds : List Block} (hne : ds ≠ [])
    (hp : Placed s.gHeapStart.toNat ds) (hroom : room ds = room bs)
    (hs : ∀ d ∈ ds, 0 < d.size.toNat ∧ d.size.toNat % 8 = 0)
    (hl : Linked m nullptr ds nullptr) : Rep { s with mem := m } ds :=
  ⟨hne, h.head, h.aligned, hp, hs, hroom ▸ h.mapped, h.limit, h.page, hl⟩

/-! The list walks. -/

theorem Rep.length_lt (h : Rep s bs) : bs.length < walkFuel := by
  have hlen : bs.length ≤ span Block.len bs :=
    length_le_span fun b _ => Nat.lt_of_lt_of_le (by decide) (Nat.le_add_right 24 b.size.toNat)
  have := h.placed.high
  simp only [walkFuel, room] at *
  omega

theorem lastBlockLoop_linked {m : Mem} {p : U32} {pre : List Block} {t : Block} {fuel : Nat}
    (hl : Linked m p (pre ++ [t]) nullptr) (hne : ∀ b ∈ pre ++ [t], b.addr ≠ nullptr)
    (hf : pre.length < fuel) :
    lastBlockLoop m fuel (Proofs.firstAddr (pre ++ [t]) nullptr) = some t.addr := by
  induction pre generalizing p fuel with
  | nil =>
    obtain ⟨fuel, rfl⟩ := Nat.exists_eq_succ_of_ne_zero (Nat.ne_of_gt hf)
    simp [lastBlockLoop, hl.1, header]
  | cons b pre ih =>
    obtain ⟨fuel, rfl⟩ := Nat.exists_eq_succ_of_ne_zero (Nat.ne_of_gt (Nat.zero_lt_of_lt hf))
    rw [List.cons_append] at hl
    obtain ⟨hb, hrest⟩ := hl
    have hload : (load m b.addr).next = Proofs.firstAddr (pre ++ [t]) nullptr := by
      rw [hb]
      rfl
    have hnext : Proofs.firstAddr (pre ++ [t]) nullptr ≠ nullptr := by
      cases pre with
      | nil => exact hne t (by simp)
      | cons c pre => exact hne c (by simp)
    rw [List.cons_append, firstAddr_cons, lastBlockLoop, hload, if_pos hnext]
    exact ih hrest (fun c hc => hne c (List.mem_cons_of_mem _ hc)) (by simpa using hf)

theorem lastBlock_linked {pre : List Block} {t : Block}
    (hhead : Proofs.firstAddr (pre ++ [t]) nullptr = s.gHeapHead) (hnull : s.gHeapHead ≠ nullptr)
    (hl : Linked s.mem nullptr (pre ++ [t]) nullptr) (hne : ∀ b ∈ pre ++ [t], b.addr ≠ nullptr)
    (hlen : pre.length < walkFuel) : lastBlock s = some t.addr := by
  rw [Memory.lastBlock, if_neg hnull, ← hhead]
  exact lastBlockLoop_linked hl hne hlen

theorem Rep.lastBlock {pre : List Block} {t : Block} (h : Rep s (pre ++ [t])) :
    lastBlock s = some t.addr := by
  have hlen := h.length_lt
  rw [List.length_append] at hlen
  exact lastBlock_linked h.firstAddr h.head_ne h.linked (fun b hb => h.placed.addr_ne hb) (by omega)

theorem findFreeBlockLoop_linked {m : Mem} {p r : U32} {bs : List Block} {fuel : Nat}
    (hl : Linked m p bs nullptr) (hne : ∀ b ∈ bs, b.addr ≠ nullptr) (hf : bs.length < fuel) :
    findFreeBlockLoop m r fuel (Proofs.firstAddr bs nullptr) =
      some (((bs.find? (fits r)).map Block.addr).getD nullptr) := by
  induction bs generalizing p fuel with
  | nil =>
    obtain ⟨fuel, rfl⟩ := Nat.exists_eq_succ_of_ne_zero (Nat.ne_of_gt hf)
    simp [findFreeBlockLoop]
  | cons b bs ih =>
    obtain ⟨fuel, rfl⟩ := Nat.exists_eq_succ_of_ne_zero (Nat.ne_of_gt (Nat.zero_lt_of_lt hf))
    obtain ⟨hb, hrest⟩ := hl
    rw [firstAddr_cons, findFreeBlockLoop, if_neg (hne b (by simp)), hb]
    simp only [header, true_and, flag_ne_zero]
    by_cases hfit : fits r b = true
    · have hcond : b.free = true ∧ r ≤ b.size := by simpa [fits] using hfit
      rw [if_pos hcond, List.find?_cons_of_pos hfit]
      rfl
    · have hcond : ¬ (b.free = true ∧ r ≤ b.size) := by simpa [fits] using hfit
      rw [if_neg hcond, List.find?_cons_of_neg hfit]
      exact ih hrest (fun c hc => hne c (by simp [hc])) (by simpa using hf)

theorem Rep.findFreeBlock (h : Rep s bs) (r : U32) :
    findFreeBlock s r = some (((bs.find? (fits r)).map Block.addr).getD nullptr) := by
  rw [Memory.findFreeBlock, ← h.firstAddr]
  exact findFreeBlockLoop_linked h.linked (fun b hb => h.placed.addr_ne hb) h.length_lt

/-- A pointer to a block's payload leads back to the block. -/
theorem Rep.blockFromPtr (h : Rep s bs) (hb : b ∈ bs) : blockFromPtr s b.payload = b.addr := by
  obtain ⟨hstart, hpos, hend, hlimit⟩ := h.bounds hb
  have hsize := (h.sized b hb).1
  obtain ⟨pre, post, rfl⟩ := List.append_of_mem hb
  have hmagic : (load s.mem b.addr).magic = blockMagic := by
    rw [(linked_zipper.mp h.linked).2.1]
    rfl
  have hback : b.addr + 24 - 24 = b.addr := by bv_omega
  have hnull : ¬ (b.addr + 24 = nullptr) := by
    unfold nullptr
    bv_omega
  have h1 : s.gHeapStart ≤ b.addr + 24 := by bv_omega
  have h2 : b.addr + 24 < s.gHeapMappedEnd := by bv_omega
  have h3 : s.gHeapStart ≤ b.addr := by bv_omega
  have h4 : b.addr < s.gHeapMappedEnd := by bv_omega
  have h5 : ¬ (b.addr + 24 < s.gHeapStart + 24) := by bv_omega
  simp only [Memory.blockFromPtr, Block.payload, headerSize_eq, hback, ptrInHeap, hmagic, h1, h2,
    h3, h4, h5, hnull]
  simp

end Kernix.Proofs
