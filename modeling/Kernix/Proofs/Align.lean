import Kernix.Memory.Heap

namespace Kernix.Proofs
open Library Memory

/-- `alignment - 1` is the mask of the low bits. -/
theorem lowMask (k : Nat) (hk : k < 32) :
    BitVec.ofNat 32 (2 ^ k) - 1 = BitVec.ofNat 32 (2 ^ k - 1) := by
  have hpos : 0 < 2 ^ k := Nat.two_pow_pos k
  have hlt : 2 ^ k < 2 ^ 32 := Nat.pow_lt_pow_right (by decide) hk
  generalize 2 ^ k = n at *
  bv_omega

/-- `align_up` to `2^k`: rounding up, unless the sum wraps. -/
theorem toNat_alignUp (v : U32) (k : Nat) (hk : k < 32) :
    (alignUp v (BitVec.ofNat 32 (2 ^ k))).toNat =
      (v.toNat + (2 ^ k - 1)) % 2 ^ 32 / 2 ^ k * 2 ^ k := by
  have hpos : 0 < 2 ^ k := Nat.two_pow_pos k
  have hlt : 2 ^ k < 2 ^ 32 := Nat.pow_lt_pow_right (by decide) hk
  have hsum : (v + BitVec.ofNat 32 (2 ^ k) - 1).toNat = (v.toNat + (2 ^ k - 1)) % 2 ^ 32 := by
    generalize 2 ^ k = n at *
    bv_omega
  rw [alignUp, lowMask k hk, toNat_and_not_low, hsum]

theorem toNat_alignDown (v : U32) (k : Nat) (hk : k < 32) :
    (alignDown v (BitVec.ofNat 32 (2 ^ k))).toNat = v.toNat / 2 ^ k * 2 ^ k := by
  rw [alignDown, lowMask k hk, toNat_and_not_low]

theorem toNat_alignUp_alloc (v : U32) :
    (alignUp v allocAlign).toNat = (v.toNat + 7) % 2 ^ 32 / 8 * 8 :=
  toNat_alignUp v 3 (by decide)

theorem toNat_alignUp_page (v : U32) :
    (alignUp v pageSize).toNat = (v.toNat + 4095) % 2 ^ 32 / 4096 * 4096 :=
  toNat_alignUp v 12 (by decide)

theorem toNat_alignDown_page (v : U32) :
    (alignDown v pageSize).toNat = v.toNat / 4096 * 4096 :=
  toNat_alignDown v 12 (by decide)

/-- A request that rounds up without wrapping. -/
theorem alignUp_request {v : U32} (hpos : v ≠ 0) (hv : v.toNat ≤ 0xFFFFFFF8) :
    v.toNat ≤ (alignUp v allocAlign).toNat ∧ (alignUp v allocAlign).toNat < v.toNat + 8 ∧
      (alignUp v allocAlign).toNat % 8 = 0 ∧ 0 < (alignUp v allocAlign).toNat := by
  have h := toNat_alignUp_alloc v
  have h0 : 0 < v.toNat := by bv_omega
  omega

end Kernix.Proofs
