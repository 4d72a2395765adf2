import Kernix.Library.Memory

namespace Library

/-- Clearing the low `k` bits is a shift down and up again. -/
theorem and_not_low_eq_shift (x : U32) (k : Nat) :
    x &&& ~~~(BitVec.ofNat 32 (2 ^ k - 1)) = (x >>> k) <<< k := by
  apply BitVec.eq_of_getLsbD_eq
  intro i hi
  simp only [BitVec.getLsbD_and, BitVec.getLsbD_not, BitVec.getLsbD_shiftLeft,
    BitVec.getLsbD_ushiftRight, BitVec.getLsbD_ofNat, Nat.testBit_two_pow_sub_one]
  by_cases h : i < k
  · simp [h, hi]
  · have hk : k + (i - k) = i := by omega
    simp [h, hi, hk, BitVec.getLsbD_eq_getElem]

theorem toNat_and_not_low (x : U32) (k : Nat) :
    (x &&& ~~~(BitVec.ofNat 32 (2 ^ k - 1))).toNat = x.toNat / 2 ^ k * 2 ^ k := by
  rw [and_not_low_eq_shift x k, BitVec.toNat_shiftLeft, BitVec.toNat_ushiftRight,
    Nat.shiftRight_eq_div_pow, Nat.shiftLeft_eq]
  apply Nat.mod_eq_of_lt
  exact Nat.lt_of_le_of_lt (Nat.div_mul_le_self _ _) x.isLt

/-- Keeping the low `k` bits is a remainder. -/
theorem toNat_and_low (x : U32) (k : Nat) (hk : k ≤ 32) :
    (x &&& BitVec.ofNat 32 (2 ^ k - 1)).toNat = x.toNat % 2 ^ k := by
  have hlt : 2 ^ k - 1 < 2 ^ 32 := by
    have : 2 ^ k ≤ 2 ^ 32 := Nat.pow_le_pow_right (by decide) hk
    omega
  rw [BitVec.toNat_and, BitVec.toNat_ofNat, Nat.mod_eq_of_lt hlt, Nat.and_two_pow_sub_one_eq_mod]

/-- Bits set below a multiple of `2^k` add up. -/
theorem toNat_or_low (x y : U32) (k : Nat) (hx : x.toNat % 2 ^ k = 0) (hy : y.toNat < 2 ^ k) :
    (x ||| y).toNat = x.toNat + y.toNat := by
  have hd : x.toNat = 2 ^ k * (x.toNat / 2 ^ k) := by
    have := Nat.div_add_mod x.toNat (2 ^ k)
    omega
  rw [BitVec.toNat_or, hd, Nat.two_pow_add_eq_or_of_lt hy]

/-- Widening with the sign loses nothing. -/
theorem setWidth_signExtend {w v : Nat} (x : BitVec w) (h : w ≤ v) :
    (x.signExtend v).setWidth w = x := by
  apply BitVec.eq_of_getLsbD_eq
  intro i hi
  have hiv : i < v := Nat.lt_of_lt_of_le hi h
  rw [BitVec.getLsbD_setWidth, BitVec.getLsbD_signExtend, if_pos hi]
  simp [hi, hiv]

/-- A field cut out with a shift and a mask. -/
theorem shift_and_eq_extract {n : Nat} (x : BitVec n) (k w : Nat) :
    (x >>> k &&& BitVec.ofNat n (2 ^ w - 1)).setWidth w = x.extractLsb' k w := by
  apply BitVec.eq_of_getLsbD_eq
  intro i hi
  simp only [BitVec.getLsbD_setWidth, BitVec.getLsbD_and, BitVec.getLsbD_ushiftRight,
    BitVec.getLsbD_ofNat, BitVec.getLsbD_extractLsb', Nat.testBit_two_pow_sub_one, hi]
  by_cases h : i < n
  · simp [h]
  · have : n ≤ k + i := by omega
    simp [h, BitVec.getLsbD_of_ge _ _ this]

/-- The two bytes of a word of 16 bits. -/
theorem halves (v : BitVec 16) : v.extractLsb' 8 8 ++ v.setWidth 8 = v := by
  apply BitVec.eq_of_getLsbD_eq
  intro i hi
  simp only [BitVec.getLsbD_append, BitVec.getLsbD_extractLsb', BitVec.getLsbD_setWidth]
  grind

end Library
