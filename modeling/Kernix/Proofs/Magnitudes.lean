import Kernix.Library.Signed
import Kernix.Proofs.CheckedProducts

namespace Kernix.Proofs
open Library Calc

variable {a b : U32} {p q : Bool} {m n : Nat}

/-! The steps of a computation on `int`s, by sign and magnitude. -/

theorem fits_signed (h : m < 2 ^ 31) (p : Bool) : Fits (signed p m) := by
  have := signed_bounds p m
  unfold Fits
  omega

theorem not_fits_signed (h : 2 ^ 31 < m) (p : Bool) : ¬ Fits (signed p m) := by
  unfold Fits
  cases p with
  | false =>
    rw [signed_false]
    omega
  | true =>
    rw [signed_true]
    omega

theorem mulInt_signed (ha : a.toInt = signed p m) (hb : b.toInt = signed q n)
    (h : m * n < 2 ^ 31) : ∃ c, mulInt a b = .ok c ∧ c.toInt = signed (p ^^ q) (m * n) := by
  rw [mulInt, ha, hb, signed_mul]
  exact exactly_fits (fits_signed h _)

theorem mulInt_large (ha : a.toInt = signed p m) (hb : b.toInt = signed q n)
    (h : 2 ^ 31 < m * n) : mulInt a b = .error .overflow := by
  rw [mulInt, ha, hb, signed_mul]
  exact exactly_overflow (not_fits_signed h _)

theorem divInt_signed (ha : a.toInt = signed p m) (hb : b.toInt = signed q n) (hn : 0 < n)
    (hm : m < 2 ^ 31) : ∃ c, divInt a b = .ok c ∧ c.toInt = signed (p ^^ q) (m / n) := by
  have hne : b ≠ 0 := by
    rintro rfl
    have hzero : (signed q n).natAbs = 0 := by
      rw [← hb]
      rfl
    rw [natAbs_signed] at hzero
    omega
  rw [divInt, if_neg hne, ha, hb, signed_tdiv]
  exact exactly_fits (fits_signed (Nat.lt_of_le_of_lt (Nat.div_le_self m n) hm) _)

theorem negInt_signed (ha : a.toInt = signed p m) (hm : m < 2 ^ 31) :
    ∃ c, negInt a = .ok c ∧ c.toInt = signed (!p) m := by
  rw [negInt, ha, neg_signed]
  exact exactly_fits (fits_signed hm _)

theorem toInt_signed (a : U32) : ∃ p, a.toInt = signed p a.toInt.natAbs :=
  ⟨_, (signed_natAbs a.toInt).symm⟩

end Kernix.Proofs
