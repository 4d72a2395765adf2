import Mathlib.Algebra.Order.Ring.Int
import Kernix.Proofs.UnsignedNumerals

namespace Kernix.Proofs
open Library Calc

variable {base exp power : U32} {b : Int} {i n : Nat}

/-- The powers up to one that is an `int` are. -/
theorem fits_pow (h : Fits (b ^ n)) (hi : i ≤ n) : Fits (b ^ i) := by
  have habs : ∀ k, (b ^ k).natAbs = b.natAbs ^ k := Int.natAbs_pow b
  by_cases hsmall : b.natAbs ≤ 1
  · -- 0, 1 and -1
    have hone : b.natAbs ^ i ≤ 1 := Nat.one_pow i ▸ Nat.pow_le_pow_left hsmall i
    have := habs i
    unfold Fits
    omega
  · rcases Nat.lt_or_eq_of_le hi with hlt | heq
    · -- the next power is twice as large at least
      have hnext : b.natAbs ^ i * 2 ≤ b.natAbs ^ n :=
        calc b.natAbs ^ i * 2 ≤ b.natAbs ^ i * b.natAbs := Nat.mul_le_mul_left _ (by omega)
          _ = b.natAbs ^ (i + 1) := (Nat.pow_succ ..).symm
          _ ≤ b.natAbs ^ n := Nat.pow_le_pow_right (by omega) hlt
      have hin := habs i
      have hn := habs n
      unfold Fits at h ⊢
      omega
    · rw [heq]
      exact h

/-- The loop of `calc_pow` goes through the powers. -/
theorem powLoop_eq (hfits : Fits (base.toInt ^ n)) (turns : Nat) (hi : i + turns = n)
    (hpower : power.toInt = base.toInt ^ i) :
    ∃ w, powLoop base turns power = .ok w ∧ w.toInt = base.toInt ^ n := by
  induction turns generalizing i power with
  | zero => exact ⟨power, rfl, by rw [hpower, ← hi, Nat.add_zero]⟩
  | succ turns ih =>
    have hnext : power.toInt * base.toInt = base.toInt ^ (i + 1) := by rw [hpower, Int.pow_succ]
    have hstep : Fits (power.toInt * base.toInt) := by
      rw [hnext]
      exact fits_pow hfits (by omega)
    rw [powLoop, mulInt_ok hstep]
    exact ih (by omega) ((toInt_mul_of_fits hstep).trans hnext)

theorem pow_nonneg_iff_sign (b : Int) (n : Nat) : 0 ≤ b ^ n ↔ 0 ≤ b ∨ n % 2 = 0 := by
  rcases Nat.even_or_odd n with heven | hodd
  · exact iff_of_true (heven.pow_nonneg b) (.inr (Nat.even_iff.mp heven))
  · rw [hodd.pow_nonneg_iff, Nat.odd_iff.mp hodd]
    simp

/-- `calc_pow` comes to its end without an overflow where the power is an `int`, and prints it
right where the base is not negative or the exponent is even. -/
theorem pow_printed_iff (base exp : U32) (hexp : 0 ≤ exp.toInt)
    (hfits : Fits (base.toInt ^ exp.toNat)) :
    (∃ cs, calcPow base exp = .ok cs) ∧
      (calcPow base exp = .ok (resultText (base.toInt ^ exp.toNat)) ↔
        0 ≤ base.toInt ∨ exp.toNat % 2 = 0) := by
  have hturns : exp.toInt.toNat = exp.toNat := by
    rw [toInt_of_nonneg hexp]
    rfl
  have hone : (1 : U32).toInt = base.toInt ^ 0 := by
    rw [Int.pow_zero]
    rfl
  obtain ⟨w, hloop, hw⟩ := powLoop_eq hfits exp.toNat (Nat.zero_add _) hone
  have hrun : calcPow base exp = .ok (printUnsigned w) := by
    rw [calcPow, hturns, hloop]
    rfl
  refine ⟨⟨_, hrun⟩, ?_⟩
  rw [hrun, Except.ok.injEq, ← hw, printUnsigned_iff, hw, pow_nonneg_iff_sign]

theorem pow_printed_iff_cube : calcPow 7 3 = .ok (resultText 343) :=
  (pow_printed_iff 7 3 (by decide) (by decide)).2.mpr (.inl (by decide))

/-- (-2)^3 is printed as 4294967288. -/
theorem pow_printed_negative :
    calcPow (-2) 3 = .ok (text "Result: 4294967288\n") ∧ Fits ((-2 : U32).toInt ^ (3 : U32).toNat) ∧
      calcPow (-2) 3 ≠ .ok (resultText ((-2 : U32).toInt ^ (3 : U32).toNat)) := by
  refine ⟨by decide +kernel, by decide, by decide +kernel⟩

end Kernix.Proofs
