import Mathlib.Analysis.Complex.Trigonometric

namespace Library
open Finset

variable {n : Nat} {x : ℝ}

/-! The sine and the cosine by the first terms of their series. -/

noncomputable def cosineSum (n : Nat) (x : ℝ) : ℝ :=
  ∑ k ∈ range n, (-1) ^ k * x ^ (2 * k) / (2 * k).factorial

noncomputable def sineSum (n : Nat) (x : ℝ) : ℝ :=
  ∑ k ∈ range n, (-1) ^ k * x ^ (2 * k + 1) / (2 * k + 1).factorial

theorem mul_I_even (x : ℝ) (k : Nat) : (x * Complex.I) ^ (2 * k) = ((-1) ^ k * x ^ (2 * k) : ℝ) := by
  rw [mul_pow, pow_mul Complex.I, Complex.I_sq]
  push_cast
  ring

/-- The series of the exponential at `x * I` takes the two in turn. -/
theorem exp_sum_mul_I (n : Nat) (x : ℝ) :
    ∑ m ∈ range (2 * n), (x * Complex.I) ^ m / (m.factorial : ℂ) =
      (cosineSum n x : ℂ) + sineSum n x * Complex.I := by
  induction n with
  | zero => simp [cosineSum, sineSum]
  | succ n ih =>
    have heven := mul_I_even x n
    have hodd : (x * Complex.I) ^ (2 * n + 1) =
        ((-1) ^ n * x ^ (2 * n + 1) : ℝ) * Complex.I := by
      rw [pow_succ, heven]
      push_cast
      ring
    rw [Nat.mul_succ, sum_range_succ, sum_range_succ, ih, heven, hodd, cosineSum, cosineSum,
      sineSum, sineSum, sum_range_succ, sum_range_succ]
    push_cast
    ring

/-- What the first terms leave, for the two at once. -/
theorem exp_sum_close (hx : |x| / (2 * n).succ ≤ 1 / 2) :
    ‖Complex.exp (x * Complex.I) - (cosineSum n x + sineSum n x * Complex.I)‖ ≤
      |x| ^ (2 * n) / (2 * n).factorial * 2 := by
  have hnorm : ‖(x * Complex.I : ℂ)‖ = |x| := by simp
  have hbound := Complex.exp_bound' (x := x * Complex.I) (n := 2 * n) (by rwa [hnorm])
  rwa [exp_sum_mul_I, hnorm] at hbound

theorem cosine_close (hx : |x| / (2 * n).succ ≤ 1 / 2) :
    |Real.cos x - cosineSum n x| ≤ |x| ^ (2 * n) / (2 * n).factorial * 2 := by
  refine le_trans (le_of_eq_of_le ?_ (Complex.abs_re_le_norm _)) (exp_sum_close hx)
  simp [Complex.exp_ofReal_mul_I_re]

theorem sine_close (hx : |x| / (2 * n).succ ≤ 1 / 2) :
    |Real.sin x - sineSum n x| ≤ |x| ^ (2 * n) / (2 * n).factorial * 2 := by
  refine le_trans (le_of_eq_of_le ?_ (Complex.abs_im_le_norm _)) (exp_sum_close hx)
  simp [Complex.exp_ofReal_mul_I_im]

/-! A series by the denominators of its terms: the one after `t` is `-(t * x * x / d)`. -/

def termSum {K : Type} [DivisionRing K] (x t : K) : List Nat → K
  | [] => t
  | d :: ds => t - termSum x (t * x * x / d) ds

theorem termSum_cast (x t : ℚ) (ds : List Nat) :
    ((termSum x t ds : ℚ) : ℝ) = termSum (x : ℝ) (t : ℝ) ds := by
  induction ds generalizing t with
  | nil => rfl
  | cons d ds ih => simp [termSum, ih]

end Library
