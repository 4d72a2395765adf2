import Mathlib.Analysis.Real.Pi.Bounds
import Mathlib.Analysis.SpecialFunctions.Trigonometric.Deriv
import Kernix.Library.Taylor
import Kernix.Proofs.ScaledResults
import Kernix.Proofs.SineRange

namespace Kernix.Proofs
open Library Calc

variable {angle r u y : U32} {j : Int} {m n : Nat} {ds : List Nat} {x ε : ℝ}

/-! What the sine and the cosine in fixed point are worth. -/

/-- The real number that a number in fixed point stands for. -/
noncomputable def unscaled (v : U32) : ℝ := v.toInt / 10000

noncomputable def inRadians (degrees : U32) : ℝ := degrees.toInt * Real.pi / 180

/-- A result is printed that denotes `x` to within `ε`. -/
def PrintsNear (out : Exact (List Byte)) (x ε : ℝ) : Prop :=
  ∃ n : FixedNumeral 4, out = .ok (text "Result: " ++ n.text ++ text "\n") ∧
    |(n.value : ℝ) - x| ≤ ε

theorem printsNear_scaled (hr : |unscaled r - x| ≤ ε) (hmin : r ≠ int32MinVal) :
    PrintsNear (printScaledResult r fp) x ε := by
  have hscale : fp = scaleOf 4 := rfl
  obtain ⟨n, hout, hvalue⟩ := printsScaled_compiled hmin (k := 4) (by decide)
  refine ⟨n, ?_, ?_⟩
  · rw [printScaledResult_compiled hmin, hscale, hout]
  · have hcast : (n.value : ℝ) = unscaled r := by
      rw [hvalue, unscaled]
      push_cast
      norm_num
    rwa [hcast]

/-! The angle is brought to the one it stands for, but for whole turns and about a unit. -/

theorem degToRadFp_close (hu : degToRadFp angle = .ok u) :
    |(u.toInt : ℝ) - 31416 * angle.toInt / 180| ≤ 1 := by
  obtain ⟨product, hproduct, hdiv⟩ := bind_eq_ok.mp hu
  have hmul : product.toInt = angle.toInt * 31416 := exactly_eq_ok.mp hproduct
  have hquotient : u.toInt = product.toInt.tdiv 180 := (divInt_eq_ok (by decide)).mp hdiv
  have hparts := Int.mul_tdiv_add_tmod product.toInt 180
  have hrest := Int.tmod_lt_of_pos product.toInt (b := 180) (by decide)
  have hrest' := Int.lt_tmod_of_pos product.toInt (b := 180) (by decide)
  have hlow : 31416 * angle.toInt - 180 ≤ 180 * u.toInt := by omega
  have hhigh : 180 * u.toInt ≤ 31416 * angle.toInt + 180 := by omega
  have hlow' : (31416 * angle.toInt - 180 : ℝ) ≤ 180 * u.toInt := by exact_mod_cast hlow
  have hhigh' : (180 * u.toInt : ℝ) ≤ 31416 * angle.toInt + 180 := by exact_mod_cast hhigh
  rw [abs_le]
  constructor
  · linarith
  · linarith

theorem angle_close (hu : degToRadFp angle = .ok u) (hj : y.toInt = u.toInt - 62832 * j)
    (habs : y.toInt.natAbs ≤ 31416) :
    |unscaled y - (inRadians angle - j * (2 * Real.pi))| ≤ 1.1 / 10000 := by
  have hround := abs_le.mp (degToRadFp_close hu)
  have hy : (y.toInt : ℝ) = u.toInt - 62832 * j := by exact_mod_cast hj
  have hlow : (-31416 : ℝ) ≤ y.toInt := by exact_mod_cast (by omega : -31416 ≤ y.toInt)
  have hhigh : (y.toInt : ℝ) ≤ 31416 := by exact_mod_cast (by omega : y.toInt ≤ 31416)
  -- The half turns that are left are one at most, so 31416 in the place of pi is off by little.
  have hturns : |(angle.toInt / 180 - 2 * j : ℝ)| ≤ 1.001 := by
    rw [abs_le]
    constructor
    · linarith
    · linarith
  have hpi : |(31416 - 10000 * Real.pi : ℝ)| ≤ 0.08 := by
    have hgt := Real.pi_gt_d6
    have hlt := Real.pi_lt_d6
    rw [abs_le]
    constructor
    · linarith
    · linarith
  have hslope : |(31416 - 10000 * Real.pi) * (angle.toInt / 180 - 2 * j)| ≤ 0.08 * 1.001 := by
    rw [abs_mul]
    exact mul_le_mul hpi hturns (abs_nonneg _) (by norm_num)
  have hslope' := abs_le.mp hslope
  have hsplit : 10000 * (unscaled y - (inRadians angle - j * (2 * Real.pi))) =
      (u.toInt - 31416 * angle.toInt / 180) +
        (31416 - 10000 * Real.pi) * (angle.toInt / 180 - 2 * j) := by
    rw [unscaled, inRadians, hy]
    ring
  rw [abs_le]
  constructor
  · linarith
  · linarith

theorem normalized_close (h : angle.toInt.natAbs ≤ 68356) : ∃ u y, degToRadFp angle = .ok u ∧
    normalizeRadFp u = .ok y ∧ y.toInt.natAbs = reduced angle.toInt.natAbs ∧
      ∃ j : Int, |unscaled y - (inRadians angle - j * (2 * Real.pi))| ≤ 1.1 / 10000 := by
  obtain ⟨u, p, hu, huval⟩ := degToRadFp_fits h
  obtain ⟨y, hy, j, hj, habs⟩ := normalizeRadFp_spec u
  refine ⟨u, y, hu, hy, ?_, j, angle_close hu hj habs⟩
  rw [huval] at hj
  exact natAbs_eq_reduced hj habs

/-! The series, against what it comes to without rounding. -/

/-- The terms sum to what they do without rounding, but for two units. -/
def roundsClosely (n m : Nat) (ds : List Nat) : Bool :=
  match termSizes n m ds with
  | some ms => decide (n ≤ 27000) && decide (m + ms.sum < 2 ^ 31) &&
    decide (|((m - alternate ms : Int) : ℚ) / 10000 - termSum (n / 10000 : ℚ) (m / 10000) ds| ≤
      2 / 10000)
  | none => false

theorem sine_rounding_table :
    tabled 151 209 (fun n => roundsClosely n n sinDenoms) (fun _ => true) = true := by
  decide +kernel

theorem cosine_rounding_table :
    tabled 146 214 (fun n => roundsClosely n 10000 cosDenoms) (fun _ => true) = true := by
  decide +kernel

theorem sineSum_eq (x : ℝ) : sineSum 7 x = termSum x x sinDenoms := by
  simp [sineSum, termSum, sinDenoms, Finset.sum_range_succ, Nat.factorial]
  ring

theorem cosineSum_eq (x : ℝ) : cosineSum 7 x = termSum x 1 cosDenoms := by
  simp [cosineSum, termSum, cosDenoms, Finset.sum_range_succ, Nat.factorial]
  ring

theorem roundsClosely_sum (h : roundsClosely n m ds = true) : n ≤ 27000 ∧
    ∃ ms, termSizes n m ds = some ms ∧ m + ms.sum < 2 ^ 31 ∧
      |((m - alternate ms : Int) : ℝ) / 10000 - termSum (n / 10000 : ℝ) (m / 10000) ds| ≤
        2 / 10000 := by
  unfold roundsClosely at h
  split at h
  · rename_i ms hms
    simp only [Bool.and_eq_true, decide_eq_true_eq] at h
    obtain ⟨⟨hsmall, hroom⟩, hclose⟩ := h
    refine ⟨hsmall, ms, hms, hroom, ?_⟩
    have hreal : ((|((m - alternate ms : Int) : ℚ) / 10000 -
        termSum (n / 10000 : ℚ) (m / 10000) ds| : ℚ) : ℝ) ≤ ((2 / 10000 : ℚ) : ℝ) :=
      Rat.cast_le.mpr hclose
    rw [Rat.cast_abs, Rat.cast_sub, termSum_cast] at hreal
    push_cast at hreal ⊢
    exact hreal
  · cases h

theorem tail_small (h : |x| ≤ 2.7) : |x| / (2 * 7).succ ≤ 1 / 2 ∧
    |x| ^ (2 * 7) / (2 * 7).factorial * 2 ≤ 0.3 / 10000 := by
  constructor
  · rw [div_le_iff₀ (by positivity)]
    norm_num
    linarith
  · have hpow : |x| ^ 14 ≤ 2.7 ^ 14 := pow_le_pow_left₀ (abs_nonneg x) h 14
    have hfactorial : ((2 * 7).factorial : ℝ) = 87178291200 := by norm_num [Nat.factorial]
    rw [hfactorial]
    norm_num at hpow ⊢
    linarith

theorem abs_scaled_le (h : n ≤ 27000) : |(n / 10000 : ℝ)| ≤ 2.7 := by
  have hle : (n : ℝ) ≤ 27000 := by exact_mod_cast h
  rw [abs_of_nonneg (by positivity)]
  linarith

/-- The sum of a series whose terms end up rounded closely, near the function it is a series of. -/
theorem roundsClosely_near {f : ℝ} (hsum : |f - termSum (n / 10000 : ℝ) (m / 10000) ds| ≤ ε)
    (hclose : |x - termSum (n / 10000 : ℝ) (m / 10000) ds| ≤ 2 / 10000) :
    |x - f| ≤ 2 / 10000 + ε := by
  have htriangle := abs_sub_le x (termSum (n / 10000 : ℝ) (m / 10000) ds) f
  rw [abs_sub_comm f] at hsum
  linarith

theorem sinSeries_close
    (h : roundsClosely y.toInt.natAbs y.toInt.natAbs sinDenoms = true) :
    ∃ r, sinSeries y = .ok r ∧ |unscaled r - Real.sin (unscaled y)| ≤ 2.3 / 10000 := by
  obtain ⟨hsmall, ms, hms, hroom, hclose⟩ := roundsClosely_sum h
  obtain ⟨q, hq⟩ := toInt_signed y
  generalize y.toInt.natAbs = n at *
  have hs : y.toInt.natAbs + ms.sum < 2 ^ 31 := by
    rw [hq, natAbs_signed]
    exact hroom
  obtain ⟨s, hfold, hsum⟩ := series_sum sinDenom_denoms hq hq hms hs
  obtain ⟨hterms, htail⟩ := tail_small (abs_scaled_le hsmall)
  have htaylor := (sine_close hterms).trans htail
  rw [sineSum_eq] at htaylor
  have hnear := roundsClosely_near htaylor hclose
  refine ⟨s.2, by rw [sinSeries, hfold]; rfl, ?_⟩
  -- The sine of an angle and its series change their sign with it.
  cases q with
  | false =>
    have hvalue : unscaled s.2 = ((n - alternate ms : Int) : ℝ) / 10000 := by
      rw [unscaled, hsum, hq]
      simp
    have hangle : unscaled y = n / 10000 := by
      rw [unscaled, hq]
      simp
    rw [hvalue, hangle]
    linarith
  | true =>
    have hvalue : unscaled s.2 = -(((n - alternate ms : Int) : ℝ) / 10000) := by
      rw [unscaled, hsum, hq, if_pos rfl, signed_true]
      push_cast
      ring
    have hangle : unscaled y = -(n / 10000) := by
      rw [unscaled, hq, signed_true]
      push_cast
      ring
    rw [hvalue, hangle, Real.sin_neg, neg_sub_neg, abs_sub_comm]
    linarith

theorem cosSeries_close (h : roundsClosely y.toInt.natAbs 10000 cosDenoms = true) :
    ∃ r, cosSeries y = .ok r ∧ |unscaled r - Real.cos (unscaled y)| ≤ 2.3 / 10000 := by
  obtain ⟨hsmall, ms, hms, hroom, hclose⟩ := roundsClosely_sum h
  obtain ⟨q, hq⟩ := toInt_signed y
  obtain ⟨s, hfold, hsum⟩ := series_sum (s := fp) cosDenom_denoms hq toInt_fp hms hroom
  obtain ⟨hterms, htail⟩ := tail_small (abs_scaled_le hsmall)
  have htaylor := (cosine_close hterms).trans htail
  have hone : ((10000 : Nat) / 10000 : ℝ) = 1 := by norm_num
  rw [cosineSum_eq, ← hone] at htaylor
  have hnear := roundsClosely_near htaylor hclose
  refine ⟨s.2, by rw [cosSeries, hfold]; rfl, ?_⟩
  have hvalue : unscaled s.2 = (((10000 : Nat) - alternate ms : Int) : ℝ) / 10000 := by
    rw [unscaled, hsum, toInt_fp]
    simp
  have habs : |unscaled y| = y.toInt.natAbs / 10000 := by
    rw [unscaled, abs_div, Nat.cast_natAbs, Int.cast_abs, abs_of_pos (by norm_num : (0 : ℝ) < 10000)]
  rw [hvalue, ← Real.cos_abs, habs]
  linarith

/-! Together. -/

theorem sinResult_close (h : angle.toInt.natAbs ≤ 68356)
    (hrange : angle.toInt.natAbs % 360 ≤ 151 ∨ 209 ≤ angle.toInt.natAbs % 360) :
    ∃ r, sinResult angle = .ok r ∧ |unscaled r - Real.sin (inRadians angle)| ≤ 3.4 / 10000 := by
  obtain ⟨u, y, hu, hy, habs, j, hclose⟩ := normalized_close h
  obtain ⟨-, hentry⟩ | ⟨hout, -⟩ := of_table sine_rounding_table angle.toInt.natAbs
  · rw [← habs] at hentry
    obtain ⟨r, hr, hnear⟩ := sinSeries_close hentry
    refine ⟨r, ?_, ?_⟩
    · rw [sinResult, hu, ok_bind, sinFp, hy, ok_bind, hr]
    · have hlipschitz := Real.abs_sin_sub_sin_le (unscaled y) (inRadians angle - j * (2 * Real.pi))
      rw [Real.sin_sub_int_mul_two_pi] at hlipschitz
      have htriangle := abs_sub_le (unscaled r) (Real.sin (unscaled y)) (Real.sin (inRadians angle))
      linarith
  · exact absurd hrange hout

theorem cosResult_close (h : angle.toInt.natAbs ≤ 68356)
    (hrange : angle.toInt.natAbs % 360 ≤ 146 ∨ 214 ≤ angle.toInt.natAbs % 360) :
    ∃ r, cosResult angle = .ok r ∧ |unscaled r - Real.cos (inRadians angle)| ≤ 3.4 / 10000 := by
  obtain ⟨u, y, hu, hy, habs, j, hclose⟩ := normalized_close h
  obtain ⟨-, hentry⟩ | ⟨hout, -⟩ := of_table cosine_rounding_table angle.toInt.natAbs
  · rw [← habs] at hentry
    obtain ⟨r, hr, hnear⟩ := cosSeries_close hentry
    refine ⟨r, ?_, ?_⟩
    · rw [cosResult, hu, ok_bind, cosFp, hy, ok_bind, hr]
    · have hlipschitz := Real.abs_cos_sub_cos_le (unscaled y) (inRadians angle - j * (2 * Real.pi))
      rw [Real.cos_sub_int_mul_two_pi] at hlipschitz
      have htriangle := abs_sub_le (unscaled r) (Real.cos (unscaled y)) (Real.cos (inRadians angle))
      linarith
  · exact absurd hrange hout

theorem ne_min_of_near (hx : |x| ≤ 1) (h : |unscaled r - x| ≤ 3.4 / 10000) : r ≠ int32MinVal := by
  rintro rfl
  have hvalue : unscaled int32MinVal = -2147483648 / 10000 := by
    rw [unscaled, toInt_int32MinVal]
    norm_num
  rw [hvalue] at h
  have hlow := (abs_le.mp hx).1
  have hhigh := (abs_le.mp h).1
  norm_num at hhigh
  linarith

/-- Within the angles they have a result for, `calc_sin` and `calc_cos` print the sine and the
cosine to within 0.0004. -/
theorem sine_cosine_accurate (angle : U32) (h : angle.toInt.natAbs ≤ 68356) :
    (angle.toInt.natAbs % 360 ≤ 151 ∨ 209 ≤ angle.toInt.natAbs % 360 →
      PrintsNear (calcSin angle) (Real.sin (inRadians angle)) 0.0004) ∧
    (angle.toInt.natAbs % 360 ≤ 146 ∨ 214 ≤ angle.toInt.natAbs % 360 →
      PrintsNear (calcCos angle) (Real.cos (inRadians angle)) 0.0004) := by
  constructor
  · intro hrange
    obtain ⟨r, hr, hnear⟩ := sinResult_close h hrange
    rw [calcSin, hr, ok_bind]
    refine printsNear_scaled (hnear.trans (by norm_num)) ?_
    exact ne_min_of_near (Real.abs_sin_le_one _) hnear
  · intro hrange
    obtain ⟨r, hr, hnear⟩ := cosResult_close h hrange
    rw [calcCos, hr, ok_bind]
    refine printsNear_scaled (hnear.trans (by norm_num)) ?_
    exact ne_min_of_near (Real.abs_cos_le_one _) hnear

theorem sine_cosine_accurate_half : PrintsNear (calcSin 30) (Real.sin (inRadians 30)) 0.0004 :=
  (sine_cosine_accurate 30 (by decide)).1 (.inl (by decide))

end Kernix.Proofs
