import Mathlib.Analysis.SpecialFunctions.Trigonometric.Inverse
import Mathlib.Analysis.SpecialFunctions.Trigonometric.Cotangent
import Kernix.Calc.Tangents
import Kernix.Proofs.SineAccuracy

namespace Kernix.Proofs
open Library Calc

variable {angle c r s y : U32} {k : Int} {S C : ℝ}

/-! Sines of whole degrees are zero or well away from it. -/

theorem sin_degrees_zero_iff (k : Int) : Real.sin (k * Real.pi / 180) = 0 ↔ 180 ∣ k := by
  rw [Real.sin_eq_zero_iff]
  constructor
  · rintro ⟨n, hn⟩
    have hpi := Real.pi_ne_zero
    have hreal : (180 * n : ℝ) = k := by
      field_simp at hn
      linarith
    exact ⟨n, by exact_mod_cast hreal.symm⟩
  · rintro ⟨n, rfl⟩
    refine ⟨n, ?_⟩
    push_cast
    ring

theorem cos_degrees (k : Int) :
    Real.cos (k * Real.pi / 180) = Real.sin ((k + 90 : Int) * Real.pi / 180) := by
  rw [← Real.sin_add_pi_div_two]
  congr 1
  push_cast
  ring

theorem cos_degrees_zero_iff (k : Int) : Real.cos (k * Real.pi / 180) = 0 ↔ 180 ∣ k + 90 := by
  rw [cos_degrees, sin_degrees_zero_iff]

theorem sin_degrees_far_below (hlow : 1 ≤ k) (hhigh : k ≤ 90) :
    1 / 90 ≤ Real.sin (k * Real.pi / 180) := by
  have hpi := Real.pi_pos
  have hlow' : (1 : ℝ) ≤ k := by exact_mod_cast hlow
  have hhigh' : (k : ℝ) ≤ 90 := by exact_mod_cast hhigh
  have hnonneg : 0 ≤ k * Real.pi / 180 := by positivity
  have hright : k * Real.pi / 180 ≤ Real.pi / 2 := by nlinarith
  have hsin := Real.mul_le_sin hnonneg hright
  have hslope : 2 / Real.pi * (k * Real.pi / 180) = k / 90 := by
    field_simp
    ring
  rw [hslope] at hsin
  linarith

theorem sin_degrees_far (h : ¬ 180 ∣ k) : 1 / 90 ≤ |Real.sin (k * Real.pi / 180)| := by
  have hturn : (k * Real.pi / 180 : ℝ) =
      (k % 180 : Int) * Real.pi / 180 + (k / 180 : Int) * Real.pi := by
    have hsplit : (k : ℝ) = 180 * (k / 180 : Int) + (k % 180 : Int) := by
      exact_mod_cast (Int.mul_ediv_add_emod k 180).symm
    rw [hsplit]
    ring
  rw [hturn, Real.sin_add_int_mul_pi, abs_mul, abs_neg_one_zpow, one_mul]
  by_cases hright : k % 180 ≤ 90
  · exact (sin_degrees_far_below (by omega) hright).trans (le_abs_self _)
  · have hmirror : Real.sin ((k % 180 : Int) * Real.pi / 180) =
        Real.sin ((180 - k % 180 : Int) * Real.pi / 180) := by
      rw [← Real.sin_pi_sub]
      congr 1
      push_cast
      ring
    rw [hmirror]
    exact (sin_degrees_far_below (by omega) (by omega)).trans (le_abs_self _)

theorem cos_degrees_far (h : ¬ 180 ∣ k + 90) : 1 / 90 ≤ |Real.cos (k * Real.pi / 180)| := by
  rw [cos_degrees]
  exact sin_degrees_far h

/-! At the angles where the function is undefined the divisor comes out as zero, and nowhere else
near it. -/

theorem cosFp_zero (hsize : angle.toInt.natAbs ≤ 68356) (h : 180 ∣ angle.toInt + 90) :
    cosResult angle = .ok 0 := by
  obtain ⟨u, y, hu, hy, habs⟩ := normalized_magnitude hsize
  have hright : reduced angle.toInt.natAbs = 15708 := by
    have hdegrees : angle.toInt.natAbs % 360 = 90 ∨ angle.toInt.natAbs % 360 = 270 := by omega
    rw [← reduced_mod]
    obtain hd | hd := hdegrees
    · rw [hd]
      rfl
    · rw [hd]
      rfl
  rw [hright] at habs
  have hends : y = 15708 ∨ y = -15708 := by
    obtain hpos | hneg : y.toInt = 15708 ∨ y.toInt = -15708 := by omega
    · exact .inl (BitVec.eq_of_toInt_eq hpos)
    · exact .inr (BitVec.eq_of_toInt_eq hneg)
  rw [cosResult, hu, ok_bind, cosFp, hy, ok_bind]
  obtain rfl | rfl := hends
  · decide +kernel
  · decide +kernel

theorem sinFp_zero (hsize : angle.toInt.natAbs ≤ 68356) (h : 180 ∣ angle.toInt)
    (hrange : angle.toInt.natAbs % 360 ≤ 151 ∨ 209 ≤ angle.toInt.natAbs % 360) :
    sinResult angle = .ok 0 := by
  obtain ⟨u, y, hu, hy, habs⟩ := normalized_magnitude hsize
  have hzero : reduced angle.toInt.natAbs = 0 := by
    have hdegrees : angle.toInt.natAbs % 360 = 0 := by omega
    rw [← reduced_mod, hdegrees]
    rfl
  rw [hzero] at habs
  obtain rfl : y = 0 := BitVec.eq_of_toInt_eq (Int.natAbs_eq_zero.mp habs)
  rw [sinResult, hu, ok_bind, sinFp, hy, ok_bind]
  decide +kernel

/-! The quotient of two numbers in fixed point, against the quotient of what they are close to. -/

theorem abs_unscaled (v : U32) : |unscaled v| = v.toInt.natAbs / 10000 := by
  rw [unscaled, abs_div, Nat.cast_natAbs, Int.cast_abs, abs_of_pos (by norm_num : (0 : ℝ) < 10000)]

theorem natAbs_le_of_near (hs : |unscaled s - S| ≤ 3.4 / 10000) (hS : |S| ≤ 1) :
    s.toInt.natAbs ≤ 10100 := by
  have htriangle := abs_sub_abs_le_abs_sub (unscaled s) S
  rw [abs_unscaled] at htriangle
  have hle : (s.toInt.natAbs : ℝ) ≤ 10100 := by
    norm_num at hs
    linarith
  exact_mod_cast hle

theorem natAbs_ge_of_far (hc : |unscaled c - C| ≤ 3.4 / 10000) (hfar : 1 / 90 ≤ |C|) :
    2 ≤ c.toInt.natAbs := by
  have htriangle := abs_sub_abs_le_abs_sub C (unscaled c)
  rw [abs_unscaled, abs_sub_comm] at htriangle
  have hle : (2 : ℝ) ≤ c.toInt.natAbs := by
    norm_num at hc
    linarith
  exact_mod_cast hle

theorem not_undefined (h : 2 ≤ c.toInt.natAbs) : ¬ (c = 0 ∨ c = 1 ∨ c = -1) := by
  rintro (rfl | rfl | rfl)
  · exact absurd h (by decide)
  · exact absurd h (by decide)
  · exact absurd h (by decide)

/-- The quotient is cut off, by less than a unit. -/
theorem quotient_cut {product : U32} (hc : c ≠ 0) (hproduct : product.toInt = s.toInt * 10000)
    (hr : divInt product c = .ok r) :
    |unscaled s - unscaled c * unscaled r| ≤ |unscaled c| / 10000 := by
  have hquotient : r.toInt = product.toInt.tdiv c.toInt := (divInt_eq_ok hc).mp hr
  have hparts := Int.mul_tdiv_add_tmod product.toInt c.toInt
  have hne := toInt_ne_zero hc
  have hrest : (product.toInt.tmod c.toInt).natAbs ≤ c.toInt.natAbs := by
    rw [Int.natAbs_tmod]
    exact (Nat.mod_lt _ (by omega)).le
  rw [← hquotient, hproduct] at hparts
  rw [hproduct] at hrest
  have hcut : unscaled s - unscaled c * unscaled r =
      ((s.toInt * 10000).tmod c.toInt : Int) / 10000 / 10000 := by
    have hreal : (c.toInt * r.toInt + (s.toInt * 10000).tmod c.toInt : ℝ) = s.toInt * 10000 := by
      exact_mod_cast hparts
    rw [unscaled, unscaled, unscaled]
    linarith
  have hrest' : |(((s.toInt * 10000).tmod c.toInt : Int) : ℝ)| ≤ c.toInt.natAbs := by
    rw [← Int.cast_abs, ← Nat.cast_natAbs]
    exact_mod_cast hrest
  rw [hcut, abs_div, abs_div, abs_unscaled, abs_of_pos (by norm_num : (0 : ℝ) < 10000)]
  gcongr

theorem quotient_close (hs : |unscaled s - S| ≤ 3.4 / 10000) (hS : |S| ≤ 1)
    (hc : |unscaled c - C| ≤ 3.4 / 10000) (hC : |C| ≤ 1) (hfar : 1 / 90 ≤ |C|) :
    ∃ product r, mulInt s fp = .ok product ∧ divInt product c = .ok r ∧ r ≠ int32MinVal ∧
      |unscaled r - S / C| ≤ 0.0005 * (1 + |unscaled r|) / |C| := by
  have hsize := natAbs_le_of_near hs hS
  have hdivisor := natAbs_ge_of_far hc hfar
  obtain ⟨p, hp⟩ := toInt_signed s
  obtain ⟨q, hq⟩ := toInt_signed c
  obtain ⟨product, hproduct, hvalue⟩ := mulInt_signed hp toInt_fp (by omega)
  obtain ⟨r, hr, hquotient⟩ := divInt_signed hvalue hq (by omega) (by omega)
  have hcne : c ≠ 0 := by
    rintro rfl
    exact absurd hdivisor (by decide)
  refine ⟨product, r, hproduct, hr, ?_, ?_⟩
  · rintro rfl
    have habs := congrArg Int.natAbs hquotient
    have hle := Nat.div_le_self (s.toInt.natAbs * 10000) c.toInt.natAbs
    rw [natAbs_signed, toInt_int32MinVal] at habs
    omega
  have hcut := quotient_cut hcne (exactly_eq_ok.mp hproduct) hr
  have hcpos : 0 < |C| := by linarith
  have hCne : C ≠ 0 := abs_pos.mp hcpos
  have hsplit : unscaled r - S / C = ((unscaled r * (C - unscaled c)) +
      (unscaled c * unscaled r - unscaled s) + (unscaled s - S)) / C := by
    field_simp
    ring
  rw [hsplit, abs_div, div_le_div_iff_of_pos_right hcpos]
  have hfirst : |unscaled r * (C - unscaled c)| ≤ |unscaled r| * (3.4 / 10000) := by
    rw [abs_mul, abs_sub_comm]
    exact mul_le_mul_of_nonneg_left hc (abs_nonneg _)
  have hthree := abs_add_three (unscaled r * (C - unscaled c))
    (unscaled c * unscaled r - unscaled s) (unscaled s - S)
  have hcsize := abs_sub_abs_le_abs_sub (unscaled c) C
  rw [abs_sub_comm] at hcut
  have hnonneg := abs_nonneg (unscaled r)
  linarith

/-! The functions. -/

/-- A quotient is printed that is the closer to the real one, the larger the divisor is. -/
def QuotientNear (out : Exact (List Byte)) (S C : ℝ) : Prop :=
  ∃ n : FixedNumeral 4, out = .ok (text "Result: " ++ n.text ++ text "\n") ∧
    |(n.value : ℝ) - S / C| ≤ 0.0005 * (1 + |(n.value : ℝ)|) / |C|

theorem printQuotient_zero (undefined : List Byte) (s : U32) :
    printQuotient undefined s 0 = .ok undefined := rfl

theorem printQuotient_near (undefined : List Byte) (hs : |unscaled s - S| ≤ 3.4 / 10000)
    (hS : |S| ≤ 1) (hc : |unscaled c - C| ≤ 3.4 / 10000) (hC : |C| ≤ 1) (hfar : 1 / 90 ≤ |C|) :
    QuotientNear (printQuotient undefined s c) S C := by
  obtain ⟨product, r, hproduct, hr, hmin, hnear⟩ := quotient_close hs hS hc hC hfar
  have hexact : |unscaled r - unscaled r| ≤ 0 := by simp
  obtain ⟨n, hout, hvalue⟩ := printsNear_scaled hexact hmin
  have hsame : (n.value : ℝ) = unscaled r :=
    sub_eq_zero.mp (abs_nonpos_iff.mp hvalue)
  refine ⟨n, ?_, ?_⟩
  · rw [printQuotient, if_neg (not_undefined (natAbs_ge_of_far hc hfar)), hproduct, ok_bind, hr,
      ok_bind, hout]
  · rwa [hsame]

theorem QuotientNear.ne_error {out : Exact (List Byte)} (h : QuotientNear out S C) (c : Byte)
    (hc : c ≠ 0x52) (message : List Byte) : out ≠ .ok (c :: message) := by
  obtain ⟨n, hout, -⟩ := h
  rw [hout]
  intro heq
  have hhead := congrArg List.head? (Except.ok.inj heq)
  exact hc (Option.some.inj hhead).symm

/-- The two numbers that a function is the quotient of come together, or both not. -/
theorem sin_cos_results (h : angle.toInt.natAbs ≤ 68356)
    (hrange : angle.toInt.natAbs % 360 ≤ 146 ∨ 214 ≤ angle.toInt.natAbs % 360) :
    ∃ u s c, degToRadFp angle = .ok u ∧ sinFp u = .ok s ∧ cosFp u = .ok c ∧
      |unscaled s - Real.sin (inRadians angle)| ≤ 3.4 / 10000 ∧
      |unscaled c - Real.cos (inRadians angle)| ≤ 3.4 / 10000 := by
  obtain ⟨s, hs, hsnear⟩ := sinResult_close h (by omega)
  obtain ⟨c, hc, hcnear⟩ := cosResult_close h hrange
  obtain ⟨u, hu, hsu⟩ := bind_eq_ok.mp hs
  obtain ⟨u', hu', hcu⟩ := bind_eq_ok.mp hc
  obtain rfl : u = u' := Except.ok.inj (hu.symm.trans hu')
  exact ⟨u, s, c, hu, hsu, hcu, hsnear, hcnear⟩

/-- Where the cosine of the angle is zero, and only there, `calc_tan` reports that it has no result;
elsewhere it prints a number close to the tangent. So does `calc_ctg`, by the sine. -/
theorem tangents_accurate (angle : U32) (h : angle.toInt.natAbs ≤ 68356)
    (hrange : angle.toInt.natAbs % 360 ≤ 146 ∨ 214 ≤ angle.toInt.natAbs % 360) :
    ((calcTan angle = .ok tanUndefined ↔ Real.cos (inRadians angle) = 0) ∧
      (Real.cos (inRadians angle) ≠ 0 → QuotientNear (calcTan angle)
        (Real.sin (inRadians angle)) (Real.cos (inRadians angle)))) ∧
    (calcCtg angle = .ok ctgUndefined ↔ Real.sin (inRadians angle) = 0) ∧
      (Real.sin (inRadians angle) ≠ 0 → QuotientNear (calcCtg angle)
        (Real.cos (inRadians angle)) (Real.sin (inRadians angle))) := by
  obtain ⟨u, s, c, hu, hs, hc, hsnear, hcnear⟩ := sin_cos_results h hrange
  have hS := Real.abs_sin_le_one (inRadians angle)
  have hC := Real.abs_cos_le_one (inRadians angle)
  have htan : calcTan angle = printQuotient tanUndefined s c := by
    rw [calcTan, hu, ok_bind, hs, ok_bind, hc, ok_bind]
  have hctg : calcCtg angle = printQuotient ctgUndefined c s := by
    rw [calcCtg, hu, ok_bind, hs, ok_bind, hc, ok_bind]
  have htanNear (hne : Real.cos (inRadians angle) ≠ 0) := by
    have hfar := cos_degrees_far (mt (cos_degrees_zero_iff angle.toInt).mpr hne)
    exact htan ▸ printQuotient_near tanUndefined hsnear hS hcnear hC hfar
  have hctgNear (hne : Real.sin (inRadians angle) ≠ 0) := by
    have hfar := sin_degrees_far (mt (sin_degrees_zero_iff angle.toInt).mpr hne)
    exact hctg ▸ printQuotient_near ctgUndefined hcnear hC hsnear hS hfar
  refine ⟨⟨⟨?_, ?_⟩, htanNear⟩, ⟨?_, ?_⟩, hctgNear⟩
  · intro herror
    by_contra hne
    exact (htanNear hne).ne_error 0x45 (by decide) _ herror
  · intro hzero
    have hright : cosResult angle = .ok 0 := cosFp_zero h ((cos_degrees_zero_iff _).mp hzero)
    rw [cosResult, hu, ok_bind, hc] at hright
    rw [htan, Except.ok.inj hright, printQuotient_zero]
  · intro herror
    by_contra hne
    exact (hctgNear hne).ne_error 0x45 (by decide) _ herror
  · intro hzero
    have hright : sinResult angle = .ok 0 :=
      sinFp_zero h ((sin_degrees_zero_iff _).mp hzero) (by omega)
    rw [sinResult, hu, ok_bind, hs] at hright
    rw [hctg, Except.ok.inj hright, printQuotient_zero]

theorem tangents_accurate_right : calcTan 90 = .ok tanUndefined ∧
    QuotientNear (calcTan 45) (Real.sin (inRadians 45)) (Real.cos (inRadians 45)) := by
  constructor
  · exact (tangents_accurate 90 (by decide) (.inl (by decide))).1.1.mpr
      ((cos_degrees_zero_iff _).mpr (by decide))
  · exact (tangents_accurate 45 (by decide) (.inl (by decide))).1.2
      (mt (cos_degrees_zero_iff _).mp (by decide))

/-! The inverses, at the three numbers they take. -/

theorem printsNear_exact {x : ℝ} (hmin : r ≠ int32MinVal) (hr : 10000 * x = r.toInt) :
    PrintsNear (printScaledResult r fp) x 0 := by
  refine printsNear_scaled ?_ hmin
  rw [unscaled, ← hr, mul_div_cancel_left₀ _ (by norm_num), sub_self, abs_zero]

/-- Ten-thousandths of a degree, in an angle of so many right angles. -/
theorem degrees_of_rights (k : Int) :
    10000 * (k * (Real.pi / 2) * 180 / Real.pi) = (900000 * k : Int) := by
  have hpi := Real.pi_ne_zero
  push_cast
  field_simp
  ring

/-- What is printed is the angle itself, where that is a number of right angles. -/
theorem rights_printed {x : ℝ} (k : Int) (hx : x = k * (Real.pi / 2)) (hmin : r ≠ int32MinVal)
    (hr : r.toInt = 900000 * k) : PrintsNear (printScaledResult r fp) (x * 180 / Real.pi) 0 := by
  rw [hx]
  exact printsNear_exact hmin (by rw [degrees_of_rights, hr])

theorem inverses_exact (value : U32) :
    (value.toInt < -1 ∨ 1 < value.toInt →
      calcAsin value = .ok asinError ∧ calcAcos value = .ok acosError) ∧
    (¬ (value.toInt < -1 ∨ 1 < value.toInt) →
      PrintsNear (calcAsin value) (Real.arcsin value.toInt * 180 / Real.pi) 0 ∧
        PrintsNear (calcAcos value) (Real.arccos value.toInt * 180 / Real.pi) 0) := by
  constructor
  · intro hout
    rw [calcAsin, calcAcos, if_pos hout, if_pos hout]
    exact ⟨rfl, rfl⟩
  intro hin
  obtain hvalue | hvalue | hvalue : value.toInt = -1 ∨ value.toInt = 0 ∨ value.toInt = 1 := by omega
  · obtain rfl : value = -1 := BitVec.eq_of_toInt_eq hvalue
    have hasin : calcAsin (-1) = printScaledResult (-900000) fp := rfl
    have hacos : calcAcos (-1) = printScaledResult 1800000 fp := rfl
    rw [hasin, hacos, hvalue, Int.cast_neg, Int.cast_one, Real.arcsin_neg_one, Real.arccos_neg_one]
    exact ⟨rights_printed (-1) (by norm_num) (by decide) rfl,
      rights_printed 2 (by push_cast; ring) (by decide) rfl⟩
  · obtain rfl : value = 0 := BitVec.eq_of_toInt_eq hvalue
    have hasin : calcAsin 0 = printScaledResult 0 fp := rfl
    have hacos : calcAcos 0 = printScaledResult 900000 fp := rfl
    rw [hasin, hacos, hvalue, Int.cast_zero, Real.arcsin_zero, Real.arccos_zero]
    exact ⟨rights_printed 0 (by norm_num) (by decide) rfl,
      rights_printed 1 (by norm_num) (by decide) rfl⟩
  · obtain rfl : value = 1 := BitVec.eq_of_toInt_eq hvalue
    have hasin : calcAsin 1 = printScaledResult 900000 fp := rfl
    have hacos : calcAcos 1 = printScaledResult 0 fp := rfl
    rw [hasin, hacos, hvalue, Int.cast_one, Real.arcsin_one, Real.arccos_one]
    exact ⟨rights_printed 1 (by norm_num) (by decide) rfl,
      rights_printed 0 (by norm_num) (by decide) rfl⟩

end Kernix.Proofs
