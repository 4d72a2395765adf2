import Mathlib.Tactic.Positivity
import Kernix.Calc.FixedPoint
import Kernix.Proofs.PrintedNumerals

namespace Kernix.Proofs
open Library Calc

variable {p f s scaled : U32} {sign : List Byte} {j k m n fuel : Nat}

/-! Decimals with a fixed number of places. -/

theorem numeralOf_natCast_sign (n : Nat) : (numeralOf n).sign = .none := by
  simp [numeralOf]

theorem printScaledResult_eq (scaled scale : U32) : printScaledResult scaled scale =
    if scaled.toInt < 0 then negInt scaled >>= fun s => printScaledMagnitude (text "-") s scale
    else printScaledMagnitude [] scaled scale := by
  unfold printScaledResult
  split
  · cases negInt scaled with
    | error e => rfl
    | ok s => rfl
  · rfl

/-- The character of the digit that a turn writes. -/
theorem addInt_digit {q : U32} (hq : q.toInt = n) (hn : n < 10) :
    ∃ c, addInt 0x30 q = .ok c ∧ c.setWidth 8 = digitChar n := by
  have hfits : Fits ((0x30 : U32).toInt + q.toInt) := by
    have hzero : (0x30 : U32).toInt = 0x30 := rfl
    unfold Fits
    omega
  refine ⟨_, exactly_eq_ok.mpr (toInt_add_of_fits hfits), ?_⟩
  have hnat := toInt_of_nonneg (v := q) (by omega)
  apply BitVec.eq_of_toNat_eq
  rw [digitChar, BitVec.toNat_setWidth, BitVec.toNat_add, BitVec.toNat_ofNat]
  have hzero : (0x30 : U32).toNat = 0x30 := rfl
  omega

/-- The loop writes the digits of a number below 10^j, where `p` is the place of the first. -/
theorem fracDigits_eq (hp : p.toInt = (10 ^ j / 10 : Nat)) (hf : f.toInt = m) (hm : m < 10 ^ j)
    (hfuel : j < fuel) : fracDigits fuel p f = .ok (fixedDigits j m) := by
  induction fuel generalizing j p f m with
  | zero => omega
  | succ fuel ih =>
    rw [fracDigits]
    cases j with
    | zero =>
      rw [if_neg (by rw [hp]; decide)]
      rfl
    | succ j =>
      have hpow : 0 < 10 ^ j := Nat.pow_pos (by decide)
      have hplace : 10 ^ (j + 1) / 10 = 10 ^ j := by
        rw [Nat.pow_succ, Nat.mul_div_cancel _ (by decide)]
      rw [hplace] at hp
      obtain ⟨q, hq, hdigit⟩ := divInt_natCast hf hp hpow
      obtain ⟨c, hc, hchar⟩ := addInt_digit hdigit (firstDigit_lt hm)
      obtain ⟨r, hr, hrest⟩ := modInt_natCast hf hp hpow
      obtain ⟨p', hp', hnext⟩ := divInt_natCast hp (b := 10) (n := 10) rfl (by decide)
      have hdigits := ih hnext hrest (Nat.mod_lt _ hpow) (Nat.lt_of_succ_lt_succ hfuel)
      rw [if_pos (by omega), hq]
      simp only [ok_bind, hc, hr, hp', hdigits, hchar]
      rfl

theorem scale_le (hk : k ≤ 9) : 10 ^ k ≤ 10 ^ 9 := Nat.pow_le_pow_right (by decide) hk

theorem toInt_scaleOf (hk : k ≤ 9) : (scaleOf k).toInt = (10 ^ k : Nat) := by
  have hle := scale_le hk
  have hnat : (scaleOf k).toNat = 10 ^ k := by
    rw [scaleOf, BitVec.toNat_ofNat]
    apply Nat.mod_eq_of_lt
    omega
  rw [BitVec.toInt_eq_toNat_cond, hnat, if_pos (by omega)]

/-- The numeral of `m / 10^k`. -/
def fixedNumeral (negative : Bool) (k m : Nat) : FixedNumeral k where
  negative := negative
  whole := numeralOf (m / 10 ^ k : Nat)
  fraction := fixedDigits k (m % 10 ^ k)
  unsigned := numeralOf_natCast_sign _
  places := fixedDigits_length k _
  allDigits := fixedDigits_digits (Nat.mod_lt _ (Nat.pow_pos (by decide)))

theorem fixedNumeral_value (negative : Bool) (k m : Nat) :
    (fixedNumeral negative k m).value = (if negative then -1 else 1) * (m / 10 ^ k : Rat) := by
  have hpow : (10 ^ k : Rat) ≠ 0 := by positivity
  have hwhole : (numeralOf (m / 10 ^ k : Nat)).magnitude = m / 10 ^ k := numeralOf_magnitude _
  have hfraction := valueFrom_fixedDigits 0 (Nat.mod_lt m (Nat.pow_pos (n := k) (a := 10) (by decide)))
  have hsplit : (10 ^ k * (m / 10 ^ k : Nat) + (m % 10 ^ k : Nat) : Rat) = m := by
    exact_mod_cast Nat.div_add_mod m (10 ^ k)
  rw [FixedNumeral.value, fixedNumeral, hwhole, hfraction, Nat.zero_mul, Nat.zero_add]
  congr 1
  rw [eq_div_iff hpow, add_mul, div_mul_cancel₀ _ hpow, mul_comm]
  exact hsplit

/-- Behind the sign, a number that is not negative is printed digit by digit. -/
theorem printScaledMagnitude_eq (hs : scaled.toInt = m) (hk : k ≤ 9) :
    printScaledMagnitude sign scaled (scaleOf k) = .ok (text "Result: " ++ sign ++
      (numeralOf (m / 10 ^ k : Nat)).text ++ text "." ++ fixedDigits k (m % 10 ^ k) ++ text "\n") := by
  have hscale := toInt_scaleOf hk
  have hpow : 0 < 10 ^ k := Nat.pow_pos (by decide)
  obtain ⟨q, hq, hwhole⟩ := divInt_natCast hs hscale hpow
  obtain ⟨r, hr, hrest⟩ := modInt_natCast hs hscale hpow
  obtain ⟨p, hp, hplace⟩ := divInt_natCast hscale (b := 10) (n := 10) rfl (by decide)
  have hdigits : fracDigits 11 p r = .ok (fixedDigits k (m % 10 ^ k)) :=
    fracDigits_eq hplace hrest (Nat.mod_lt _ hpow) (by omega)
  have hnumeral : written (printInt32 q) = .ok (numeralOf (m / 10 ^ k : Nat)).text := by
    rw [printInt32_eq, hwhole, numeralOf_text]
    rfl
  rw [printScaledMagnitude, hq]
  simp only [ok_bind, hr, hnumeral, hp, hdigits]
  rfl

/-- The magnitude behind the sign is printed exactly. -/
theorem printsScaled_magnitude (negative : Bool) (hs : s.toInt = m)
    (hv : (scaled.toInt : Rat) = (if negative then -1 else 1) * m) (hk : k ≤ 9) :
    PrintsScaled (printScaledMagnitude (if negative then text "-" else []) s (scaleOf k)) scaled k := by
  refine ⟨fixedNumeral negative k m, ?_, ?_⟩
  · have hsign : text "-" = [0x2D] := rfl
    have hpoint : text "." = [0x2E] := rfl
    rw [printScaledMagnitude_eq hs hk, FixedNumeral.text, hsign, hpoint]
    simp only [fixedNumeral, List.append_assoc]
    rfl
  · rw [fixedNumeral_value, hv, mul_div_assoc]

theorem toInt_neg_magnitude (hneg : scaled.toInt < 0) (hmin : scaled ≠ int32MinVal) :
    (-scaled).toInt = scaled.toInt.natAbs := by
  have hfits := fits_toInt scaled
  have hlow : scaled.toInt ≠ -2147483648 := by
    intro h
    exact hmin (BitVec.eq_of_toInt_eq h)
  unfold Fits at hfits
  rw [BitVec.toInt_neg, Int.bmod_eq_of_le]
  · omega
  · omega
  · omega

theorem negInt_eq (hneg : scaled.toInt < 0) (hmin : scaled ≠ int32MinVal) :
    negInt scaled = .ok (-scaled) := by
  apply exactly_eq_ok.mpr
  rw [toInt_neg_magnitude hneg hmin]
  omega

/-- A numeral has no two signs. -/
theorem FixedNumeral.text_ne (n : FixedNumeral k) (behind rest : List Byte) :
    n.text ++ behind ≠ 0x2D :: 0x2D :: rest := by
  obtain ⟨c, ds, hds, hc⟩ := digits_head n.whole []
  have hminus : c ≠ 0x2D := by
    rintro rfl
    exact absurd hc (by decide)
  rw [List.append_nil] at hds
  intro htext
  rw [FixedNumeral.text, Numeral.text, n.unsigned, hds] at htext
  cases hsign : n.negative with
  | true =>
    simp [hsign, Sign.text] at htext
    exact hminus htext.1
  | false =>
    simp [hsign, Sign.text] at htext
    exact hminus htext.1

/-- The least `int` is no smaller than any scale, so its integer part keeps the sign. -/
theorem minPart_neg {q : U32} (hk : k ≤ 9) (hq : divInt int32MinVal (scaleOf k) = .ok q) :
    q.toInt < 0 := by
  have hscale := toInt_scaleOf hk
  have hle := scale_le hk
  have hpow : 0 < 10 ^ k := Nat.pow_pos (by decide)
  have hne : scaleOf k ≠ 0 := by
    intro h
    rw [h] at hscale
    have hzero : (0 : U32).toInt = 0 := rfl
    omega
  have hquotient : 0 < 2147483648 / 10 ^ k := Nat.div_pos (by omega) hpow
  have hdiv : (2147483648 : Int).tdiv (10 ^ k : Nat) = (2147483648 / 10 ^ k : Nat) :=
    (Int.ofNat_tdiv 2147483648 (10 ^ k)).symm
  rw [(divInt_eq_ok hne).mp hq, hscale, toInt_int32MinVal, Int.neg_tdiv, hdiv]
  omega

/-- Behind a sign, the least `int` is printed with another one. -/
theorem not_printsScaled_min (hk : k ≤ 9) :
    ¬ PrintsScaled (printScaledMagnitude (text "-") int32MinVal (scaleOf k)) scaled k := by
  rintro ⟨n, hprints, _⟩
  rw [printScaledMagnitude] at hprints
  simp only [bind_eq_ok] at hprints
  obtain ⟨q, hq, _, _, cs, hcs, _, _, _, _, htext⟩ := hprints
  have hnumeral : cs = 0x2D :: natNumeral q.toInt.natAbs := by
    rw [printInt32_eq, intNumeral, if_pos (minPart_neg hk hq)] at hcs
    exact (Except.ok.inj hcs).symm
  have hshape := Except.ok.inj htext
  rw [hnumeral] at hshape
  simp only [List.append_assoc] at hshape
  exact FixedNumeral.text_ne n _ _ (List.append_cancel_left hshape).symm

/-- Without the least `int`, the negation does not overflow. -/
theorem printScaledResult_compiled (hmin : scaled ≠ int32MinVal) (scale : U32) :
    printScaledResult scaled scale = printScaledCompiled scaled scale := by
  rw [printScaledResult_eq, printScaledCompiled]
  split
  · rename_i hneg
    rw [negInt_eq hneg hmin, ok_bind]
  · rfl

theorem printsScaled_compiled (hmin : scaled ≠ int32MinVal) (hk : k ≤ 9) :
    PrintsScaled (printScaledCompiled scaled (scaleOf k)) scaled k := by
  rw [printScaledCompiled]
  split
  · rename_i hneg
    have hs := toInt_neg_magnitude hneg hmin
    have hvalue : scaled.toInt = -scaled.toInt.natAbs := by omega
    apply printsScaled_magnitude true hs _ hk
    generalize scaled.toInt.natAbs = m at hvalue
    simp [hvalue]
  · rename_i hneg
    have hs : scaled.toInt = scaled.toInt.natAbs := by omega
    apply printsScaled_magnitude false hs _ hk
    generalize scaled.toInt.natAbs = m at hs
    simp [hs]

theorem printScaledResult_min (scale : U32) :
    printScaledResult int32MinVal scale = .error .overflow := by
  have hnone : negInt int32MinVal = .error .overflow := rfl
  rw [printScaledResult_eq, if_pos (by decide), hnone, error_bind]

theorem printScaledCompiled_min (scale : U32) :
    printScaledCompiled int32MinVal scale = printScaledMagnitude (text "-") int32MinVal scale := by
  have hsame : -int32MinVal = int32MinVal := rfl
  rw [printScaledCompiled, if_pos (by decide), hsame]

/-- A number is printed as the exact decimal with `k` places, unless it is the least `int`: this
one has no negation, and as compiled comes out with two signs. -/
theorem scaled_printed_iff (scaled : U32) (k : Nat) (hk : k ≤ 9) :
    (PrintsScaled (printScaledResult scaled (scaleOf k)) scaled k ↔ scaled ≠ int32MinVal) ∧
      (PrintsScaled (printScaledCompiled scaled (scaleOf k)) scaled k ↔
        scaled ≠ int32MinVal) := by
  by_cases hmin : scaled = int32MinVal
  · subst hmin
    rw [printScaledResult_min, printScaledCompiled_min]
    refine ⟨iff_of_false ?_ (by simp), iff_of_false (not_printsScaled_min hk) (by simp)⟩
    rintro ⟨n, hprints, _⟩
    cases hprints
  · have hprints := printsScaled_compiled hmin hk
    rw [printScaledResult_compiled hmin]
    exact ⟨iff_of_true hprints hmin, iff_of_true hprints hmin⟩

theorem scaled_printed_iff_half : PrintsScaled (printScaledResult (-5) (scaleOf 1)) (-5) 1 :=
  (scaled_printed_iff (-5) 1 (by decide)).1.mpr (by decide)

/-- -214748364.8 is printed as --214748364.( -/
theorem scaled_printed_min :
    printScaledCompiled int32MinVal 10 = .ok (text "Result: --214748364.(\n") ∧
      ¬ PrintsScaled (printScaledCompiled int32MinVal 10) int32MinVal 1 ∧
      printScaledResult int32MinVal 10 = .error .overflow ∧
      ¬ PrintsScaled (printScaledResult int32MinVal 10) int32MinVal 1 := by
  refine ⟨by decide +kernel, ?_, printScaledResult_min 10, ?_⟩
  · rw [printScaledCompiled_min]
    exact not_printsScaled_min (k := 1) (by decide)
  · rw [printScaledResult_min]
    rintro ⟨n, hprints, _⟩
    cases hprints

end Kernix.Proofs
