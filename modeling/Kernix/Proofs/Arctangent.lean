import Kernix.Proofs.SineRange

namespace Kernix.Proofs
open Library Calc

variable {v r d e : U32}

/-- What is printed of `v` is its arctangent in degrees at the scale of 10000. -/
structure ScaledDegrees (v : U32) (d e : U32) : Prop where
  atan : atanResult v = .ok d
  sign : 0 < v.toInt ↔ 0 < d.toInt
  low : 440000 ≤ d.toInt.natAbs
  high : d.toInt.natAbs ≤ 900000
  actg : actgResult v = .ok e
  rest : e.toInt = 900000 - d.toInt

/-- A product that is an `int` has a quotient by 31416 far below the scale. -/
theorem radToDegFp_small (h : radToDegFp r = .ok d) : d.toInt.natAbs ≤ 68356 := by
  obtain ⟨c, -, hquotient⟩ := bind_eq_ok.mp h
  rw [divInt_eq_ok (by decide)] at hquotient
  have hc := fits_toInt c
  unfold Fits at hc
  have hsize : d.toInt.natAbs = c.toInt.natAbs / 31416 := by
    rw [hquotient, Int.natAbs_tdiv]
    rfl
  omega

theorem atanResult_small (h : atanResult v = .ok d) : d.toInt.natAbs ≤ 68356 := by
  obtain ⟨z, -, h⟩ := bind_eq_ok.mp h
  obtain ⟨radians, -, h⟩ := bind_eq_ok.mp h
  exact radToDegFp_small h

/-- For no `int` at all is the arctangent printed at the scale it is printed as. -/
theorem atan_never_scaled (v d e : U32) : ¬ ScaledDegrees v d e := by
  intro h
  have hsmall := atanResult_small h.atan
  have hlow := h.low
  omega

/-- The arctangent of 1 is printed as 0.0046 degrees. -/
theorem atan_of_one : atanResult 1 = .ok 46 ∧ actgResult 1 = .ok 899954 ∧
    calcAtan 1 = .ok (text "Result: 0.0046\n") := by
  refine ⟨?_, ?_, ?_⟩
  all_goals decide +kernel

/-! What is printed instead: the arctangent in whole degrees. -/

/-- The terms of `c` turns from turn `i` on. -/
def arcTerms (n : Nat) : Nat → Nat → Nat → List Nat
  | _, _, 0 => []
  | m, i, c + 1 => nextPower n m / (2 * i + 1) :: arcTerms n (nextPower n m) (i + 1) c

variable {z zpow : U32} {p : Bool} {n m i c : Nat}

theorem scaled_le (hn : n ≤ 10000) (m : Nat) : m * n / 10000 ≤ m :=
  Nat.div_le_of_le_mul (by rw [Nat.mul_comm 10000]; exact Nat.mul_le_mul_left m hn)

theorem nextPower_le (hn : n ≤ 10000) (m : Nat) : nextPower n m ≤ m :=
  Nat.le_trans (scaled_le hn _) (scaled_le hn m)

theorem arcTerms_le (hn : n ≤ 10000) : ∀ x ∈ arcTerms n m i c, x ≤ m / (2 * i + 1) := by
  induction c generalizing m i with
  | zero => simp [arcTerms]
  | succ c ih =>
    have hpower := nextPower_le hn m
    intro x hx
    rcases List.mem_cons.mp hx with rfl | hx
    · exact Nat.div_le_div_right hpower
    · calc x ≤ nextPower n m / (2 * (i + 1) + 1) := ih x hx
        _ ≤ nextPower n m / (2 * i + 1) := Nat.div_le_div_left (by omega) (by omega)
        _ ≤ m / (2 * i + 1) := Nat.div_le_div_right hpower

theorem arcTerms_fall (hn : n ≤ 10000) :
    (arcTerms n m i c).Pairwise (fun a b => b ≤ a) := by
  induction c generalizing m i with
  | zero => exact .nil
  | succ c ih =>
    refine .cons ?_ ih
    intro x hx
    exact Nat.le_trans (arcTerms_le hn x hx) (Nat.div_le_div_left (by omega) (by omega))

theorem odd_iff (hi : i < 2 ^ 31) : BitVec.ofNat 32 i &&& 1 ≠ 0 ↔ i % 2 = 1 := by
  have hand : (BitVec.ofNat 32 i &&& 1).toNat = i % 2 := by
    rw [BitVec.toNat_and, BitVec.toNat_ofNat, Nat.mod_eq_of_lt (by omega)]
    exact Nat.and_one_is_mod i
  bv_omega

theorem toInt_index (hi : i < 2 ^ 29) : (BitVec.ofNat 32 i).toInt = signed false i := by
  have hnat : (BitVec.ofNat 32 i).toNat = i := by
    rw [BitVec.toNat_ofNat, Nat.mod_eq_of_lt (by omega)]
  rw [BitVec.toInt_eq_toNat_of_lt (by omega), hnat, signed_false]

/-- What a turn divides its term by. -/
theorem arcDivisor_eq (hi : i < 2 ^ 29) : ∃ double w, mulInt 2 (BitVec.ofNat 32 i) = .ok double ∧
    addInt double 1 = .ok w ∧ w.toInt = signed false (2 * i + 1) := by
  have htwo : (2 : U32).toInt = signed false 2 := rfl
  obtain ⟨double, hdouble, hval⟩ := mulInt_signed htwo (toInt_index hi) (by omega)
  have hnext : double.toInt + (1 : U32).toInt = signed false (2 * i + 1) := by
    rw [hval]
    rfl
  obtain ⟨w, hw, hwval⟩ := exactly_fits (hnext ▸ fits_signed (by omega) false)
  exact ⟨double, w, hdouble, hw, hwval.trans hnext⟩

/-- One turn of the loop; the quotient is taken off at odd turns and added at even ones. -/
theorem atanStep_eq (hz : z.toInt = signed false n) (hpow : zpow.toInt = signed false m)
    (hn : n ≤ 10000) (hm : m ≤ 10000) (hr : r.toInt.natAbs < 2 ^ 30) (hi : i < 2 ^ 29) :
    ∃ zpow' r', atanStep z (zpow, r) (BitVec.ofNat 32 i) = .ok (zpow', r') ∧
      zpow'.toInt = signed false (nextPower n m) ∧
      r'.toInt = r.toInt + signed (decide (i % 2 = 1)) (nextPower n m / (2 * i + 1)) := by
  have hscaled := scaled_le hn m
  have hpower := nextPower_le hn m
  have hfirst : m * n ≤ 10000 * 10000 := Nat.mul_le_mul hm hn
  have hsecond : m * n / 10000 * n ≤ 10000 * 10000 := Nat.mul_le_mul (by omega) hn
  have hterm : nextPower n m / (2 * i + 1) ≤ nextPower n m := Nat.div_le_self _ _
  obtain ⟨c₁, c₂, h₁, h₂, hc₂, -⟩ := scaledProduct_signed hpow hz (by omega)
  obtain ⟨c₃, zpow', h₃, h₄, hc₄, hsize⟩ := scaledProduct_signed hc₂ hz (by omega)
  obtain ⟨c₅, c₆, h₅, h₆, hc₆⟩ := arcDivisor_eq hi
  obtain ⟨c₇, h₇, hc₇⟩ := divInt_signed hc₄ hc₆ (Nat.succ_pos _) hsize
  replace hc₇ : c₇.toInt = (nextPower n m / (2 * i + 1) : Nat) := hc₇
  generalize nextPower n m / (2 * i + 1) = term at hterm hc₇ ⊢
  by_cases hodd : i % 2 = 1
  · obtain ⟨r', hr', hval⟩ := exactly_fits (z := r.toInt - c₇.toInt) (by unfold Fits; omega)
    have hsub : subInt r c₇ = .ok r' := hr'
    refine ⟨zpow', r', ?_, hc₄, ?_⟩
    · simp only [atanStep, h₁, h₂, h₃, h₄, h₅, h₆, h₇, ok_bind,
        if_pos ((odd_iff (by omega)).mpr hodd), hsub]
      rfl
    · rw [hval, hc₇, decide_eq_true hodd, signed_true]
      rfl
  · obtain ⟨r', hr', hval⟩ := exactly_fits (z := r.toInt + c₇.toInt) (by unfold Fits; omega)
    have hadd : addInt r c₇ = .ok r' := hr'
    refine ⟨zpow', r', ?_, hc₄, ?_⟩
    · simp only [atanStep, h₁, h₂, h₃, h₄, h₅, h₆, h₇, ok_bind,
        if_neg (mt (odd_iff (by omega)).mp hodd), hadd]
      rfl
    · rw [hval, hc₇, decide_eq_false hodd, signed_false]

/-- The turns from `i` on add up the terms, the first of them with the sign of its turn. -/
theorem atanLoop_eq (hz : z.toInt = signed false n) (hpow : zpow.toInt = signed false m)
    (hn : n ≤ 10000) (hm : m ≤ 10000) (hr : r.toInt.natAbs + 10000 * c < 2 ^ 30)
    (hi : i + c < 2 ^ 29) :
    ∃ s, ((List.range' i c).map (BitVec.ofNat 32)).foldlM (atanStep z) (zpow, r) = .ok s ∧
      s.2.toInt = r.toInt + if i % 2 = 1 then -alternate (arcTerms n m i c)
        else alternate (arcTerms n m i c) := by
  induction c generalizing zpow r m i with
  | zero =>
    refine ⟨(zpow, r), rfl, ?_⟩
    simp [arcTerms]
  | succ c ih =>
    obtain ⟨zpow', r', hstep, hpow', hr'⟩ := atanStep_eq hz hpow hn hm (r := r) (by omega)
      (show i < 2 ^ 29 by omega)
    have hpower := nextPower_le hn m
    have hterm : nextPower n m / (2 * i + 1) ≤ nextPower n m := Nat.div_le_self _ _
    have hbounds := signed_bounds (decide (i % 2 = 1)) (nextPower n m / (2 * i + 1))
    have hnext : r'.toInt.natAbs + 10000 * c < 2 ^ 30 := by
      rw [hr']
      generalize nextPower n m / (2 * i + 1) = term at hterm hbounds ⊢
      omega
    obtain ⟨s, hs, hsum⟩ := ih hpow' (by omega) hnext (by omega : i + 1 + c < 2 ^ 29)
    refine ⟨s, ?_, ?_⟩
    · rw [List.range'_succ, List.map_cons, List.foldlM_cons, hstep]
      exact hs
    · rw [hsum, hr', arcTerms, alternate_cons]
      generalize nextPower n m / (2 * i + 1) = term
      by_cases hodd : i % 2 = 1
      · rw [if_pos hodd, if_neg (by omega), decide_eq_true hodd, signed_true]
        omega
      · rw [if_neg hodd, if_pos (by omega), decide_eq_false hodd, signed_false]
        omega

/-- Of a number up to 1 the series is between two thirds of it and all of it. -/
theorem atanSeries_eq (hz : z.toInt = signed false n) (hn : n ≤ 10000) :
    ∃ v, atanSeries z = .ok v ∧ (n : Int) - (n / 3 : Nat) ≤ v.toInt ∧ v.toInt ≤ n := by
  have hsmall : z.toInt.natAbs + 10000 * 8 < 2 ^ 30 := by
    rw [hz, natAbs_signed]
    omega
  obtain ⟨s, hs, hsum⟩ := atanLoop_eq (c := 8) (i := 1) hz hz hn hn hsmall (by decide)
  have hbounds := alternate_bounds (arcTerms_fall hn) (arcTerms_le (m := n) (i := 1) (c := 8) hn)
  rw [if_pos (by decide), hz, signed_false] at hsum
  refine ⟨s.2, ?_, by omega, by omega⟩
  have hturns : (List.range' 1 8).map (BitVec.ofNat 32) = [1, 2, 3, 4, 5, 6, 7, 8] := rfl
  rw [hturns] at hs
  rw [atanSeries, hs]
  rfl

theorem atanFpCore_pos (hz : z.toInt = signed false n) (depth : Nat) : atanFpCore (depth + 1) z =
    if n ≤ 10000 then atanSeries z
    else (do subInt halfPiFp (← atanFpCore depth (← divInt (← mulInt fp fp) z))) := by
  have hneg : decide (z.toInt < 0) = false := by
    rw [hz, signed_false]
    exact decide_eq_false (by omega)
  have htest : z.toInt ≤ fp.toInt ↔ n ≤ 10000 := by
    rw [hz, toInt_fp, signed_false, signed_false]
    omega
  rw [atanFpCore, hneg]
  simp only [Bool.false_eq_true, if_false, pure_bind, bind_pure, htest]

theorem atanFpCore_neg (hz : z.toInt = signed true n) (hn : 0 < n) (hsmall : n < 2 ^ 31)
    (depth : Nat) : ∃ u, u.toInt = signed false n ∧
      atanFpCore (depth + 1) z = (do negInt (← atanFpCore (depth + 1) u)) := by
  obtain ⟨u, hu, huval⟩ := negInt_signed hz hsmall
  refine ⟨u, huval, ?_⟩
  have hneg : decide (z.toInt < 0) = true := by
    rw [hz, signed_true]
    exact decide_eq_true (by omega)
  have hnot : decide (u.toInt < 0) = false := by
    rw [huval, Bool.not_true, signed_false]
    exact decide_eq_false (by omega)
  rw [atanFpCore, atanFpCore, hneg, hnot]
  simp only [if_true, Bool.false_eq_true, if_false, pure_bind, bind_pure, hu, ok_bind]
  split
  · rfl
  · simp only [bind_assoc]

/-- The radians of a whole number are between 46 and 90 degrees. -/
theorem atanFpCore_whole {a : Nat} (hz : z.toInt = signed false (a * 10000)) (ha : 0 < a)
    (hsmall : a * 10000 < 2 ^ 31) : ∃ u, atanFpCore 2 z = .ok u ∧
      ∃ size, u.toInt = signed false size ∧ 8029 ≤ size ∧ size ≤ 15708 := by
  by_cases hone : a = 1
  · have hz : z = 10000 := BitVec.eq_of_toInt_eq (by rw [hz, hone]; rfl)
    rw [hz]
    exact ⟨8132, by decide +kernel, 8132, rfl, by decide, by decide⟩
  have hproduct : mulInt fp fp = .ok 100000000 := rfl
  have hnum : (100000000 : U32).toInt = signed false 100000000 := rfl
  have hdivisor : 0 < a * 10000 := by omega
  obtain ⟨inv, hinv, hval⟩ := divInt_signed hnum hz hdivisor (by decide)
  have hquotient : 100000000 / (a * 10000) = 10000 / a :=
    Nat.mul_div_mul_right 10000 a (show 0 < 10000 by decide)
  have hle : 10000 / a ≤ 5000 := by
    calc 10000 / a ≤ 10000 / 2 := Nat.div_le_div_left (by omega) (by decide)
      _ = 5000 := rfl
  rw [hquotient] at hval
  generalize 10000 / a = n at hval hle
  obtain ⟨r, hr, hlow, hhigh⟩ := atanSeries_eq hval (by omega)
  have hcore : atanFpCore 1 inv = .ok r := by
    rw [atanFpCore_pos hval, if_pos (by omega), hr]
  have hhalf : halfPiFp.toInt = 15708 := rfl
  obtain ⟨u, hu, huval⟩ := exactly_fits (z := halfPiFp.toInt - r.toInt) (by unfold Fits; omega)
  refine ⟨u, ?_, u.toInt.toNat, ?_, by omega, by omega⟩
  · rw [atanFpCore_pos hz, if_neg (by omega), hproduct, ok_bind, hinv, ok_bind, hcore, ok_bind]
    exact hu
  · rw [signed_false]
    omega

theorem radToDegFp_whole {size : Nat} (hr : r.toInt = signed p size) (hlow : 8029 ≤ size)
    (hhigh : size ≤ 15708) : ∃ d degrees, radToDegFp r = .ok d ∧ d.toInt = signed p degrees ∧
      46 ≤ degrees ∧ degrees ≤ 90 := by
  have h180 : (180 : U32).toInt = signed false 180 := rfl
  have hpi : piFp.toInt = signed false 31416 := rfl
  obtain ⟨c, hc, hcval⟩ := mulInt_signed hr h180 (by omega)
  obtain ⟨d, hd, hdval⟩ := divInt_signed hcval hpi (by decide) (by omega)
  refine ⟨d, size * 180 / 31416, ?_, ?_, by omega, by omega⟩
  · rw [radToDegFp, hc]
    exact hd
  · rw [hdval, Bool.xor_false, Bool.xor_false]

/-- From 1 up to 214748, on either side, what is printed has the sign of the argument and is the
arctangent in whole degrees; further on the first product is no `int`. -/
theorem atanResult_whole (v : U32) (hv : v ≠ 0) : if v.toInt.natAbs ≤ 214748 then
      ∃ d degrees, atanResult v = .ok d ∧ d.toInt = signed (decide (v.toInt < 0)) degrees ∧
        46 ≤ degrees ∧ degrees ≤ 90
    else atanResult v = .error .overflow := by
  have hpos : 0 < v.toInt.natAbs := by
    have := toInt_ne_zero hv
    omega
  have hval := (signed_natAbs v.toInt).symm
  generalize v.toInt.natAbs = a at hval hpos ⊢
  split
  · rename_i hsmall
    obtain ⟨z, hz, hzval⟩ := mulInt_signed hval toInt_fp (by omega)
    rw [Bool.xor_false] at hzval
    cases hsign : decide (v.toInt < 0) with
    | false =>
      rw [hsign] at hzval
      obtain ⟨u, hu, size, husize, hlow, hhigh⟩ := atanFpCore_whole hzval hpos (by omega)
      obtain ⟨d, degrees, hd, hrest⟩ := radToDegFp_whole husize hlow hhigh
      refine ⟨d, degrees, ?_, hrest⟩
      rw [atanResult, hz, ok_bind, hu]
      exact hd
    | true =>
      rw [hsign] at hzval
      obtain ⟨w, hw, hflip⟩ := atanFpCore_neg hzval (by omega) (by omega) 1
      obtain ⟨u, hu, size, husize, hlow, hhigh⟩ := atanFpCore_whole hw hpos (by omega)
      obtain ⟨u', hu', husize'⟩ := negInt_signed husize (by omega)
      obtain ⟨d, degrees, hd, hrest⟩ := radToDegFp_whole husize' hlow hhigh
      refine ⟨d, degrees, ?_, hrest⟩
      rw [atanResult, hz, ok_bind, hflip, hu, ok_bind, hu']
      exact hd
  · rename_i hlarge
    rw [atanResult, mulInt_large hval toInt_fp (by omega)]
    rfl

end Kernix.Proofs
