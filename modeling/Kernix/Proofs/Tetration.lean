import Kernix.Calc.Powers
import Kernix.Proofs.CheckedProducts
import Kernix.Proofs.PrintedResults

namespace Kernix.Proofs
open Library Calc

variable {base power result : U32} {b h p n : Nat}

/-- A tower of `h` powers of `b`. -/
def tower (b : Nat) : Nat → Nat
  | 0 => 1
  | h + 1 => b ^ tower b h

theorem tower_one (h : Nat) : tower 1 h = 1 := by
  cases h with
  | zero => rfl
  | succ h => exact Nat.one_pow _

theorem tower_zero (h : Nat) : tower 0 h = if h % 2 = 0 then 1 else 0 := by
  induction h with
  | zero => rfl
  | succ h ih =>
    rw [tower, ih]
    by_cases heven : h % 2 = 0
    · rw [if_pos heven, if_neg (by omega)]
      rfl
    · rw [if_neg heven, if_pos (by omega)]
      rfl

theorem tower_le_succ (hb : 0 < b) (h : Nat) : tower b h ≤ tower b (h + 1) := by
  by_cases hone : b = 1
  · rw [hone, tower_one, tower_one]
  · exact Nat.le_of_lt (Nat.lt_pow_self (by omega))

/-- A tower that is out of range stays so. -/
theorem tower_mono (hb : 0 < b) (h n : Nat) : tower b h ≤ tower b (h + n) := by
  induction n with
  | zero => exact Nat.le_refl _
  | succ n ih => exact Nat.le_trans ih (tower_le_succ hb (h + n))

/-! The loops. A word that stands for a natural number of the range of `int` is one at or above 0. -/

/-- `v` is the `int` of the number `n`. -/
def Holds32 (v : U32) (n : Nat) : Prop := v.toInt = n

theorem Holds32.le (hv : Holds32 power n) : n ≤ 2147483647 := by
  have := (fits_toInt power).2
  unfold Holds32 at hv
  omega

theorem Holds32.mul {a b : U32} {m n : Nat} (ha : Holds32 a m) (hb : Holds32 b n) :
    a.toInt * b.toInt = (m * n : Nat) := by
  rw [ha, hb, Int.natCast_mul]

theorem checkedMulInt_holds {m : Nat} (ha : Holds32 power m) (hb : Holds32 base b)
    (hle : m * b ≤ 2147483647) :
    ∃ tmp, checkedMulInt power base = .ok (some tmp) ∧ Holds32 tmp (m * b) := by
  have hprod := ha.mul hb
  have hfits : Fits (power.toInt * base.toInt) := by
    rw [hprod, Fits]
    omega
  refine ⟨power * base, ?_, ?_⟩
  · rw [checkedMulInt_eq, if_pos hfits]
  · rw [Holds32, toInt_mul_of_fits hfits, hprod]

theorem checkedMulInt_refuses {m : Nat} (ha : Holds32 power m) (hb : Holds32 base b)
    (hlt : 2147483647 < m * b) : checkedMulInt power base = .ok none := by
  have hfits : ¬ Fits (power.toInt * base.toInt) := by
    rw [ha.mul hb, Fits]
    omega
  rw [checkedMulInt_eq, if_neg hfits]

/-- The inner loop comes to the power, or refuses one that is out of range. -/
theorem towerPower_eq (hbase : Holds32 base b) (hb : 0 < b) (hpower : Holds32 power p) (hp : 0 < p)
    (turns : Nat) : (p * b ^ turns ≤ 2147483647 ∧
        ∃ w, towerPower base turns power = .ok (some w) ∧ Holds32 w (p * b ^ turns)) ∨
      (2147483647 < p * b ^ turns ∧ towerPower base turns power = .ok none) := by
  induction turns generalizing power p with
  | zero =>
    rw [Nat.pow_zero, Nat.mul_one]
    exact .inl ⟨hpower.le, power, rfl, hpower⟩
  | succ turns ih =>
    have hsplit : p * b ^ (turns + 1) = p * b * b ^ turns := by
      rw [Nat.pow_succ, Nat.mul_comm (b ^ turns), Nat.mul_assoc]
    rw [hsplit, towerPower]
    by_cases hfit : p * b ≤ 2147483647
    · obtain ⟨tmp, hmul, htmp⟩ := checkedMulInt_holds hpower hbase hfit
      rw [hmul]
      exact ih htmp (Nat.mul_pos hp hb)
    · rw [checkedMulInt_refuses hpower hbase (Nat.lt_of_not_le hfit)]
      -- every further factor keeps it out of range
      have hgrows := Nat.le_mul_of_pos_right (p * b) (Nat.pow_pos (n := turns) hb)
      exact .inr ⟨by omega, rfl⟩

/-- An error in the place of a result. -/
def Refused (cs : List Byte) : Prop := text "Error: " <+: cs ∧ ¬ text "Result: " <:+: cs

theorem tooFast_refused : Refused tooFast := by
  unfold Refused
  decide

theorem towerOverflow_refused : Refused towerOverflow := by
  unfold Refused
  decide

/-- The outer loop comes to the tower, or refuses one that is out of range. -/
theorem tetrationLoop_eq (hbase : Holds32 base b) (hb : 0 < b) (turns : Nat)
    (hresult : Holds32 result (tower b h)) :
    (tower b (h + turns) ≤ 2147483647 →
        tetrationLoop base turns result = .ok (resultText (tower b (h + turns)))) ∧
      (2147483647 < tower b (h + turns) →
        ∃ cs, tetrationLoop base turns result = .ok cs ∧ Refused cs) := by
  induction turns generalizing h result with
  | zero =>
    rw [Nat.add_zero, tetrationLoop, printResult_eq, hresult]
    have := hresult.le
    exact ⟨fun _ => rfl, fun hbig => absurd hbig (by omega)⟩
  | succ turns ih =>
    have hgrows := tower_mono hb (h + 1) turns
    rw [Nat.add_right_comm, Nat.add_assoc] at hgrows
    have hpos : ¬ result.toInt < 0 := by
      rw [hresult]
      omega
    rw [tetrationLoop, if_neg hpos]
    by_cases hfast : 31 < result.toInt
    · -- 2^32 already is out of range
      have hbase2 : 2 ≤ b := by
        by_contra hsmall
        have hone : b = 1 := by omega
        rw [hresult, hone, tower_one] at hfast
        omega
      have hlarge : 2 ^ 32 ≤ tower b (h + 1) := by
        rw [hresult] at hfast
        calc 2 ^ 32 ≤ 2 ^ tower b h := Nat.pow_le_pow_right (by decide) (by omega)
          _ ≤ b ^ tower b h := Nat.pow_le_pow_left hbase2 _
      rw [if_pos hfast]
      exact ⟨fun hle => absurd hle (by omega), fun _ => ⟨tooFast, rfl, tooFast_refused⟩⟩
    · have hturns : result.toInt.toNat = tower b h := by
        rw [hresult]
        rfl
      have hpower := towerPower_eq hbase hb (show Holds32 1 1 from rfl) Nat.one_pos (tower b h)
      rw [Nat.one_mul, show b ^ tower b h = tower b (h + 1) from rfl] at hpower
      rw [if_neg hfast, hturns]
      rcases hpower with ⟨-, w, hrun, hw⟩ | ⟨hbig, hrun⟩
      · rw [hrun, Nat.add_comm turns 1, ← Nat.add_assoc]
        exact ih hw
      · rw [hrun]
        exact ⟨fun hle => absurd hle (by omega),
          fun _ => ⟨towerOverflow, rfl, towerOverflow_refused⟩⟩

/-- On base 0 the tower goes back and forth. -/
theorem calcTetration_zero {height : U32} (hpos : 0 < height.toInt) :
    calcTetration 0 height = .ok (resultText (tower 0 height.toNat)) := by
  have hnat := toInt_of_nonneg (Int.le_of_lt hpos)
  have hne : height ≠ 0 := by
    intro hzero
    rw [hzero] at hpos
    exact absurd hpos (by decide)
  have htwo : (2 : U32).toInt = (2 : Nat) := rfl
  obtain ⟨parity, hrun, hparity⟩ := modInt_natCast hnat htwo (by decide)
  rw [calcTetration, if_neg (by omega), if_neg hne, if_pos rfl, hrun, tower_zero]
  by_cases heven : height.toNat % 2 = 0
  · have hzero : parity = 0 := BitVec.eq_of_toInt_eq (by rw [hparity, heven]; rfl)
    rw [if_pos heven, hzero]
    change written (printResult 1) = _
    rw [printResult_eq]
    rfl
  · have hone : parity ≠ 0 := by
      intro hzero
      rw [hzero] at hparity
      exact heven (Int.ofNat.inj hparity.symm)
    rw [if_neg heven]
    change written (printResult (if parity = 0 then 1 else 0)) = _
    rw [if_neg hone, printResult_eq]
    rfl

/-- `calc_tetration` prints the tower where it is an `int` and an error where it is not, and comes to
no step that is out of range. -/
theorem tetration_exact (base height : U32) (hbase : 0 ≤ base.toInt) (hheight : 0 ≤ height.toInt) :
    (tower base.toNat height.toNat ≤ 2147483647 →
        calcTetration base height = .ok (resultText (tower base.toNat height.toNat))) ∧
      (2147483647 < tower base.toNat height.toNat →
        ∃ cs, calcTetration base height = .ok cs ∧ Refused cs) := by
  have hb := toInt_of_nonneg hbase
  have hh := toInt_of_nonneg hheight
  by_cases hheight0 : height = 0
  · subst hheight0
    have hrun : calcTetration base 0 = .ok (resultText (tower base.toNat 0)) := by
      change written (printResult 1) = _
      rw [printResult_eq]
      rfl
    exact ⟨fun _ => hrun, fun hbig => absurd hbig (by simp [tower])⟩
  have hpos : 0 < height.toInt := by
    have := toInt_ne_zero hheight0
    omega
  by_cases hbase0 : base = 0
  · subst hbase0
    refine ⟨fun _ => calcTetration_zero hpos, fun hbig => absurd hbig ?_⟩
    rw [show (0 : U32).toNat = 0 from rfl, tower_zero]
    split <;> omega
  · have hbpos : 0 < base.toNat := by
      have := toInt_ne_zero hbase0
      omega
    have hone : Holds32 base (tower base.toNat 1) := by
      rw [Holds32, hb, tower, tower, Nat.pow_one]
    have hloop := tetrationLoop_eq hb hbpos (height.toInt - 1).toNat hone
    rw [show 1 + (height.toInt - 1).toNat = height.toNat by omega] at hloop
    rw [calcTetration, if_neg (by omega), if_neg hheight0, if_neg hbase0, if_neg (by omega)]
    exact hloop

theorem tetration_exact_two_four : calcTetration 2 4 = .ok (resultText 65536) ∧
    ∃ cs, calcTetration 3 3 = .ok cs ∧ Refused cs :=
  ⟨(tetration_exact 2 4 (by decide) (by decide)).1 (by decide),
    (tetration_exact 3 3 (by decide) (by decide)).2 (by decide)⟩

end Kernix.Proofs
