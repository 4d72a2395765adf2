import Kernix.Calc.Arithmetic

namespace Kernix.Proofs
open Library Calc

variable {a b v : U32} {m z : Int}

/-! One computation after another. -/

@[simp] theorem ok_bind {α β : Type} (c : α) (f : α → Exact β) :
    (Except.ok c >>= f : Exact β) = f c := rfl

@[simp] theorem error_bind {α β : Type} (e : Stop) (f : α → Exact β) :
    (Except.error e >>= f : Exact β) = .error e := rfl

theorem bind_eq_ok {α β : Type} {x : Exact α} {f : α → Exact β} {c : β} :
    x >>= f = .ok c ↔ ∃ a, x = .ok a ∧ f a = .ok c := by
  cases x with
  | error e => simp
  | ok a => simp

/-! Steps that stay in the range of `int`. -/

theorem fits_toInt (a : U32) : Fits a.toInt := by
  have hlow := BitVec.le_toInt a
  have hhigh := BitVec.toInt_lt (x := a)
  unfold Fits
  omega

theorem toInt_ofFits (h : Fits z) : (BitVec.ofInt 32 z).toInt = z := by
  unfold Fits at h
  apply BitVec.toInt_ofInt_eq_self (by decide)
  · omega
  · omega

theorem toInt_of_nonneg (h : 0 ≤ v.toInt) : v.toInt = v.toNat := by
  have hlt := v.isLt
  rw [BitVec.toInt_eq_toNat_cond] at h ⊢
  split at h
  · rename_i hsmall
    rw [if_pos hsmall]
  · omega

theorem exactly_eq_ok : exactly z = .ok v ↔ v.toInt = z := by
  unfold exactly
  constructor
  · intro h
    split at h
    · rename_i hz
      rw [← Except.ok.inj h]
      exact toInt_ofFits hz
    · cases h
  · intro h
    rw [← h, if_pos (fits_toInt v), BitVec.ofInt_toInt]

theorem exactly_fits (h : Fits z) : ∃ v, exactly z = .ok v ∧ v.toInt = z :=
  ⟨_, exactly_eq_ok.mpr (toInt_ofFits h), toInt_ofFits h⟩

theorem exactly_overflow (h : ¬ Fits z) : exactly z = .error .overflow := if_neg h

theorem toInt_mul_of_fits (h : Fits (a.toInt * b.toInt)) : (a * b).toInt = a.toInt * b.toInt := by
  rw [← toInt_ofFits h, BitVec.ofInt_mul, BitVec.ofInt_toInt, BitVec.ofInt_toInt]

theorem toInt_add_of_fits (h : Fits (a.toInt + b.toInt)) : (a + b).toInt = a.toInt + b.toInt := by
  rw [← toInt_ofFits h, BitVec.ofInt_add, BitVec.ofInt_toInt, BitVec.ofInt_toInt]

theorem toInt_sub_of_fits (h : Fits (a.toInt - b.toInt)) : (a - b).toInt = a.toInt - b.toInt := by
  unfold Fits at h
  rw [BitVec.toInt_sub]
  apply Int.bmod_eq_of_le
  · omega
  · omega

theorem mulInt_ok (h : Fits (a.toInt * b.toInt)) : mulInt a b = .ok (a * b) :=
  exactly_eq_ok.mpr (toInt_mul_of_fits h)

theorem divInt_eq_ok (hb : b ≠ 0) : divInt a b = .ok v ↔ v.toInt = a.toInt.tdiv b.toInt := by
  rw [divInt, if_neg hb, exactly_eq_ok]

/-- A quotient by a divisor other than 1 and -1 is an `int`, and so is that of all but -2^31. -/
theorem divInt_ok (hb : b ≠ 0) (h : b ≠ -1 ∨ a ≠ int32MinVal) :
    ∃ q, divInt a b = .ok q ∧ q.toInt = a.toInt.tdiv b.toInt := by
  have hquotient : (a.sdiv b).toInt = a.toInt.tdiv b.toInt := by
    apply BitVec.toInt_sdiv_of_ne_or_ne
    exact h.symm
  exact ⟨_, (divInt_eq_ok hb).mpr hquotient, hquotient⟩

/-! Division of numbers that are not negative. -/

theorem fits_natCast {m n : Nat} (h : m ≤ n) (hn : Fits n) : Fits m := by
  unfold Fits at hn ⊢
  omega

theorem divInt_natCast {m n : Nat} (ha : a.toInt = m) (hb : b.toInt = n) (hn : 0 < n) :
    ∃ c, divInt a b = .ok c ∧ c.toInt = (m / n : Nat) := by
  have hne : b ≠ 0 := by
    rintro rfl
    have hzero : (0 : U32).toInt = 0 := rfl
    omega
  have hle : m / n ≤ m := Nat.div_le_self m n
  rw [divInt, if_neg hne, ha, hb, ← Int.ofNat_tdiv]
  exact exactly_fits (fits_natCast hle (ha ▸ fits_toInt a))

theorem modInt_natCast {m n : Nat} (ha : a.toInt = m) (hb : b.toInt = n) (hn : 0 < n) :
    ∃ c, modInt a b = .ok c ∧ c.toInt = (m % n : Nat) := by
  obtain ⟨q, hq, _⟩ := divInt_natCast ha hb hn
  have hle : m % n ≤ m := Nat.mod_le m n
  rw [modInt, hq, ok_bind, ha, hb, ← Int.ofNat_tmod]
  exact exactly_fits (fits_natCast hle (ha ▸ fits_toInt a))

/-! The tests of `checked_mul_int`: a quotient is passed where the product passes the dividend. -/

theorem toInt_ne_zero (h : a ≠ 0) : a.toInt ≠ 0 := by
  intro hzero
  exact h (BitVec.eq_of_toInt_eq hzero)

/-- Dividend and divisor above 0. -/
theorem tdiv_lt_iff {d e : Int} (hm : 0 ≤ m) (hd : 0 < d) : m.tdiv d < e ↔ m < e * d := by
  rw [Int.tdiv_eq_ediv_of_nonneg hm, Int.ediv_lt_iff_lt_mul hd]

/-- The dividend below 0. -/
theorem lt_neg_tdiv_iff {d e : Int} (hm : 0 ≤ m) (hd : 0 < d) :
    e < (-m).tdiv d ↔ e * d < -m := by
  have hflip := tdiv_lt_iff (e := -e) hm hd
  rw [Int.neg_mul] at hflip
  rw [Int.neg_tdiv]
  omega

/-- The divisor below 0. -/
theorem lt_tdiv_neg_iff {d e : Int} (hm : 0 ≤ m) (hd : d < 0) : e < m.tdiv d ↔ m < e * d := by
  have hflip := tdiv_lt_iff (d := -d) (e := -e) hm (by omega)
  rw [Int.neg_mul_neg] at hflip
  rw [← Int.neg_neg d, Int.tdiv_neg, Int.neg_neg]
  omega

theorem toInt_int32MaxVal : int32MaxVal.toInt = 2147483647 := rfl

theorem toInt_int32MinVal : int32MinVal.toInt = -2147483648 := rfl

/-- What follows the tests. -/
theorem product_or_none {test : Prop} [Decidable test]
    (h : test ↔ ¬ Fits (a.toInt * b.toInt)) :
    (if test then return none else do return some (← mulInt a b) : Exact (Option U32)) =
      .ok (if Fits (a.toInt * b.toInt) then some (a * b) else none) := by
  by_cases hfits : Fits (a.toInt * b.toInt)
  · rw [if_neg (fun htest => h.mp htest hfits), if_pos hfits, mulInt_ok hfits]
    rfl
  · rw [if_pos (h.mpr hfits), if_neg hfits]
    rfl

theorem checkedMulInt_pos (hcorner : ¬ (a = -1 ∧ b = int32MinVal))
    (hcorner' : ¬ (b = -1 ∧ a = int32MinVal)) (ha : 0 < a.toInt) (hb : b ≠ 0) :
    checkedMulInt a b = .ok (if Fits (a.toInt * b.toInt) then some (a * b) else none) := by
  have ha0 : a ≠ 0 := by
    rintro rfl
    exact absurd ha (by decide)
  have ha1 : a ≠ -1 := by
    rintro rfl
    exact absurd ha (by decide)
  unfold checkedMulInt
  rw [if_neg (not_or.mpr ⟨ha0, hb⟩), if_neg hcorner, if_neg hcorner', if_pos ha]
  by_cases hpos : 0 < b.toInt
  · have hneg : ¬ b.toInt < 0 := by omega
    obtain ⟨q, hq, hquotient⟩ := divInt_ok hb (.inr (by decide : int32MaxVal ≠ int32MinVal))
    simp only [if_pos hpos, if_neg hneg, hq]
    apply product_or_none
    have htest := tdiv_lt_iff (m := 2147483647) (e := a.toInt) (by decide) hpos
    have hprod := Int.mul_pos ha hpos
    rw [hquotient, toInt_int32MaxVal, htest, Fits]
    omega
  · have hneg : b.toInt < 0 := by
      have := toInt_ne_zero hb
      omega
    obtain ⟨q, hq, hquotient⟩ := divInt_ok ha0 (.inl ha1 : a ≠ -1 ∨ int32MinVal ≠ int32MinVal)
    simp only [if_neg hpos, if_pos hneg, hq]
    apply product_or_none
    have htest := lt_neg_tdiv_iff (m := 2147483648) (e := b.toInt) (by decide) ha
    have hprod := Int.mul_neg_of_neg_of_pos hneg ha
    rw [hquotient, toInt_int32MinVal, htest, Int.mul_comm a.toInt, Fits]
    omega

theorem checkedMulInt_neg (hcorner : ¬ (a = -1 ∧ b = int32MinVal))
    (hcorner' : ¬ (b = -1 ∧ a = int32MinVal)) (ha : a.toInt < 0) (hb : b ≠ 0) :
    checkedMulInt a b = .ok (if Fits (a.toInt * b.toInt) then some (a * b) else none) := by
  have ha0 : a ≠ 0 := by
    rintro rfl
    exact absurd ha (by decide)
  unfold checkedMulInt
  rw [if_neg (not_or.mpr ⟨ha0, hb⟩), if_neg hcorner, if_neg hcorner', if_neg (by omega)]
  by_cases hpos : 0 < b.toInt
  · have hneg : ¬ (b.toInt < 0 ∧ a ≠ 0) := by omega
    have hb1 : b ≠ -1 := by
      rintro rfl
      exact absurd hpos (by decide)
    obtain ⟨q, hq, hquotient⟩ := divInt_ok hb (.inl hb1 : b ≠ -1 ∨ int32MinVal ≠ int32MinVal)
    simp only [if_pos hpos, if_neg hneg, hq]
    apply product_or_none
    have htest := lt_neg_tdiv_iff (m := 2147483648) (e := a.toInt) (by decide) hpos
    have hprod := Int.mul_neg_of_neg_of_pos ha hpos
    rw [hquotient, toInt_int32MinVal, htest, Fits]
    omega
  · have hneg : b.toInt < 0 := by
      have := toInt_ne_zero hb
      omega
    obtain ⟨q, hq, hquotient⟩ := divInt_ok ha0 (.inr (by decide : int32MaxVal ≠ int32MinVal))
    simp only [if_neg hpos, if_pos (And.intro hneg ha0), hq]
    apply product_or_none
    have htest := lt_tdiv_neg_iff (m := 2147483647) (e := b.toInt) (by decide) ha
    have hprod := Int.mul_pos_of_neg_of_neg ha hneg
    rw [hquotient, toInt_int32MaxVal, htest, Int.mul_comm a.toInt, Fits]
    rw [Int.mul_comm] at hprod
    omega

theorem checkedMulInt_zero (h : a = 0 ∨ b = 0) :
    checkedMulInt a b = .ok (if Fits (a.toInt * b.toInt) then some (a * b) else none) := by
  have hint : a.toInt * b.toInt = 0 := by
    rcases h with h | h <;> simp [h]
  have hword : a * b = 0 := by
    rcases h with h | h <;> simp [h]
  rw [checkedMulInt, if_pos h, hint, hword, if_pos (by decide)]
  rfl

theorem checkedMulInt_eq (a b : U32) :
    checkedMulInt a b = .ok (if Fits (a.toInt * b.toInt) then some (a * b) else none) := by
  by_cases hzero : a = 0 ∨ b = 0
  · exact checkedMulInt_zero hzero
  obtain ⟨ha, hb⟩ := not_or.mp hzero
  by_cases hcorner : a = -1 ∧ b = int32MinVal
  · obtain ⟨rfl, rfl⟩ := hcorner
    decide
  by_cases hcorner' : b = -1 ∧ a = int32MinVal
  · obtain ⟨rfl, rfl⟩ := hcorner'
    decide
  by_cases hpos : 0 < a.toInt
  · exact checkedMulInt_pos hcorner hcorner' hpos hb
  · have := toInt_ne_zero ha
    exact checkedMulInt_neg hcorner hcorner' (by omega) hb

/-- `checked_mul_int` gives the product where it is an `int` and is false elsewhere, and none of its
divisions traps or overflows. -/
theorem checked_mul_int_exact (a b : U32) :
    checkedMulInt a b = .ok (if Fits (a.toInt * b.toInt) then some (a * b) else none) ∧
      (Fits (a.toInt * b.toInt) → (a * b).toInt = a.toInt * b.toInt) :=
  ⟨checkedMulInt_eq a b, toInt_mul_of_fits⟩

end Kernix.Proofs
