import Kernix.Calc.Calculator
import Kernix.Library.Bits
import Kernix.Proofs.ParsedValues

namespace Kernix.Proofs
open Library Calc

variable {a b v number : U32} {buffer : List Byte} {fuel : Nat} {z : Int}

/-! The numerals that are printed. -/

theorem toNat_div_ten (number : U32) : (number / 10).toNat = number.toNat / 10 := by
  rw [BitVec.toNat_udiv]
  rfl

theorem lastDigit (number : U32) :
    (0x30 + number % 10).setWidth 8 = digitChar (number.toNat % 10) := by
  have hmod : (number % 10).toNat = number.toNat % 10 := by
    rw [BitVec.toNat_umod]
    rfl
  unfold digitChar
  apply BitVec.eq_of_toNat_eq
  rw [BitVec.toNat_setWidth, BitVec.toNat_add, hmod, BitVec.toNat_ofNat]
  have hten : (0x30 : U32).toNat = 0x30 := rfl
  omega

/-- A turn takes the last digit off the number. -/
theorem digits_turn (h : number ≠ 0) : Nat.digits 10 number.toNat =
    number.toNat % 10 :: Nat.digits 10 (number / 10).toNat := by
  rw [Nat.digits_def' (by decide) (BitVec.toNat_pos_of_ne_zero h), toNat_div_ten]

/-- The buffer takes the digits, the last one first, where there is room for them. -/
theorem storeDigits_eq (hfuel : (Nat.digits 10 number.toNat).length < fuel)
    (hroom : buffer.length + (Nat.digits 10 number.toNat).length ≤ 11) :
    storeDigits fuel number buffer =
      .ok (buffer ++ (Nat.digits 10 number.toNat).map digitChar) := by
  induction fuel generalizing number buffer with
  | zero => exact absurd hfuel (Nat.not_lt_zero _)
  | succ fuel ih =>
    rw [storeDigits]
    by_cases h0 : number = 0
    · rw [if_pos h0, h0]
      simp
    · rw [digits_turn h0, List.length_cons] at hfuel hroom
      rw [if_neg h0, if_pos (by omega), ih (by omega) (by
        rw [List.length_append, List.length_singleton]
        omega), digits_turn h0, lastDigit, List.map_cons, List.append_assoc]
      rfl

theorem digits_length (number : U32) : (Nat.digits 10 number.toNat).length ≤ 10 := by
  have hlt := number.isLt
  rw [Nat.digits_length_le_iff (by decide)]
  omega

theorem storeDigits_word (hne : number ≠ 0) : ∃ buffer, storeDigits 12 number [] = .ok buffer ∧
    buffer.reverse = natNumeral number.toNat := by
  have hlength := digits_length number
  have hpos : number.toNat ≠ 0 := Nat.ne_of_gt (BitVec.toNat_pos_of_ne_zero hne)
  refine ⟨_, storeDigits_eq (by omega) (by simpa using Nat.le_succ_of_le hlength), ?_⟩
  rw [natNumeral, if_neg hpos, List.nil_append]

/-- The magnitude of a negative `int`, as `print_int32` takes it. -/
theorem toNat_negated (hneg : v.toInt < 0) :
    ((-(v.signExtend 64)).setWidth 32 : U32).toNat = v.toInt.natAbs := by
  have hneg' : ((-(v.signExtend 64)).setWidth 32 : U32) = -v := by
    rw [BitVec.setWidth_neg_of_le (by decide), setWidth_signExtend v (by decide)]
  have hlt := v.isLt
  rw [BitVec.toInt_eq_toNat_cond] at hneg ⊢
  rw [hneg', BitVec.toNat_neg]
  split at hneg
  · omega
  · rename_i hbig
    rw [if_neg hbig]
    omega

/-- `print_int32` prints the numeral of any `int`, within its buffer. -/
theorem printInt32_eq (v : U32) : printInt32 v = .ok (intNumeral v.toInt) := by
  unfold printInt32 intNumeral
  by_cases h0 : v = 0
  · rw [if_pos h0, h0]
    decide
  rw [if_neg h0]
  by_cases hneg : v.toInt < 0
  · rw [if_pos hneg, if_pos hneg]
    have hnat := toNat_negated hneg
    have hne : ((-(v.signExtend 64)).setWidth 32 : U32) ≠ 0 := by
      intro he
      rw [he] at hnat
      exact absurd hnat (by simp; omega)
    obtain ⟨buffer, hstore, hreverse⟩ := storeDigits_word hne
    rw [hnat] at hreverse
    simp only [hstore]
    exact congrArg (fun ds => Except.ok (0x2D :: ds)) hreverse
  · rw [if_neg hneg, if_neg hneg]
    have hnat : v.toNat = v.toInt.natAbs := by
      rw [BitVec.toInt_eq_toNat_cond] at hneg ⊢
      split at hneg
      · rename_i hsmall
        rw [if_pos hsmall]
        rfl
      · have := v.isLt
        omega
    obtain ⟨buffer, hstore, hreverse⟩ := storeDigits_word h0
    rw [hnat] at hreverse
    simp only [hstore]
    exact congrArg Except.ok hreverse

/-- What the calculator prints for a result. -/
def resultText (z : Int) : List Byte := text "Result: " ++ intNumeral z ++ text "\n"

theorem printResult_eq (v : U32) : printResult v = .ok (resultText v.toInt) := by
  rw [printResult, printInt32_eq]
  rfl

/-- A result has a digit in it. -/
theorem resultText_digit (z : Int) : ∃ c ∈ resultText z, isDigit c = true := by
  obtain ⟨c, hc, hdigit⟩ := intNumeral_digit z
  refine ⟨c, ?_, hdigit⟩
  unfold resultText
  simp [hc]

/-! Sums, differences and products. -/

/-- The exact result is printed where an `int` can hold it, and no digit where none can. -/
def PrintsExact (out : Output) (z : Int) : Prop :=
  (Fits z → out = .ok (resultText z)) ∧
    (¬ Fits z → ∃ cs, out = .ok cs ∧ ∀ c ∈ cs, isDigit c = false)

theorem printsExact_iff (h : v.toInt = z.bmod (2 ^ 32)) :
    PrintsExact (printResult v) z ↔ Fits z := by
  rw [PrintsExact, printResult_eq]
  constructor
  · intro hprints
    by_contra hfits
    obtain ⟨cs, hcs, hdigits⟩ := hprints.2 hfits
    obtain ⟨c, hc, hdigit⟩ := resultText_digit v.toInt
    cases hcs
    exact Bool.false_ne_true ((hdigits c hc).symm.trans hdigit)
  · intro hfits
    have hv : v.toInt = z := by
      rw [h, Int.bmod_eq_of_le]
      · have := hfits.1
        omega
      · have := hfits.2
        omega
    exact ⟨fun _ => by rw [hv], fun hno => absurd hfits hno⟩

/-- A sum, difference or product is printed exactly, or not at all, as long as an `int` can hold
it. -/
theorem results_exact (a b : U32) :
    (PrintsExact (calcAdd a b) (a.toInt + b.toInt) ↔ Fits (a.toInt + b.toInt)) ∧
    (PrintsExact (calcSub a b) (a.toInt - b.toInt) ↔ Fits (a.toInt - b.toInt)) ∧
    (PrintsExact (calcMul a b) (a.toInt * b.toInt) ↔ Fits (a.toInt * b.toInt)) :=
  ⟨printsExact_iff (BitVec.toInt_add a b), printsExact_iff BitVec.toInt_sub,
    printsExact_iff (BitVec.toInt_mul a b)⟩

/-- 2147483647 + 1 is printed as -2147483648. -/
theorem results_exact_overflow :
    calcAdd 2147483647 1 = .ok (text "Result: -2147483648\n") ∧
      ¬ PrintsExact (calcAdd 2147483647 1) ((2147483647 : U32).toInt + (1 : U32).toInt) := by
  refine ⟨by decide, ?_⟩
  rw [calcAdd, printsExact_iff (by decide)]
  exact fun hfits => absurd hfits.2 (by decide)

end Kernix.Proofs
