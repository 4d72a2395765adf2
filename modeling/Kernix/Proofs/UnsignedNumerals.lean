import Kernix.Calc.Powers
import Kernix.Proofs.CheckedProducts
import Kernix.Proofs.PrintedResults

namespace Kernix.Proofs
open Library Calc

variable {value : U32} {buffer : List Byte} {m n room : Nat} {z : Int}

/-! The numerals that `print_uint32` prints. -/

/-- The loop takes all the digits, where there is room for them. -/
theorem storeUint_eq (hroom : (Nat.digits 10 value.toNat).length ≤ room) :
    storeUint room value buffer = buffer ++ (Nat.digits 10 value.toNat).map digitChar := by
  induction room generalizing value buffer with
  | zero =>
    rw [storeUint, List.eq_nil_of_length_eq_zero (Nat.le_zero.mp hroom)]
    simp
  | succ room ih =>
    rw [storeUint]
    by_cases h0 : value = 0
    · rw [if_pos h0, h0]
      simp
    · rw [digits_turn h0, List.length_cons] at hroom
      rw [if_neg h0, ih (by omega), digits_turn h0, lastDigit, List.map_cons, List.append_assoc]
      rfl

theorem printUint32_eq (value : U32) : printUint32 value = natNumeral value.toNat := by
  unfold printUint32
  by_cases h0 : value = 0
  · rw [if_pos h0, h0]
    rfl
  · have hpos : value.toNat ≠ 0 := Nat.ne_of_gt (BitVec.toNat_pos_of_ne_zero h0)
    rw [if_neg h0, storeUint_eq (digits_length value), natNumeral, if_neg hpos, List.nil_append]

theorem intNumeral_natCast (n : Nat) : intNumeral n = natNumeral n := by
  rw [intNumeral, if_neg (by omega), Int.natAbs_natCast]

/-- What is printed is a result: that of the word without a sign. -/
theorem printUnsigned_eq (value : U32) : printUnsigned value = resultText value.toNat := by
  rw [printUnsigned, printUint32_eq, resultText, intNumeral_natCast]

/-- A numeral of a negative number starts with a sign. -/
theorem intNumeral_injective : Function.Injective intNumeral := by
  intro y z h
  have hsign : ∀ {m n : Nat}, 0x2D :: natNumeral m ≠ natNumeral n := by
    intro m n hsigned
    have hdigit := natNumeral_digits n 0x2D (hsigned ▸ List.mem_cons_self)
    exact absurd hdigit (by decide)
  unfold intNumeral at h
  by_cases hy : y < 0
  · by_cases hz : z < 0
    · rw [if_pos hy, if_pos hz] at h
      have := natNumeral_injective (List.cons.inj h).2
      omega
    · rw [if_pos hy, if_neg hz] at h
      exact absurd h hsign
  · by_cases hz : z < 0
    · rw [if_neg hy, if_pos hz] at h
      exact absurd h.symm hsign
    · rw [if_neg hy, if_neg hz] at h
      have := natNumeral_injective h
      omega

theorem resultText_injective : Function.Injective resultText := by
  intro y z h
  unfold resultText at h
  exact intNumeral_injective (List.append_cancel_left (List.append_cancel_right h))

/-- The word is printed right where it is at or above 0. -/
theorem printUnsigned_iff (value : U32) :
    printUnsigned value = resultText value.toInt ↔ 0 ≤ value.toInt := by
  rw [printUnsigned_eq, resultText_injective.eq_iff]
  constructor
  · intro h
    omega
  · exact fun h => (toInt_of_nonneg h).symm

end Kernix.Proofs
