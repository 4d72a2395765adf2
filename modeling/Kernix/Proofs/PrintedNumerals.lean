import Kernix.Proofs.UnsignedNumerals

namespace Kernix.Proofs
open Library Calc

variable {m n : Numeral}

/-! What is printed is the canonical numeral, and is read back. -/

/-- The canonical numeral of an integer. -/
def numeralOf (z : Int) : Numeral where
  sign := if z < 0 then .minus else .none
  digits := natNumeral z.natAbs
  nonempty := natNumeral_ne_nil _
  allDigits := natNumeral_digits _

theorem numeralOf_text (z : Int) : (numeralOf z).text = intNumeral z := by
  unfold intNumeral
  split
  · rename_i hz
    simp [numeralOf, Numeral.text, Sign.text, hz]
  · rename_i hz
    simp [numeralOf, Numeral.text, Sign.text, hz]

theorem numeralOf_magnitude (z : Int) : (numeralOf z).magnitude = z.natAbs :=
  valueFrom_natNumeral z.natAbs

theorem numeralOf_value (z : Int) : (numeralOf z).value = z := by
  rw [Numeral.value, numeralOf_magnitude, numeralOf]
  split
  · simp only [Sign.factor]
    omega
  · simp only [Sign.factor]
    omega

theorem numeralOf_canonical (z : Int) : (numeralOf z).Canonical where
  noPlus := by
    simp only [numeralOf]
    split
    · simp
    · simp
  minus := by
    intro hminus
    rw [numeralOf_value]
    by_contra hz
    simp [numeralOf, hz] at hminus
  noZero := natNumeral_head

theorem canonical_text (h : n.Canonical) : n.text = intNumeral n.value := by
  have hdigits := eq_natNumeral n.nonempty n.allDigits h.noZero
  change n.digits = natNumeral n.magnitude at hdigits
  rw [Numeral.text, Numeral.value, hdigits, intNumeral]
  cases hsign : n.sign with
  | plus => exact absurd hsign h.noPlus
  | none => simp [Sign.text, Sign.factor]
  | minus =>
    have hneg := h.minus hsign
    rw [Numeral.value, hsign] at hneg
    simp [Sign.text, Sign.factor] at hneg ⊢
    omega

theorem text_injective (h : m.text = n.text) : m = n := by
  have hblank : Blank [] := fun c hc => nomatch hc
  have htext : [] ++ (m.text ++ []) = [] ++ (n.text ++ []) := by simp [h]
  exact (token_unique hblank hblank stops_nil stops_nil htext).2.1

theorem numeralOf_isCanonicalOf (z : Int) : (numeralOf z).IsCanonicalOf z where
  canonical := numeralOf_canonical z
  value := numeralOf_value z
  unique := by
    intro m hm hvalue
    apply text_injective
    rw [canonical_text hm, hvalue, numeralOf_text]

/-- The parser gives back the word that was printed. -/
theorem parseIntToken_printed (v : U32) (behind : List Byte) :
    parseIntToken ((numeralOf v.toInt).text ++ 0 :: behind) = some (v, 0 :: behind) := by
  have hblank : Blank [] := fun c hc => nomatch hc
  have hstops : Stops isDigit (0 :: behind) := stops_cons.mpr (by decide)
  have hparsed := parseIntToken_text hblank (numeralOf v.toInt) hstops
  rw [List.nil_append] at hparsed
  rw [hparsed, Numeral.word, numeralOf_value, BitVec.ofInt_toInt]

/-- The buffer of `print_uint32` takes a byte in each of the 10 turns at most. -/
theorem storeUint_length (room : Nat) (value : U32) (buffer : List Byte) :
    (storeUint room value buffer).length ≤ buffer.length + room := by
  induction room generalizing value buffer with
  | zero => simp [storeUint]
  | succ room ih =>
    rw [storeUint]
    split
    · omega
    · have hnext := ih (value / 10) (buffer ++ [(0x30 + value % 10).setWidth 8])
      simp only [List.length_append, List.length_singleton] at hnext
      omega

/-- What `print_int32` prints is the canonical numeral of its argument, which `parse_int_token`
reads to the NUL behind it and gives back, and what `print_uint32` prints is that of the word
without a sign. Neither writes a byte outside its buffer. -/
theorem printed_reads_back (v u : U32) :
    (∃ n : Numeral, n.IsCanonicalOf v.toInt ∧ printInt32 v = .ok n.text ∧
      ∀ behind, parseIntToken (n.text ++ 0 :: behind) = some (v, 0 :: behind)) ∧
    (∃ n : Numeral, n.IsCanonicalOf u.toNat ∧ printUint32 u = n.text) ∧
    (storeUint 10 u []).length ≤ 11 := by
  refine ⟨⟨numeralOf v.toInt, numeralOf_isCanonicalOf _, ?_, parseIntToken_printed v⟩,
    ⟨numeralOf u.toNat, numeralOf_isCanonicalOf _, ?_⟩, ?_⟩
  · rw [printInt32_eq, numeralOf_text]
  · rw [printUint32_eq, numeralOf_text, intNumeral_natCast]
  · have hlength := storeUint_length 10 u []
    simp only [List.length_nil] at hlength
    omega

end Kernix.Proofs
