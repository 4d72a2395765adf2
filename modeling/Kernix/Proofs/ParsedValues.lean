import Kernix.Proofs.Grammar

namespace Kernix.Proofs
open Library Calc

variable {ds : List Byte} {n : Numeral} {r : Nat} {left right : U32} {op : Byte}

/-! Which numerals are read without leaving the range of `int`. -/

/-- No step goes past what the digits stand for. -/
theorem steps_fit (ds : List Byte) (h : valueFrom r ds ≤ 2147483647) :
    ∀ z ∈ steps r ds, Fits z := by
  induction ds generalizing r with
  | nil => exact fun z hz => nomatch hz
  | cons c ds ih =>
    rw [valueFrom_cons] at h
    have hle := le_valueFrom (r * 10 + digitValue c) ds
    intro z hz
    rw [steps, List.mem_cons, List.mem_cons] at hz
    rcases hz with rfl | rfl | hz
    · exact ⟨by omega, by omega⟩
    · exact ⟨by omega, by omega⟩
    · exact ih h z (by exact_mod_cast hz)

/-- The last step is what the digits stand for. -/
theorem valueFrom_le (hr : r ≤ 2147483647) (h : ∀ z ∈ steps r ds, Fits z) :
    valueFrom r ds ≤ 2147483647 := by
  induction ds generalizing r with
  | nil => exact hr
  | cons c ds ih =>
    rw [steps] at h
    have hstep := (h _ (List.mem_cons_of_mem _ List.mem_cons_self)).2
    rw [valueFrom_cons]
    apply ih
    · omega
    · intro z hz
      apply h z
      apply List.mem_cons_of_mem
      apply List.mem_cons_of_mem
      exact_mod_cast hz

theorem value_fits (h : n.magnitude ≤ 2147483647) : Fits n.value := by
  unfold Numeral.value
  cases n.sign with
  | minus => exact ⟨by simp only [Sign.factor]; omega, by simp only [Sign.factor]; omega⟩
  | plus => exact ⟨by simp only [Sign.factor]; omega, by simp only [Sign.factor]; omega⟩
  | none => exact ⟨by simp only [Sign.factor]; omega, by simp only [Sign.factor]; omega⟩

theorem stepsFit_iff (n : Numeral) : n.StepsFit ↔ n.magnitude ≤ 2147483647 := by
  constructor
  · intro h
    exact valueFrom_le (Nat.zero_le _) h.1
  · intro h
    exact ⟨steps_fit n.digits h, value_fits h⟩

theorem word_toInt (h : Fits n.value) : (Numeral.word n).toInt = n.value := by
  obtain ⟨hlow, hhigh⟩ := h
  apply BitVec.toInt_ofInt_eq_self (by decide)
  · omega
  · omega

/-- Where the parser accepts a string, its operands are the integers of the string and no step on
the way overflows, exactly as long as neither magnitude is above the largest `int`. -/
theorem parsed_operands_exact (s : CString)
    (h : parseExpression (some s.bytes) = some (left, op, right)) :
    ∃ e : Expression, e.text = s.bytes ∧
      ((left.toInt = e.left.value ∧ right.toInt = e.right.value ∧
          e.left.StepsFit ∧ e.right.StepsFit) ↔
        e.left.magnitude ≤ 2147483647 ∧ e.right.magnitude ≤ 2147483647) := by
  obtain ⟨e, he⟩ := parseExpression_sound h
  have hwords := parseExpression_text e
  rw [he, h] at hwords
  obtain ⟨hleft, hrest⟩ := Prod.mk.inj (Option.some.inj hwords)
  obtain ⟨-, hright⟩ := Prod.mk.inj hrest
  refine ⟨e, he, ?_⟩
  rw [hleft, hright, stepsFit_iff, stepsFit_iff]
  constructor
  · exact fun ⟨_, _, hfits⟩ => hfits
  · intro hfits
    exact ⟨word_toInt (value_fits hfits.1), word_toInt (value_fits hfits.2), hfits⟩

def aboveMax : Numeral := ⟨.none, text "2147483648", by decide, by decide⟩

/-- 2147483648 is read as -2147483648. -/
theorem parsed_operands_exact_wrapped :
    parseExpression (some (text "2147483648 - -3")) = some (0x80000000, 0x2D, -3) ∧
      ∀ e : Expression, e.text = text "2147483648 - -3" →
        e.left.value = 2147483648 ∧ (0x80000000 : U32).toInt = -2147483648 := by
  refine ⟨by decide, ?_⟩
  intro e he
  have hsum : (spaced aboveMax 0x2D minusThree (by decide)).text = text "2147483648 - -3" := by
    decide
  rw [Expression.unique (he.trans hsum.symm)]
  decide

theorem parsed_operands_exact_difference :
    ∃ e : Expression, e.text = text "2 - -3" ∧
      (((2 : U32).toInt = e.left.value ∧ (-3 : U32).toInt = e.right.value ∧
          e.left.StepsFit ∧ e.right.StepsFit) ↔
        e.left.magnitude ≤ 2147483647 ∧ e.right.magnitude ≤ 2147483647) := by
  have h : parseExpression (some (text "2 - -3")) = some (2, 0x2D, -3) := by decide
  exact parsed_operands_exact ⟨text "2 - -3", by decide⟩ h

end Kernix.Proofs
