import Kernix.Proofs.PrintedResults

namespace Kernix.Proofs
open Library Calc

variable {a b left right : U32} {p args : List Byte} {op : Byte} {z : Int} {k : Nat}

/-! Requests for help are no expressions. -/

theorem parseIntToken_none (h : isDigit ((readSign (skipSpaces p)).2.headD 0) = false) :
    parseIntToken p = none := by
  rw [parseIntToken_eq, ← skipSpaces_eq]
  exact if_neg (Bool.eq_false_iff.mp h)

/-- The words that ask for help do not start with a numeral. -/
theorem help_not_parsed (h : isHelpRequest (some args) = true) :
    parseExpression (some args) = none := by
  have hword : (skipSpaces args).take 4 = text "help" ∨ (skipSpaces args).take 2 = text "-h" ∨
      (skipSpaces args).take 6 = text "--help" := by
    unfold isHelpRequest at h
    dsimp only at h
    split at h
    · exact absurd h Bool.false_ne_true
    · split at h
      · exact absurd h Bool.false_ne_true
      · rw [decide_eq_true_eq] at h
        rcases h with h | h | h
        · exact .inl h.2
        · exact .inr (.inl h.2)
        · exact .inr (.inr h.2)
  have hdrop : ∀ n, skipSpaces args = (skipSpaces args).take n ++ (skipSpaces args).drop n :=
    fun n => (List.take_append_drop n _).symm
  have hnone : parseIntToken args = none := by
    apply parseIntToken_none
    rcases hword with htake | htake | htake
    · rw [hdrop 4, htake]
      rfl
    · rw [hdrop 2, htake]
      rfl
    · rw [hdrop 6, htake]
      rfl
  rw [parseExpression, Option.bind_eq_bind, Option.bind_some, hnone]
  rfl

/-! The quotient. -/

/-- The strings whose quotient no `int` can hold: -2^31 by -1, modulo 2^32. -/
def Overflows (s : CString) : Prop :=
  ∃ e : Expression, e.text = s.bytes ∧ e.op = 0x2F ∧
    e.left.value % 2 ^ 32 = 2 ^ 31 ∧ e.right.value % 2 ^ 32 = 2 ^ 32 - 1

/-- No division traps, and a quotient that is come to is printed. -/
def DividesSafely (s : CString) : Prop :=
  calcInit (some s.bytes) ≠ .error .divide ∧
    ∀ a b, isHelpRequest (some s.bytes) = false →
      parseExpression (some s.bytes) = some (a, 0x2F, b) → b ≠ 0 →
        ¬ (a = BitVec.intMin 32 ∧ b = -1) ∧
          calcInit (some s.bytes) = .ok (resultText (a.toInt.tdiv b.toInt))

theorem ofInt_eq_iff (hk : k < 2 ^ 32) :
    BitVec.ofInt 32 z = BitVec.ofNat 32 k ↔ z % 2 ^ 32 = k := by
  rw [← BitVec.toNat_inj, BitVec.toNat_ofInt, BitVec.toNat_ofNat, Nat.mod_eq_of_lt hk]
  omega

/-- The quotient of two words, where there is one. -/
theorem calcDiv_quotient (hb : b ≠ 0) (hno : ¬ (a = BitVec.intMin 32 ∧ b = -1)) :
    calcDiv a b = .ok (resultText (a.toInt.tdiv b.toInt)) := by
  have hdiv : (a.sdiv b).toInt = a.toInt.tdiv b.toInt := by
    apply BitVec.toInt_sdiv_of_ne_or_ne
    exact not_and_or.mp hno
  have hidiv : idiv a b = .ok (a.sdiv b) := if_neg (not_or.mpr ⟨hb, hno⟩)
  rw [calcDiv, if_neg hb, hidiv, ← hdiv, ← printResult_eq]
  rfl

theorem calcDiv_traps_iff :
    calcDiv a b = .error .divide ↔ a = BitVec.intMin 32 ∧ b = -1 := by
  constructor
  · intro htrap
    by_contra hno
    by_cases hb : b = 0
    · rw [calcDiv, if_pos hb] at htrap
      cases htrap
    · rw [calcDiv_quotient hb hno] at htrap
      cases htrap
  · intro hwords
    obtain ⟨ha, hb⟩ := hwords
    subst ha hb
    rfl

/-- An expression is evaluated by its operator. -/
theorem calcInit_parsed (h : parseExpression (some args) = some (left, op, right)) :
    isHelpRequest (some args) = false ∧ calcInit (some args) =
      if op = 0x2B then calcAdd left right
      else if op = 0x2D then calcSub left right
      else if op = 0x2A then calcMul left right
      else if op = 0x2F then calcDiv left right
      else .ok (text "Unknown operator: " ++ [op] ++ text "\n") := by
  have hhelp : isHelpRequest (some args) = false := by
    rw [Bool.eq_false_iff]
    intro hhelp
    rw [help_not_parsed hhelp] at h
    cases h
  refine ⟨hhelp, ?_⟩
  rw [calcInit, hhelp, h]
  rfl

theorem calcInit_unparsed (h : parseExpression (some args) = none) :
    ∃ cs, calcInit (some args) = .ok cs := by
  rw [calcInit, h]
  split
  · exact ⟨_, rfl⟩
  · exact ⟨_, rfl⟩

/-- The words of the operands say which integers they are, modulo 2^32. -/
theorem overflows_iff (s : CString) :
    Overflows s ↔ parseExpression (some s.bytes) = some (BitVec.intMin 32, 0x2F, -1) := by
  have hmin : BitVec.intMin 32 = BitVec.ofNat 32 (2 ^ 31) := rfl
  have hone : (-1 : U32) = BitVec.ofNat 32 (2 ^ 32 - 1) := rfl
  constructor
  · intro hoverflows
    obtain ⟨e, he, hop, hleft, hright⟩ := hoverflows
    have hparse := parseExpression_text e
    rw [he, hop] at hparse
    rw [hparse, hmin, hone, ← (ofInt_eq_iff (by decide)).mpr hleft,
      ← (ofInt_eq_iff (by decide)).mpr hright]
    rfl
  · intro h
    obtain ⟨e, he⟩ := parseExpression_sound h
    have hparse := parseExpression_text e
    rw [he, h] at hparse
    obtain ⟨hleft, hrest⟩ := Prod.mk.inj (Option.some.inj hparse)
    obtain ⟨hop, hright⟩ := Prod.mk.inj hrest
    rw [hmin] at hleft
    rw [hone] at hright
    exact ⟨e, he, hop.symm, (ofInt_eq_iff (by decide)).mp hleft.symm,
      (ofInt_eq_iff (by decide)).mp hright.symm⟩

/-- The calculator traps on one quotient only. -/
theorem calcInit_traps_iff : calcInit (some args) = .error .divide ↔
    parseExpression (some args) = some (BitVec.intMin 32, 0x2F, -1) := by
  constructor
  · intro htrap
    cases hparse : parseExpression (some args) with
    | none =>
      obtain ⟨cs, hcs⟩ := calcInit_unparsed hparse
      rw [hcs] at htrap
      cases htrap
    | some operands =>
      obtain ⟨left, op, right⟩ := operands
      rw [(calcInit_parsed hparse).2] at htrap
      split at htrap
      · rw [calcAdd, printResult_eq] at htrap
        cases htrap
      · split at htrap
        · rw [calcSub, printResult_eq] at htrap
          cases htrap
        · split at htrap
          · rw [calcMul, printResult_eq] at htrap
            cases htrap
          · split at htrap
            · rename_i hop
              obtain ⟨hleft, hright⟩ := calcDiv_traps_iff.mp htrap
              rw [hop, hleft, hright]
            · cases htrap
  · intro hparse
    rw [(calcInit_parsed hparse).2]
    exact calcDiv_traps_iff.mpr ⟨rfl, rfl⟩

/-- The calculator divides safely exactly where the string is no division of -2^31 by -1. -/
theorem division_safe_iff (s : CString) : DividesSafely s ↔ ¬ Overflows s := by
  rw [overflows_iff, ← calcInit_traps_iff]
  constructor
  · exact fun hsafe => hsafe.1
  · intro hno
    refine ⟨hno, ?_⟩
    intro a b _ hparse hb
    have hpair : ¬ (a = BitVec.intMin 32 ∧ b = -1) := by
      intro hwords
      obtain ⟨ha, hb⟩ := hwords
      subst ha hb
      exact hno (calcInit_traps_iff.mpr hparse)
    refine ⟨hpair, ?_⟩
    rw [(calcInit_parsed hparse).2]
    exact calcDiv_quotient hb hpair

def intMinText : CString := ⟨text "-2147483648 / -1", by decide⟩

/-- -2147483648 / -1 stops the processor. -/
theorem division_safe_iff_trap :
    calcInit (some intMinText.bytes) = .error .divide ∧ ¬ DividesSafely intMinText := by
  have hparse : parseExpression (some intMinText.bytes) = some (BitVec.intMin 32, 0x2F, -1) := by
    decide
  have htrap : calcInit (some intMinText.bytes) = .error .divide := calcInit_traps_iff.mpr hparse
  exact ⟨htrap, fun hsafe => hsafe.1 htrap⟩

end Kernix.Proofs
