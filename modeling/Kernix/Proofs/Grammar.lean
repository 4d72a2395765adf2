import Kernix.Calc.Grammar
import Kernix.Library.Scan

namespace Kernix.Proofs
open Library Calc

variable {ws ws' p q rest rest' ds : List Byte} {c : Byte} {n n' : Numeral} {e e' : Expression}
  {v : U32} {s s' : Sign}

/-! The scanning loops. -/

theorem isSpace_ne {d : Byte} (hc : isSpace c = true) (hd : isSpace d = false) : c ≠ d := by
  intro he
  subst he
  exact Bool.false_ne_true (hd.symm.trans hc)

theorem skipSpaces_eq (p : List Byte) : skipSpaces p = p.dropWhile isSpace := by
  induction p with
  | nil => rfl
  | cons c p ih =>
    rw [skipSpaces, List.dropWhile_cons]
    by_cases hc : isSpace c = true
    · rw [if_pos ⟨isSpace_ne hc rfl, hc⟩, if_pos hc, ih]
    · rw [if_neg (fun h => hc h.2), if_neg hc]

/-- A digit is added to the result modulo 2^32. -/
theorem digit_step (r : Nat) (hc : isDigit c = true) :
    BitVec.ofNat 32 r * 10 + (c.signExtend 32 - 0x30) =
      BitVec.ofNat 32 (r * 10 + digitValue c) := by
  have hrange := isDigit_iff.mp hc
  have hmsb : c.msb = false := by
    rw [BitVec.msb_eq_false_iff_two_mul_lt]
    omega
  have hwide : (c.signExtend 32).toNat = c.toNat := by
    rw [BitVec.signExtend_eq_setWidth_of_msb_false hmsb, BitVec.toNat_setWidth]
    omega
  unfold digitValue
  bv_omega

theorem readDigits_eq (r : Nat) (p : List Byte) : readDigits (BitVec.ofNat 32 r) p =
    (BitVec.ofNat 32 (valueFrom r (p.takeWhile isDigit)), p.dropWhile isDigit) := by
  induction p generalizing r with
  | nil => rfl
  | cons c p ih =>
    rw [readDigits, List.takeWhile_cons, List.dropWhile_cons]
    by_cases hc : isDigit c = true
    · rw [if_pos (by simpa [isDigit] using hc), if_pos hc, if_pos hc, digit_step r hc, ih,
        valueFrom_cons]
    · rw [if_neg (by simpa [isDigit] using hc), if_neg hc, if_neg hc, valueFrom_nil]

/-! Tokens. -/

/-- What the parser makes of a numeral. -/
def Numeral.word (n : Numeral) : U32 := BitVec.ofInt 32 n.value

theorem parseIntToken_eq (p : List Byte) : parseIntToken p =
    let r := readSign (p.dropWhile isSpace)
    if isDigit (r.2.headD 0) = true then
      some (BitVec.ofNat 32 (valueFrom 0 (r.2.takeWhile isDigit)) * r.1, r.2.dropWhile isDigit)
    else none := by
  rw [parseIntToken, skipSpaces_eq]
  generalize readSign (p.dropWhile isSpace) = r
  obtain ⟨sign, q⟩ := r
  dsimp only
  have hread : readDigits 0 q = _ := readDigits_eq 0 q
  rw [hread]
  by_cases hq : isDigit (q.headD 0) = true
  · have hrange : 0x30 ≤ (q.headD 0).toInt ∧ (q.headD 0).toInt ≤ 0x39 := by simpa [isDigit] using hq
    rw [if_pos hq, if_neg (by omega)]
  · have hrange : ¬ (0x30 ≤ (q.headD 0).toInt ∧ (q.headD 0).toInt ≤ 0x39) := by
      simpa [isDigit] using hq
    rw [if_neg hq, if_pos (by omega)]

/-- A word of a sign. -/
def Sign.word (s : Sign) : U32 := BitVec.ofInt 32 s.factor

theorem readSign_text (s : Sign) (hc : isDigit c = true) (p : List Byte) :
    readSign (s.text ++ c :: p) = (Sign.word s, c :: p) := by
  cases s with
  | plus => rfl
  | minus => rfl
  | none =>
    have hplus : c ≠ 0x2B := by
      intro he
      subst he
      exact absurd hc (by decide)
    have hminus : c ≠ 0x2D := by
      intro he
      subst he
      exact absurd hc (by decide)
    change readSign (c :: p) = _
    rw [readSign, List.headD_cons, if_neg hminus, if_neg hplus]
    rfl

theorem readSign_cases (p : List Byte) : ∃ s : Sign, p = s.text ++ (readSign p).2 ∧
    (readSign p).1 = Sign.word s := by
  cases p with
  | nil => exact ⟨.none, rfl, rfl⟩
  | cons c p =>
    unfold readSign
    rw [List.headD_cons]
    split
    · rename_i hc
      exact ⟨.minus, by rw [hc]; rfl, rfl⟩
    · split
      · rename_i hc
        exact ⟨.plus, by rw [hc]; rfl, rfl⟩
      · exact ⟨.none, rfl, rfl⟩

theorem ofNat_mul_sign (m : Nat) (s : Sign) :
    BitVec.ofNat 32 m * Sign.word s = BitVec.ofInt 32 (s.factor * m) := by
  rw [Sign.word, Int.mul_comm, BitVec.ofInt_mul, BitVec.ofInt_natCast]

theorem isSpace_digit (hc : isDigit c = true) : isSpace c = false := by
  rw [Bool.eq_false_iff]
  intro hspace
  rw [isSpace, decide_eq_true_eq] at hspace
  rcases hspace with rfl | rfl | rfl | rfl
  all_goals exact absurd hc (by decide)

/-- A digit comes first in the digits of a numeral. -/
theorem digits_head (n : Numeral) (rest : List Byte) :
    ∃ c ds, n.digits ++ rest = c :: ds ∧ isDigit c = true := by
  obtain ⟨c, ds, hds⟩ := List.exists_cons_of_ne_nil n.nonempty
  exact ⟨c, ds ++ rest, by rw [hds, List.cons_append],
    n.allDigits c (hds ▸ List.mem_cons_self)⟩

/-- The first byte of a numeral is not a blank. -/
theorem text_stops (n : Numeral) (rest : List Byte) : Stops isSpace (n.text ++ rest) := by
  obtain ⟨c, ds, hds, hc⟩ := digits_head n rest
  rw [Numeral.text, List.append_assoc, hds]
  cases n.sign with
  | plus => exact stops_cons.mpr rfl
  | minus => exact stops_cons.mpr rfl
  | none => exact stops_cons.mpr (isSpace_digit hc)

theorem readSign_numeral (n : Numeral) (rest : List Byte) :
    readSign (n.text ++ rest) = (Sign.word n.sign, n.digits ++ rest) := by
  obtain ⟨c, ds, hds, hc⟩ := digits_head n rest
  rw [Numeral.text, List.append_assoc, hds]
  exact readSign_text n.sign hc ds

/-- The parser reads a numeral to its last digit. -/
theorem parseIntToken_text (hws : Blank ws) (n : Numeral) (hrest : Stops isDigit rest) :
    parseIntToken (ws ++ (n.text ++ rest)) = some (Numeral.word n, rest) := by
  obtain ⟨c, ds, hds, hc⟩ := digits_head n rest
  have hfirst : isDigit ((n.digits ++ rest).headD 0) = true := by
    rw [hds]
    exact hc
  rw [parseIntToken_eq, dropWhile_append_stops hws (text_stops n rest), readSign_numeral]
  dsimp only
  rw [if_pos hfirst, takeWhile_append_stops n.allDigits hrest,
    dropWhile_append_stops n.allDigits hrest, ofNat_mul_sign]
  rfl

/-- What the parser takes for a numeral is one, and no digit follows it. -/
theorem parseIntToken_sound (h : parseIntToken p = some (v, rest)) :
    ∃ ws n, Blank ws ∧ p = ws ++ (Numeral.text n ++ rest) ∧ Stops isDigit rest := by
  rw [parseIntToken_eq] at h
  obtain ⟨s, htext, hword⟩ := readSign_cases (p.dropWhile isSpace)
  generalize readSign (p.dropWhile isSpace) = r at *
  obtain ⟨sign, q⟩ := r
  dsimp only at h htext hword
  by_cases hq : isDigit (q.headD 0) = true
  · rw [if_pos hq] at h
    obtain ⟨-, rfl⟩ := Prod.mk.inj (Option.some.inj h)
    have hne : q.takeWhile isDigit ≠ [] := by
      cases q with
      | nil => exact absurd hq (by decide)
      | cons c q =>
        have hc : isDigit c = true := hq
        rw [List.takeWhile_cons_of_pos hc]
        exact List.cons_ne_nil _ _
    have hdigits : ∀ c ∈ q.takeWhile isDigit, isDigit c = true :=
      fun c hc => List.mem_takeWhile_imp hc
    refine ⟨p.takeWhile isSpace, ⟨s, q.takeWhile isDigit, hne, hdigits⟩, ?_, ?_,
      dropWhile_stops _ _⟩
    · exact fun c hc => List.mem_takeWhile_imp hc
    · rw [Numeral.text, List.append_assoc, List.takeWhile_append_dropWhile, ← htext,
        List.takeWhile_append_dropWhile]
  · rw [if_neg hq] at h
    exact absurd h (by simp)

/-- A text falls apart in one way into blanks, a numeral and a rest without a digit in front. -/
theorem token_unique (hws : Blank ws) (hws' : Blank ws') (hrest : Stops isDigit rest)
    (hrest' : Stops isDigit rest') (h : ws ++ (n.text ++ rest) = ws' ++ (n'.text ++ rest')) :
    ws = ws' ∧ n = n' ∧ rest = rest' := by
  obtain ⟨hws, htext⟩ := scan_unique hws hws' (text_stops n rest) (text_stops n' rest') h
  refine ⟨hws, ?_⟩
  have hread := congrArg (fun q => (readSign q).2) htext
  simp only [readSign_numeral] at hread
  obtain ⟨hdigits, hrests⟩ := scan_unique n.allDigits n'.allDigits hrest hrest' hread
  refine ⟨?_, hrests⟩
  have hsigns : n.sign.text = n'.sign.text := by
    rw [Numeral.text, Numeral.text, List.append_assoc, List.append_assoc, hread] at htext
    exact List.append_cancel_right htext
  have hsign : n.sign = n'.sign := by
    revert hsigns
    cases n.sign <;> cases n'.sign <;> simp [Sign.text]
  obtain ⟨s, ds, hne, hds⟩ := n
  obtain ⟨s', ds', hne', hds'⟩ := n'
  dsimp only at hdigits hsign
  subst hdigits hsign
  rfl

/-! Expressions. -/

theorem blank_digits (h : Blank ws) : Stops isDigit ws := by
  intro c hc
  rw [Bool.eq_false_iff]
  intro hdigit
  have hspace := h c (List.mem_of_mem_head? hc)
  exact Bool.false_ne_true ((isSpace_digit hdigit).symm.trans hspace)

/-- An operator is no blank, no digit and no NUL. -/
theorem Expression.op_plain (e : Expression) :
    isSpace e.op = false ∧ isDigit e.op = false ∧ e.op ≠ 0 := by
  rcases e.isOp with h | h | h | h
  all_goals
    rw [h]
    decide

theorem Expression.rest_stops (e : Expression) : Stops isDigit e.rest := by
  rw [Expression.rest]
  cases hb : e.beforeOp with
  | nil => exact stops_cons.mpr (Expression.op_plain e).2.1
  | cons c ws =>
    have hblank : Blank (c :: ws) := hb ▸ e.blanks.2.1
    exact fun d hd => blank_digits hblank d hd

/-- The parser takes a text of the grammar apart as the grammar does. -/
theorem parseExpression_text (e : Expression) : parseExpression (some e.text) =
    some (Numeral.word e.left, e.op, Numeral.word e.right) := by
  obtain ⟨hbefore, hbeforeOp, hafterOp, hafter⟩ := e.blanks
  obtain ⟨hspace, -, -⟩ := Expression.op_plain e
  have hleft := parseIntToken_text hbefore e.left (Expression.rest_stops e)
  have hright := parseIntToken_text hafterOp e.right (blank_digits hafter)
  have hop : skipSpaces e.rest = e.op :: (e.afterOp ++ (e.right.text ++ e.after)) := by
    rw [skipSpaces_eq, Expression.rest]
    exact dropWhile_append_stops hbeforeOp (stops_cons.mpr hspace)
  have hend : skipSpaces e.after = [] := by
    rw [skipSpaces_eq, ← List.append_nil e.after]
    exact dropWhile_append_stops hafter stops_nil
  have hisOp : ¬ (e.op ≠ 0x2B ∧ e.op ≠ 0x2D ∧ e.op ≠ 0x2A ∧ e.op ≠ 0x2F) := by
    have := e.isOp
    tauto
  rw [parseExpression, Expression.text]
  simp only [Option.bind_eq_bind, Option.bind_some, hleft, hop, List.headD_cons, List.tail_cons,
    if_neg hisOp, hright, hend]
  rfl

/-- Where the NUL ends the scan, nothing but blanks was left. -/
theorem blank_of_end (hnul : (0 : Byte) ∉ p) (hend : (skipSpaces p).headD 0 = 0) : Blank p := by
  rw [skipSpaces_eq] at hend
  cases hs : p.dropWhile isSpace with
  | nil => exact List.dropWhile_eq_nil_iff.mp hs
  | cons c q =>
    rw [hs, List.headD_cons] at hend
    have hmem : c ∈ p.dropWhile isSpace := hs ▸ List.mem_cons_self
    exact absurd ((List.dropWhile_suffix isSpace).subset hmem) (hend ▸ hnul)

/-- An operator at the pointer is the first byte there. -/
theorem operator_first (h : ¬ (p.headD 0 ≠ 0x2B ∧ p.headD 0 ≠ 0x2D ∧ p.headD 0 ≠ 0x2A ∧
    p.headD 0 ≠ 0x2F)) :
    ∃ c, p = c :: p.tail ∧ (c = 0x2B ∨ c = 0x2D ∨ c = 0x2A ∨ c = 0x2F) := by
  cases p with
  | nil => exact absurd (by decide) h
  | cons c q =>
    rw [List.headD_cons] at h
    exact ⟨c, rfl, by tauto⟩

/-- What the parser accepts is a text of the grammar. -/
theorem parseExpression_sound {s : CString} {left right : U32} {op : Byte}
    (h : parseExpression (some s.bytes) = some (left, op, right)) :
    ∃ e : Expression, e.text = s.bytes := by
  rw [parseExpression, Option.bind_eq_bind, Option.bind_some] at h
  obtain ⟨⟨l, p⟩, hleft, h⟩ := Option.bind_eq_some_iff.mp h
  dsimp only at h
  split at h
  · cases h
  rename_i hop
  obtain ⟨⟨r, q⟩, hright, h⟩ := Option.bind_eq_some_iff.mp h
  dsimp only at h
  split at h
  · rename_i hend
    obtain ⟨ws, n, hws, htext, -⟩ := parseIntToken_sound hleft
    obtain ⟨ws', n', hws', htail, -⟩ := parseIntToken_sound hright
    obtain ⟨c, hc, hisOp⟩ := operator_first hop
    have hp : p = p.takeWhile isSpace ++ skipSpaces p := by
      rw [skipSpaces_eq, List.takeWhile_append_dropWhile]
    have hnul : (0 : Byte) ∉ q := by
      intro hmem
      apply s.noNul
      rw [htext, hp, hc, htail]
      generalize (0 : Byte) = nul at hmem ⊢
      simp [hmem]
    refine ⟨⟨ws, n, p.takeWhile isSpace, c, ws', n', q, ⟨hws, ?_, hws', ?_⟩, hisOp⟩, ?_⟩
    · exact fun d hd => List.mem_takeWhile_imp hd
    · exact blank_of_end hnul hend
    · rw [Expression.text, Expression.rest, htext]
      dsimp only
      rw [← htail, ← hc, ← hp]
  · cases h

/-- A text is one expression only. -/
theorem Expression.unique (h : e.text = e'.text) : e = e' := by
  obtain ⟨hbefore, hleft, hrest⟩ := token_unique e.blanks.1 e'.blanks.1 (Expression.rest_stops e)
    (Expression.rest_stops e') h
  obtain ⟨hbeforeOp, htail⟩ := scan_unique e.blanks.2.1 e'.blanks.2.1
    (stops_cons.mpr (Expression.op_plain e).1) (stops_cons.mpr (Expression.op_plain e').1) hrest
  obtain ⟨hop, htail⟩ := List.cons.inj htail
  obtain ⟨hafterOp, hright, hafter⟩ := token_unique e.blanks.2.2.1 e'.blanks.2.2.1
    (blank_digits e.blanks.2.2.2) (blank_digits e'.blanks.2.2.2) htail
  obtain ⟨_, _, _, _, _, _, _, _, _⟩ := e
  obtain ⟨_, _, _, _, _, _, _, _, _⟩ := e'
  dsimp only at hbefore hleft hbeforeOp hop hafterOp hright hafter
  subst hbefore hleft hbeforeOp hop hafterOp hright hafter
  rfl

/-- `parse_int_token` at `p` runs over the digits of `n` and no others, and stops at `rest`. -/
structure ReadsRun (p : List Byte) (n : Numeral) (v : U32) (rest : List Byte) : Prop where
  start : (readSign (skipSpaces p)).2 = n.digits ++ rest
  run : (readDigits 0 (n.digits ++ rest)).2 = rest
  maximal : Stops isDigit rest
  token : parseIntToken p = some (v, rest)

theorem readsRun_text (hws : Blank ws) (n : Numeral) (hrest : Stops isDigit rest) :
    ReadsRun (ws ++ (n.text ++ rest)) n (Numeral.word n) rest := by
  refine ⟨?_, ?_, hrest, parseIntToken_text hws n hrest⟩
  · rw [skipSpaces_eq, dropWhile_append_stops hws (text_stops n rest), readSign_numeral]
  · have hread : readDigits 0 (n.digits ++ rest) = _ := readDigits_eq 0 _
    rw [hread]
    exact dropWhile_append_stops n.allDigits hrest

/-- The parser accepts the texts of the grammar, in the one way each falls apart, and reads each run
of digits to its end. -/
theorem parse_expression_grammar (s : CString) :
    ((∃ left op right, parseExpression (some s.bytes) = some (left, op, right)) ↔
      ∃ e : Expression, e.text = s.bytes) ∧
    ∀ e : Expression, e.text = s.bytes → (∀ e' : Expression, e'.text = s.bytes → e' = e) ∧
      ∃ left right, parseExpression (some s.bytes) = some (left, e.op, right) ∧
        ReadsRun s.bytes e.left left e.rest ∧
        ReadsRun (e.afterOp ++ (e.right.text ++ e.after)) e.right right e.after := by
  refine ⟨⟨?_, ?_⟩, ?_⟩
  · intro hparsed
    obtain ⟨left, op, right, h⟩ := hparsed
    exact parseExpression_sound h
  · intro htext
    obtain ⟨e, he⟩ := htext
    exact ⟨_, _, _, he ▸ parseExpression_text e⟩
  · intro e he
    refine ⟨fun e' he' => Expression.unique (he'.trans he.symm), _, _,
      he ▸ parseExpression_text e, ?_, ?_⟩
    · exact he ▸ readsRun_text e.blanks.1 e.left (Expression.rest_stops e)
    · exact readsRun_text e.blanks.2.2.1 e.right (blank_digits e.blanks.2.2.2)

def two : Numeral := ⟨.none, text "2", by decide, by decide⟩

def minusThree : Numeral := ⟨.minus, text "3", by decide, by decide⟩

/-- An expression with a space on each side of the operator. -/
def spaced (left : Numeral) (op : Byte) (right : Numeral)
    (isOp : op = 0x2B ∨ op = 0x2D ∨ op = 0x2A ∨ op = 0x2F) : Expression where
  before := []
  left := left
  beforeOp := text " "
  op := op
  afterOp := text " "
  right := right
  after := []
  blanks := by unfold Blank; decide
  isOp := isOp

def difference : Expression := spaced two 0x2D minusThree (by decide)

theorem parse_expression_grammar_difference :
    (∀ e : Expression, e.text = text "2 - -3" → e = difference) ∧
    ∃ left right, parseExpression (some (text "2 - -3")) = some (left, 0x2D, right) ∧
      ReadsRun (text "2 - -3") two left difference.rest ∧
      ReadsRun (text " -3") minusThree right [] :=
  (parse_expression_grammar ⟨text "2 - -3", by decide⟩).2 difference (by decide)

end Kernix.Proofs
