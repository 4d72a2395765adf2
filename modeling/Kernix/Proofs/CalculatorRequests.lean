import Kernix.Calc.Requests
import Kernix.Proofs.CheckedProducts
import Kernix.Proofs.Division

namespace Kernix.Proofs
open Library Calc

variable {s : CString} {p word rest : List Byte} {e : Expression} {n : Numeral}

/-! Requests for help. -/

/-- A byte of a word. -/
def isInk (c : Byte) : Bool := decide (c ≠ 0) && !isSpace c

theorem skipWord_eq (p : List Byte) : skipWord p = p.dropWhile isInk := by
  induction p with
  | nil => rfl
  | cons c p ih =>
    rw [skipWord]
    by_cases hc : c ≠ 0 ∧ ¬ isSpace c
    · have hink : isInk c = true := by
        rw [isInk, decide_eq_true hc.1]
        simp [hc.2]
      rw [if_pos hc, ih, List.dropWhile_cons_of_pos hink]
    · rw [if_neg hc, List.dropWhile_cons_of_neg]
      intro hink
      simp only [isInk, Bool.and_eq_true, decide_eq_true_eq, Bool.not_eq_true'] at hink
      exact hc ⟨hink.1, by simp [hink.2]⟩

/-- The comparisons character by character are one with the whole word. -/
theorem word_compared (word rest : List Byte) :
    (((word ++ rest).length - rest.length = 4 ∧ (word ++ rest).take 4 = text "help") ∨
      ((word ++ rest).length - rest.length = 2 ∧ (word ++ rest).take 2 = text "-h") ∨
      ((word ++ rest).length - rest.length = 6 ∧ (word ++ rest).take 6 = text "--help")) ↔
      word ∈ helpWords := by
  have hlen : (word ++ rest).length - rest.length = word.length := by
    rw [List.length_append]
    omega
  have hword : ∀ name : List Byte,
      (word.length = name.length ∧ (word ++ rest).take name.length = name) ↔ word = name := by
    intro name
    constructor
    · rintro ⟨hlength, htake⟩
      rw [← htake, ← hlength, List.take_left]
    · rintro rfl
      exact ⟨rfl, List.take_left⟩
  simp only [hlen, helpWords, List.mem_cons, List.not_mem_nil, or_false]
  exact or_congr (hword (text "help")) (or_congr (hword (text "-h")) (hword (text "--help")))

theorem helpWord_ink : ∀ word ∈ helpWords, word ≠ [] ∧ ∀ c ∈ word, isInk c = true := by decide

theorem isInk_blank {c : Byte} (h : isSpace c = true) : isInk c = false := by simp [isInk, h]

theorem isSpace_ink {c : Byte} (h : isInk c = true) : isSpace c = false := by
  simp only [isInk, Bool.and_eq_true, Bool.not_eq_true'] at h
  exact h.2

theorem blank_stops (h : Blank p) : Stops isInk p := by
  intro c hc
  exact isInk_blank (h c (List.mem_of_mem_head? hc))

/-- The word behind the first blanks is compared where nothing but blanks follows it. -/
theorem isHelpRequest_word (hs : skipSpaces p = word ++ rest) (hne : word ≠ [])
    (hink : ∀ c ∈ word, isInk c = true) (hrest : Stops isInk rest) :
    isHelpRequest (some p) = true ↔ word ∈ helpWords ∧ (skipSpaces rest).headD 0 = 0 := by
  have hhead : (word ++ rest).headD 0 ≠ 0 := by
    cases word with
    | nil => exact absurd rfl hne
    | cons c word =>
      have hc := hink c List.mem_cons_self
      simp only [isInk, Bool.and_eq_true, decide_eq_true_eq] at hc
      exact hc.1
  have hskip : skipWord (word ++ rest) = rest := by
    rw [skipWord_eq, dropWhile_append_stops hink hrest]
  rw [isHelpRequest]
  dsimp only
  rw [hs, if_neg hhead, hskip]
  by_cases hend : (skipSpaces rest).headD 0 = 0
  · rw [if_neg (not_not.mpr hend), decide_eq_true_eq, word_compared]
    exact (and_iff_left hend).symm
  · rw [if_pos hend]
    exact iff_of_false Bool.false_ne_true fun h => hend h.2

theorem isHelpRequest_iff (s : CString) :
    isHelpRequest (some s.bytes) = true ↔ AsksForHelp s.bytes := by
  constructor
  · intro h
    have hscan := skipSpaces_eq s.bytes
    have hsplit := List.takeWhile_append_dropWhile (p := isInk) (l := skipSpaces s.bytes)
    have hblank := List.takeWhile_append_dropWhile (p := isSpace) (l := s.bytes)
    have hstops := dropWhile_stops isInk (skipSpaces s.bytes)
    by_cases hword : (skipSpaces s.bytes).takeWhile isInk = []
    · -- What follows the blanks is no word: a blank cannot, so the string ends there.
      exfalso
      have hnil : skipSpaces s.bytes = [] := by
        rw [hword, List.nil_append] at hsplit
        rw [hsplit] at hstops
        cases hp : skipSpaces s.bytes with
        | nil => rfl
        | cons c q =>
          have hspace : isSpace c = false := by
            have hfirst := dropWhile_stops isSpace s.bytes
            rw [← hscan, hp] at hfirst
            exact stops_cons.mp hfirst
          have hc : isInk c = false := by
            rw [hp] at hstops
            exact stops_cons.mp hstops
          have hzero : c = 0 := by simpa [isInk, hspace] using hc
          have hmem : c ∈ skipSpaces s.bytes := hp ▸ List.mem_cons_self
          rw [hscan] at hmem
          exact absurd ((List.dropWhile_suffix isSpace).subset hmem) (hzero ▸ s.noNul)
      rw [isHelpRequest] at h
      simp [hnil] at h
    · have hiff := isHelpRequest_word hsplit.symm hword (fun c hc => List.mem_takeWhile_imp hc) hstops
      obtain ⟨hmem, hend⟩ := hiff.mp h
      refine ⟨s.bytes.takeWhile isSpace, _, (skipSpaces s.bytes).dropWhile isInk,
        fun c hc => List.mem_takeWhile_imp hc, hmem, ?_, ?_⟩
      · apply blank_of_end _ hend
        intro hnul
        apply s.noNul
        have hin := (List.dropWhile_suffix isInk).subset hnul
        rw [hscan] at hin
        exact (List.dropWhile_suffix isSpace).subset hin
      · rw [hsplit, hscan, hblank]
  · rintro ⟨before, word, after, hbefore, hword, hafter, htext⟩
    obtain ⟨hne, hink⟩ := helpWord_ink word hword
    have hfirst : Stops isSpace (word ++ after) := by
      cases word with
      | nil => exact absurd rfl hne
      | cons c word => exact stops_cons.mpr (isSpace_ink (hink c List.mem_cons_self))
    have hskip : skipSpaces s.bytes = word ++ after := by
      rw [htext, skipSpaces_eq, dropWhile_append_stops hbefore hfirst]
    have hend : skipSpaces after = [] := by
      rw [skipSpaces_eq]
      exact List.dropWhile_eq_nil_iff.mpr hafter
    rw [isHelpRequest_word hskip hne hink (blank_stops hafter)]
    exact ⟨hword, by rw [hend]; rfl⟩

/-! Expressions in range. -/

theorem answer_eq (h : ¬ (e.op = 0x2F ∧ e.right.value = 0)) : e.answer = resultText e.result :=
  if_neg h

theorem calcInit_inRange (h : e.InRange) : calcInit (some e.text) = .ok e.answer := by
  have hleft := word_toInt h.left
  have hright := word_toInt h.right
  have hresult := h.result
  rw [(calcInit_parsed (parseExpression_text e)).2]
  rcases e.isOp with hop | hop | hop | hop
  · have hsum : e.result = e.left.value + e.right.value := if_pos hop
    rw [hsum, ← hleft, ← hright] at hresult
    rw [hop, if_pos rfl, calcAdd, printResult_eq, toInt_add_of_fits hresult, answer_eq (by simp [hop]),
      hsum, hleft, hright]
  · have hdifference : e.result = e.left.value - e.right.value := by
      rw [Expression.result, hop]
      rfl
    rw [hdifference, ← hleft, ← hright] at hresult
    rw [hop, if_neg (by decide), if_pos rfl, calcSub, printResult_eq, toInt_sub_of_fits hresult,
      answer_eq (by simp [hop]), hdifference, hleft, hright]
  · have hproduct : e.result = e.left.value * e.right.value := by
      rw [Expression.result, hop]
      rfl
    rw [hproduct, ← hleft, ← hright] at hresult
    rw [hop, if_neg (by decide), if_neg (by decide), if_pos rfl, calcMul, printResult_eq,
      toInt_mul_of_fits hresult, answer_eq (by simp [hop]), hproduct, hleft, hright]
  · have hquotient : e.result = e.left.value.tdiv e.right.value := by
      rw [Expression.result, hop]
      rfl
    rw [hop, if_neg (by decide), if_neg (by decide), if_neg (by decide), if_pos rfl]
    by_cases hzero : e.right.value = 0
    · have hword : Numeral.word e.right = 0 := by
        rw [← BitVec.toInt_inj, hright, hzero]
        rfl
      rw [hword, Expression.answer, if_pos ⟨hop, hzero⟩]
      rfl
    · have hword : Numeral.word e.right ≠ 0 := by
        intro h0
        rw [h0] at hright
        exact hzero hright.symm
      have hno : ¬ (Numeral.word e.left = BitVec.intMin 32 ∧ Numeral.word e.right = -1) := by
        rintro ⟨hmin, hone⟩
        rw [hmin] at hleft
        rw [hone] at hright
        rw [hquotient, ← hleft, ← hright] at hresult
        exact absurd hresult (by decide)
      rw [calcDiv_quotient hword hno, answer_eq fun h => hzero h.2, hquotient, hleft, hright]

/-- The command knows three kinds of text, and none is of two kinds: requests for help, expressions,
which are answered exactly as long as an `int` can hold the operands and the result, and the rest. -/
theorem calc_init_answers (s : CString) :
    (isHelpRequest (some s.bytes) = true ↔ AsksForHelp s.bytes) ∧
    (AsksForHelp s.bytes → (∀ e : Expression, e.text ≠ s.bytes) ∧
      calcInit (some s.bytes) = .ok calcPrintHelp) ∧
    (∀ e : Expression, e.text = s.bytes → e.InRange → calcInit (some s.bytes) = .ok e.answer) ∧
    (¬ AsksForHelp s.bytes → (∀ e : Expression, e.text ≠ s.bytes) →
      calcInit (some s.bytes) = .ok usage) := by
  refine ⟨isHelpRequest_iff s, ?_, ?_, ?_⟩
  · intro hasks
    have hhelp := (isHelpRequest_iff s).mpr hasks
    refine ⟨?_, ?_⟩
    · intro e he
      have hparse := parseExpression_text e
      rw [he, help_not_parsed hhelp] at hparse
      cases hparse
    · rw [calcInit, if_pos hhelp]
      rfl
  · intro e he hrange
    rw [← he]
    exact calcInit_inRange hrange
  · intro hasks hnone
    have hparse : parseExpression (some s.bytes) = none := by
      cases hparse : parseExpression (some s.bytes) with
      | none => rfl
      | some operands =>
        obtain ⟨left, op, right⟩ := operands
        obtain ⟨e, he⟩ := parseExpression_sound hparse
        exact absurd he (hnone e)
    rw [calcInit, if_neg (mt (isHelpRequest_iff s).mp hasks), hparse]
    rfl

end Kernix.Proofs
