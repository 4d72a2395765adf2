import Kernix.Library.Lexicographic
import Kernix.Strings.Compare
import Kernix.Calc.Grammar

namespace Kernix.Proofs
open Library Strings Calc

variable {a b behind behind' : List Byte} {c : Byte} {r : U32}

/-! What `strcmp` compares. -/

theorem byteLt_asymm (c d : Byte) (h : ByteLt c d) : ¬ ByteLt d c := Nat.lt_asymm h

theorem byteLt_zero (h : c ≠ 0) : ByteLt 0 c := BitVec.toNat_pos_of_ne_zero h

/-- The loop runs to the first difference or to the NULs. -/
theorem strcmp_eq (ha : (0 : Byte) ∉ a) (hb : (0 : Byte) ∉ b) :
    strcmp (a ++ 0 :: behind) (b ++ 0 :: behind') =
      some ((firstDifference 0 a b).1.setWidth 32 - (firstDifference 0 a b).2.setWidth 32) := by
  induction a generalizing b with
  | nil =>
    cases b with
    | nil => simp [strcmp, firstDifference]
    | cons d b => simp [strcmp, firstDifference]
  | cons c a ih =>
    have hc : c ≠ 0 := fun h => ha (h ▸ List.mem_cons_self)
    cases b with
    | nil => simp [strcmp, firstDifference]
    | cons d b =>
      have ha' : (0 : Byte) ∉ a := fun h => ha (List.mem_cons_of_mem _ h)
      have hb' : (0 : Byte) ∉ b := fun h => hb (List.mem_cons_of_mem _ h)
      by_cases h : c = d
      · subst h
        simp only [List.cons_append, strcmp, firstDifference, hc, ne_eq, not_false_eq_true,
          and_self, if_true]
        exact ih ha' hb'
      · simp [strcmp, firstDifference, h]

theorem strcmp_some (a b : CString) : ∃ r, ∀ behind behind',
    strcmp (a.bytes ++ 0 :: behind) (b.bytes ++ 0 :: behind') = some r :=
  ⟨_, fun _ _ => strcmp_eq a.noNul b.noNul⟩

theorem toInt_byte_sub (c d : Byte) :
    (c.setWidth 32 - d.setWidth 32 : U32).toInt = (c.toNat : Int) - d.toNat := by
  have hc := c.isLt
  have hd := d.isLt
  have hwide : ∀ e : Byte, (e.setWidth 32 : U32).toInt = e.toNat := by
    intro e
    have he := e.isLt
    rw [BitVec.toInt_eq_toNat_cond, BitVec.toNat_setWidth]
    omega
  rw [BitVec.toInt_sub, hwide, hwide, Int.bmod_eq_of_le]
  · omega
  · omega

/-- The result is the difference of the first bytes that differ. -/
theorem strcmp_toInt (ha : (0 : Byte) ∉ a) (hb : (0 : Byte) ∉ b)
    (h : strcmp (a ++ 0 :: behind) (b ++ 0 :: behind') = some r) :
    r.toInt = ((firstDifference 0 a b).1.toNat : Int) - (firstDifference 0 a b).2.toNat := by
  rw [strcmp_eq ha hb] at h
  rw [← Option.some.inj h, toInt_byte_sub]

theorem strcmp_zero_iff (ha : (0 : Byte) ∉ a) (hb : (0 : Byte) ∉ b)
    (h : strcmp (a ++ 0 :: behind) (b ++ 0 :: behind') = some r) : r = 0 ↔ a = b := by
  have hr := strcmp_toInt ha hb h
  rw [← firstDifference_eq_iff ha hb]
  constructor
  · rintro rfl
    have hzero : (0 : U32).toInt = 0 := rfl
    apply BitVec.eq_of_toNat_eq
    omega
  · intro hsame
    apply BitVec.eq_of_toInt_eq
    rw [hr, hsame, Int.sub_self]
    rfl

theorem strcmp_neg_iff (ha : (0 : Byte) ∉ a) (hb : (0 : Byte) ∉ b)
    (h : strcmp (a ++ 0 :: behind) (b ++ 0 :: behind') = some r) :
    r.toInt < 0 ↔ List.Lex ByteLt a b := by
  have hr := strcmp_toInt ha hb h
  rw [← firstDifference_lex byteLt_asymm (fun c hc => byteLt_zero fun hzero => ha (hzero ▸ hc))
    (fun d hd => byteLt_zero fun hzero => hb (hzero ▸ hd)), ByteLt]
  omega

end Kernix.Proofs
