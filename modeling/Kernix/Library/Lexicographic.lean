import Mathlib.Data.Prod.Basic

namespace Library

variable {α : Type} [DecidableEq α] {r : α → α → Prop} {stop : α} {xs ys : List α}

/-! Terminated sequences, compared at the first place where they differ. -/

/-- The elements at that place, where `stop` stands behind each sequence. Two equal sequences are
compared at their stops. -/
def firstDifference (stop : α) : List α → List α → α × α
  | [], [] => (stop, stop)
  | [], d :: _ => (stop, d)
  | c :: _, [] => (c, stop)
  | c :: xs, d :: ys => if c = d then firstDifference stop xs ys else (c, d)

theorem firstDifference_swap (stop : α) (xs ys : List α) :
    firstDifference stop ys xs = (firstDifference stop xs ys).swap := by
  induction xs generalizing ys with
  | nil =>
    cases ys with
    | nil => rfl
    | cons d ys => rfl
  | cons c xs ih =>
    cases ys with
    | nil => rfl
    | cons d ys =>
      by_cases h : c = d
      · simp [firstDifference, h, ih]
      · simp [firstDifference, h, Ne.symm h]

/-- They agree there just if the sequences do. -/
theorem firstDifference_eq_iff (hxs : stop ∉ xs) (hys : stop ∉ ys) :
    (firstDifference stop xs ys).1 = (firstDifference stop xs ys).2 ↔ xs = ys := by
  induction xs generalizing ys with
  | nil =>
    cases ys with
    | nil => simp [firstDifference]
    | cons d ys =>
      have hne : stop ≠ d := fun h => hys (h ▸ List.mem_cons_self)
      simp [firstDifference, hne]
  | cons c xs ih =>
    cases ys with
    | nil =>
      have hne : c ≠ stop := fun h => hxs (h ▸ List.mem_cons_self)
      simp [firstDifference, hne]
    | cons d ys =>
      have hxs' : stop ∉ xs := fun h => hxs (List.mem_cons_of_mem _ h)
      have hys' : stop ∉ ys := fun h => hys (List.mem_cons_of_mem _ h)
      by_cases h : c = d
      · simp [firstDifference, h, ih hxs' hys']
      · simp [firstDifference, h]

/-- Where the stop comes before every element, the order there is the lexicographic one. -/
theorem firstDifference_lex (hasymm : ∀ c d, r c d → ¬ r d c) (hxs : ∀ c ∈ xs, r stop c)
    (hys : ∀ d ∈ ys, r stop d) :
    r (firstDifference stop xs ys).1 (firstDifference stop xs ys).2 ↔ List.Lex r xs ys := by
  have hirrefl : ∀ c, ¬ r c c := fun c h => hasymm c c h h
  induction xs generalizing ys with
  | nil =>
    cases ys with
    | nil => simp [firstDifference, hirrefl]
    | cons d ys => simp [firstDifference, hys d List.mem_cons_self]
  | cons c xs ih =>
    cases ys with
    | nil => simp [firstDifference, hasymm stop c (hxs c List.mem_cons_self)]
    | cons d ys =>
      have hxs' : ∀ c ∈ xs, r stop c := fun c h => hxs c (List.mem_cons_of_mem _ h)
      have hys' : ∀ d ∈ ys, r stop d := fun d h => hys d (List.mem_cons_of_mem _ h)
      by_cases h : c = d
      · simp [firstDifference, h, ih hxs' hys', List.cons_lex_cons_iff, hirrefl]
      · simp [firstDifference, h, List.cons_lex_cons_iff]

end Library
