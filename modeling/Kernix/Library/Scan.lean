import Mathlib.Data.List.TakeWhile

namespace Library

variable {α : Type} {p : α → Bool} {xs ys rest rest' : List α}

/-! Scanning a list as far as a test holds. -/

/-- The next element, if any, fails the test. -/
def Stops (p : α → Bool) (rest : List α) : Prop := ∀ c ∈ rest.head?, p c = false

theorem stops_nil : Stops p [] := fun _ hc => nomatch hc

theorem stops_cons {c : α} : Stops p (c :: rest) ↔ p c = false := by simp [Stops]

theorem dropWhile_stops (p : α → Bool) (xs : List α) : Stops p (xs.dropWhile p) := by
  intro c hc
  have hhead := List.head?_dropWhile_not p xs
  rw [hc] at hhead
  simpa using hhead

theorem takeWhile_append_stops (hxs : ∀ c ∈ xs, p c = true) (hrest : Stops p rest) :
    (xs ++ rest).takeWhile p = xs := by
  rw [List.takeWhile_append_of_pos hxs]
  cases rest with
  | nil => rw [List.takeWhile_nil, List.append_nil]
  | cons c rest =>
    rw [List.takeWhile_cons_of_neg (by simp [stops_cons.mp hrest]), List.append_nil]

theorem dropWhile_append_stops (hxs : ∀ c ∈ xs, p c = true) (hrest : Stops p rest) :
    (xs ++ rest).dropWhile p = rest := by
  rw [List.dropWhile_append_of_pos hxs]
  cases rest with
  | nil => rfl
  | cons c rest => rw [List.dropWhile_cons_of_neg (by simp [stops_cons.mp hrest])]

/-- A text falls apart in one way into what passes the test and a rest it stops at. -/
theorem scan_unique (hxs : ∀ c ∈ xs, p c = true) (hys : ∀ c ∈ ys, p c = true)
    (hrest : Stops p rest) (hrest' : Stops p rest') (h : xs ++ rest = ys ++ rest') :
    xs = ys ∧ rest = rest' := by
  refine ⟨?_, ?_⟩
  · rw [← takeWhile_append_stops hxs hrest, h, takeWhile_append_stops hys hrest']
  · rw [← dropWhile_append_stops hxs hrest, h, dropWhile_append_stops hys hrest']

end Library
