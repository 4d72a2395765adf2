import Mathlib.Data.Int.Init

namespace Library

variable {below above : Int → Prop} {low₀ high₀ low high : Int}

/-- The intervals that a bisection of the integers from `low₀` to `high₀` comes to. The middle of one
may be too small or too large; where it is neither the search is over. -/
inductive Bisects (below above : Int → Prop) (low₀ high₀ : Int) : Int → Int → Prop
  | start : Bisects below above low₀ high₀ low₀ high₀
  | up {low high : Int} : Bisects below above low₀ high₀ low high → low ≤ high →
      below ((low + high) / 2) → Bisects below above low₀ high₀ ((low + high) / 2 + 1) high
  | down {low high : Int} : Bisects below above low₀ high₀ low high → low ≤ high →
      above ((low + high) / 2) → Bisects below above low₀ high₀ low ((low + high) / 2 - 1)

/-- The intervals stay in the first. -/
theorem Bisects.within (h : Bisects below above low₀ high₀ low high) :
    low₀ ≤ low ∧ high ≤ high₀ := by
  induction h with
  | start => exact ⟨Int.le_refl _, Int.le_refl _⟩
  | up _ hle _ ih => omega
  | down _ hle _ ih => omega

/-- What is looked for stays between the ends, where no middle up to it is too large and none behind it
too small. -/
theorem Bisects.brackets {r : Int} (h : Bisects below above low₀ high₀ low high)
    (hbelow : ∀ m, low₀ ≤ m → below m → m ≤ r) (habove : ∀ m, low₀ ≤ m → above m → r < m)
    (hlow : low₀ - 1 ≤ r) (hhigh : r ≤ high₀) : low - 1 ≤ r ∧ r ≤ high := by
  induction h with
  | start => exact ⟨hlow, hhigh⟩
  | up hinner _ hb ih =>
    have hwithin := hinner.within
    have := hbelow _ (by omega) hb
    omega
  | down hinner _ ha ih =>
    have hwithin := hinner.within
    have := habove _ (by omega) ha
    omega

end Library
