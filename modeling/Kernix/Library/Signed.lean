import Mathlib.Algebra.Order.Ring.Int
import Mathlib.Data.List.Basic

namespace Library

/-- The integer of magnitude `m` with a sign. -/
def signed (neg : Bool) (m : Nat) : Int := if neg then -m else m

variable {p q : Bool} {m n : Nat}

@[simp] theorem signed_false (m : Nat) : signed false m = m := rfl

@[simp] theorem signed_true (m : Nat) : signed true m = -m := rfl

@[simp] theorem natAbs_signed (p : Bool) (m : Nat) : (signed p m).natAbs = m := by
  cases p with
  | false => rfl
  | true => simp

theorem signed_bounds (p : Bool) (m : Nat) : -(m : Int) ≤ signed p m ∧ signed p m ≤ m := by
  cases p with
  | false =>
    rw [signed_false]
    omega
  | true =>
    rw [signed_true]
    omega

theorem signed_natAbs (z : Int) : signed (decide (z < 0)) z.natAbs = z := by
  by_cases hz : z < 0
  · rw [decide_eq_true hz, signed_true]
    omega
  · rw [decide_eq_false hz, signed_false]
    omega

theorem neg_signed (p : Bool) (m : Nat) : -signed p m = signed (!p) m := by
  cases p with
  | false => rfl
  | true => simp

theorem signed_mul (p q : Bool) (m n : Nat) :
    signed p m * signed q n = signed (p ^^ q) (m * n) := by
  cases p with
  | false => cases q <;> simp
  | true => cases q <;> simp

/-- Division that truncates divides the magnitudes. -/
theorem signed_tdiv (p q : Bool) (m n : Nat) :
    (signed p m).tdiv (signed q n) = signed (p ^^ q) (m / n) := by
  have hpos : (m : Int).tdiv n = (m / n : Nat) := Int.ofNat_tdiv m n
  cases p with
  | false => cases q <;> simp [hpos]
  | true => cases q <;> simp [hpos]

/-! Sums whose signs alternate. -/

/-- The first added, the second taken off, and so on. -/
def alternate : List Nat → Int
  | [] => 0
  | m :: ms => m - alternate ms

@[simp] theorem alternate_nil : alternate [] = 0 := rfl

@[simp] theorem alternate_cons (m : Nat) (ms : List Nat) : alternate (m :: ms) = m - alternate ms := rfl

/-- A sum of numbers that fall stays between zero and the first. -/
theorem alternate_bounds {bound : Nat} {ms : List Nat} (hfall : ms.Pairwise (fun a b => b ≤ a))
    (hle : ∀ m ∈ ms, m ≤ bound) : 0 ≤ alternate ms ∧ alternate ms ≤ bound := by
  induction ms generalizing bound with
  | nil => simp
  | cons m ms ih =>
    obtain ⟨hhead, htail⟩ := List.pairwise_cons.mp hfall
    have hrest := ih htail hhead
    have hm := hle m List.mem_cons_self
    rw [alternate_cons]
    omega

end Library
