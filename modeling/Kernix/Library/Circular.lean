import Mathlib.Data.Nat.ModEq
import Mathlib.Logic.Function.Basic

namespace Library

/-- A circular buffer of `n` slots: read at `head`, written at `tail`. -/
structure Circular (α : Type) where
  slots : Nat → α
  head : Nat
  tail : Nat

namespace Circular

variable {α : Type} {n : Nat} {r : Circular α} {x : α} {xs : List α}

def put (n : Nat) (r : Circular α) (x : α) : Circular α :=
  { r with slots := Function.update r.slots r.tail x, tail := (r.tail + 1) % n }

def drop (n : Nat) (r : Circular α) : Circular α := { r with head := (r.head + 1) % n }

/-- The slots from `head` on hold `xs`. One slot stays unused, so that a full buffer
is not taken for an empty one. -/
structure Holds (n : Nat) (r : Circular α) (xs : List α) : Prop where
  head : r.head < n
  short : xs.length < n
  tail : r.tail = (r.head + xs.length) % n
  slots : ∀ i (hi : i < xs.length), r.slots ((r.head + i) % n) = xs[i]

theorem slot_injective {a i j : Nat} (hi : i < n) (hj : j < n) (he : (a + i) % n = (a + j) % n) :
    i = j :=
  (Nat.ModEq.add_left_cancel' a he).eq_of_lt_of_lt hi hj

theorem Holds.tail_lt (h : Holds n r xs) : r.tail < n := by
  rw [h.tail]
  exact Nat.mod_lt _ (Nat.zero_lt_of_lt h.head)

theorem Holds.next_tail (h : Holds n r xs) :
    (r.tail + 1) % n = (r.head + (xs.length + 1)) % n := by
  rw [h.tail, Nat.mod_add_mod, Nat.add_assoc]

theorem holds_nil (h : r.head < n) (he : r.tail = r.head) : Holds n r [] :=
  ⟨h, Nat.zero_lt_of_lt h, by rw [he, List.length_nil, Nat.add_zero, Nat.mod_eq_of_lt h],
    fun i hi => absurd hi (Nat.not_lt_zero i)⟩

theorem Holds.empty_iff (h : Holds n r xs) : r.head = r.tail ↔ xs = [] := by
  have hhead : r.head = (r.head + 0) % n := (Nat.mod_eq_of_lt h.head).symm
  constructor
  · intro he
    rw [h.tail] at he
    have := slot_injective (Nat.zero_lt_of_lt h.head) h.short (hhead.symm.trans he)
    exact List.length_eq_zero_iff.mp this.symm
  · rintro rfl
    rw [h.tail]
    exact hhead

/-- The test made before a write: one more would make the buffer look empty. -/
theorem Holds.full_iff (h : Holds n r xs) : (r.tail + 1) % n = r.head ↔ xs.length + 1 = n := by
  rw [h.next_tail]
  constructor
  · intro he
    by_contra hne
    have hlt : xs.length + 1 < n := Nat.lt_of_le_of_ne h.short hne
    have hhead : r.head = (r.head + 0) % n := (Nat.mod_eq_of_lt h.head).symm
    exact absurd (slot_injective hlt (Nat.zero_lt_of_lt h.head) (he.trans hhead)) (by simp)
  · intro hfull
    rw [hfull, Nat.add_mod_right, Nat.mod_eq_of_lt h.head]

theorem Holds.put (h : Holds n r xs) (hroom : xs.length + 1 < n) (x : α) :
    Holds n (r.put n x) (xs ++ [x]) := by
  refine ⟨h.head, by simpa using hroom, ?_, fun i hi => ?_⟩
  · rw [List.length_append]
    exact h.next_tail
  change Function.update r.slots r.tail x ((r.head + i) % n) = _
  have hi : i < xs.length + 1 := by simpa using hi
  by_cases hlast : i = xs.length
  · subst hlast
    rw [← h.tail, Function.update_self, List.getElem_concat_length rfl]
  · have hi' : i < xs.length := by omega
    have hne : (r.head + i) % n ≠ r.tail := by
      rw [h.tail]
      exact fun he => hlast (slot_injective (by omega) h.short he)
    rw [Function.update_of_ne hne, h.slots i hi', List.getElem_append_left hi']

theorem Holds.first (h : Holds n r (x :: xs)) : r.slots r.head = x := by
  have := h.slots 0 (by simp)
  rwa [Nat.add_zero, Nat.mod_eq_of_lt h.head] at this

theorem Holds.drop (h : Holds n r (x :: xs)) : Holds n (r.drop n) xs := by
  have hshort : xs.length + 1 < n := h.short
  refine ⟨Nat.mod_lt _ (Nat.zero_lt_of_lt h.head), Nat.lt_of_succ_lt hshort, ?_, ?_⟩
  · change r.tail = ((r.head + 1) % n + xs.length) % n
    rw [h.tail, List.length_cons, Nat.mod_add_mod, Nat.add_assoc, Nat.add_comm 1]
  · intro i hi
    change r.slots (((r.head + 1) % n + i) % n) = _
    have := h.slots (i + 1) (by simpa using hi)
    rw [Nat.mod_add_mod, Nat.add_assoc, Nat.add_comm 1, this]
    rfl

end Circular

end Library
