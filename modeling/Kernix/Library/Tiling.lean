import Mathlib.Data.List.Basic

namespace Library

variable {α : Type}

/-- Pieces laid end to end: `start` and `len` place a piece, and each one begins
where the one before it ends. -/
def Tiles (start len : α → Nat) : Nat → List α → Prop
  | _, [] => True
  | lo, x :: xs => start x = lo ∧ Tiles start len (lo + len x) xs

/-- The room a list of pieces takes. -/
def span (len : α → Nat) : List α → Nat
  | [] => 0
  | x :: xs => len x + span len xs

variable {start len : α → Nat} {lo : Nat} {x : α} {xs ys zs : List α}

@[simp] theorem span_nil : span len [] = 0 := rfl

@[simp] theorem span_cons : span len (x :: xs) = len x + span len xs := rfl

@[simp] theorem span_append : span len (xs ++ ys) = span len xs + span len ys := by
  induction xs with
  | nil => simp
  | cons x xs ih => simp [ih, Nat.add_assoc]

@[simp] theorem tiles_nil : Tiles start len lo [] := trivial

@[simp] theorem tiles_cons :
    Tiles start len lo (x :: xs) ↔ start x = lo ∧ Tiles start len (lo + len x) xs := Iff.rfl

@[simp] theorem tiles_append : Tiles start len lo (xs ++ ys) ↔
    Tiles start len lo xs ∧ Tiles start len (lo + span len xs) ys := by
  induction xs generalizing lo with
  | nil => simp
  | cons x xs ih => simp [ih, and_assoc, Nat.add_assoc]

/-- A piece lies between the two ends. -/
theorem Tiles.bounds (h : Tiles start len lo xs) (hx : x ∈ xs) :
    lo ≤ start x ∧ start x + len x ≤ lo + span len xs := by
  induction xs generalizing lo with
  | nil => simp at hx
  | cons y ys ih =>
    rw [tiles_cons] at h
    rw [span_cons]
    rcases List.mem_cons.mp hx with rfl | hy
    · omega
    · have := ih h.2 hy
      omega

/-- Starts share the alignment of the first start and of the lengths. -/
theorem Tiles.start_mod {k : Nat} (h : Tiles start len lo xs) (hlo : lo % k = 0)
    (hlen : ∀ y ∈ xs, len y % k = 0) (hx : x ∈ xs) : start x % k = 0 := by
  induction xs generalizing lo with
  | nil => simp at hx
  | cons y ys ih =>
    rw [tiles_cons] at h
    rcases List.mem_cons.mp hx with rfl | hy
    · rw [h.1, hlo]
    · refine ih h.2 ?_ (fun z hz => hlen z (by simp [hz])) hy
      rw [Nat.add_mod, hlo, hlen y (by simp), Nat.add_zero, Nat.zero_mod]

theorem length_le_span (h : ∀ y ∈ xs, 0 < len y) : xs.length ≤ span len xs := by
  induction xs with
  | nil => simp
  | cons y ys ih =>
    have := h y (by simp)
    have := ih fun z hz => h z (by simp [hz])
    simp only [List.length_cons, span_cons]
    omega

/-- The pieces come in increasing order without overlap. -/
theorem Tiles.pairwise (h : Tiles start len lo xs) :
    xs.Pairwise (fun a b => start a + len a ≤ start b) := by
  induction xs generalizing lo with
  | nil => exact .nil
  | cons y ys ih =>
    rw [tiles_cons] at h
    refine .cons ?_ (ih h.2)
    intro b hb
    have := (h.2.bounds hb).1
    omega

/-- A middle part may be cut anew if it keeps its start and its room. -/
theorem Tiles.replace (h : Tiles start len lo (xs ++ ys ++ zs)) {ys' : List α}
    (ht : Tiles start len (lo + span len xs) ys') (hs : span len ys' = span len ys) :
    Tiles start len lo (xs ++ ys' ++ zs) := by
  simp only [tiles_append, span_append] at h ⊢
  exact ⟨⟨h.1.1, ht⟩, hs ▸ h.2⟩

/-- What precedes a piece ends at or before it, what follows starts at or after its end. -/
theorem Tiles.around (h : Tiles start len lo (xs ++ x :: zs)) :
    start x = lo + span len xs ∧
    (∀ y ∈ xs, lo ≤ start y ∧ start y + len y ≤ start x) ∧
    (∀ z ∈ zs, start x + len x ≤ start z ∧
      start z + len z ≤ start x + len x + span len zs) := by
  simp only [tiles_append, tiles_cons] at h
  obtain ⟨hxs, hx, hzs⟩ := h
  refine ⟨hx, ?_, ?_⟩
  · intro y hy
    have := hxs.bounds hy
    omega
  · intro z hz
    have := hzs.bounds hz
    omega

end Library
