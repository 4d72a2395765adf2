import Mathlib.Data.List.Basic

namespace Library

variable {α : Type}

/-- What a key means to a line editor. -/
inductive Stroke (α : Type) where
  | char (c : α)
  | erase
  | enter
  | other

/-- The lines entered, and the one that is being typed. -/
structure LineEditor (α : Type) where
  lines : List (List α)
  line : List α

namespace LineEditor

variable {e : LineEditor α} {lines : List (List α)} {line : List α} {cap : Nat}

def empty : LineEditor α := ⟨[], []⟩

/-- A line of `cap` characters takes no more. -/
def stroke (cap : Nat) (e : LineEditor α) : Stroke α → LineEditor α
  | .char c => if e.line.length < cap then { e with line := e.line ++ [c] } else e
  | .erase => { e with line := e.line.dropLast }
  | .enter => ⟨e.lines ++ [e.line], []⟩
  | .other => e

def strokes (cap : Nat) (e : LineEditor α) (ks : List (Stroke α)) : LineEditor α :=
  ks.foldl (stroke cap) e

@[simp] theorem strokes_nil (cap : Nat) (e : LineEditor α) : e.strokes cap [] = e := rfl

@[simp] theorem strokes_cons (cap : Nat) (e : LineEditor α) (k : Stroke α) (ks : List (Stroke α)) :
    e.strokes cap (k :: ks) = (e.stroke cap k).strokes cap ks := rfl

theorem strokes_append (cap : Nat) (e : LineEditor α) (xs ys : List (Stroke α)) :
    e.strokes cap (xs ++ ys) = (e.strokes cap xs).strokes cap ys := List.foldl_append

/-- The lines before are only carried along. -/
theorem stroke_lines (cap : Nat) (e : LineEditor α) (k : Stroke α) :
    e.stroke cap k =
      ⟨e.lines ++ (stroke cap ⟨[], e.line⟩ k).lines, (stroke cap ⟨[], e.line⟩ k).line⟩ := by
  cases k with
  | char c =>
    simp only [stroke]
    split
    · simp
    · simp
  | erase => simp [stroke]
  | enter => simp [stroke]
  | other => simp [stroke]

theorem strokes_lines (cap : Nat) (lines : List (List α)) (line : List α) (ks : List (Stroke α)) :
    strokes cap ⟨lines, line⟩ ks =
      ⟨lines ++ (strokes cap ⟨[], line⟩ ks).lines, (strokes cap ⟨[], line⟩ ks).line⟩ := by
  induction ks generalizing lines line with
  | nil => simp
  | cons k ks ih =>
    have hk := stroke_lines cap ⟨lines, line⟩ k
    rw [strokes_cons, hk, ih, strokes_cons, ih (stroke cap ⟨[], line⟩ k).lines]
    simp

/-- A line typed out without a correction. -/
theorem strokes_chars (lines : List (List α)) (line cs : List α) (h : line.length + cs.length ≤ cap) :
    strokes cap ⟨lines, line⟩ (cs.map .char) = ⟨lines, line ++ cs⟩ := by
  induction cs generalizing line with
  | nil => simp
  | cons c cs ih =>
    have hroom : line.length < cap := by
      rw [List.length_cons] at h
      omega
    rw [List.map_cons, strokes_cons, stroke, if_pos hroom, ih]
    · simp
    · simp only [List.length_append, List.length_cons, List.length_nil] at h ⊢
      omega

end LineEditor

end Library
