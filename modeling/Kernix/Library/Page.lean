import Mathlib.Data.List.Basic
import Mathlib.Logic.Function.Basic

namespace Library

/-- Cells in reading order, row after row, and the cursor's place among them. -/
structure Page (α : Type) where
  cells : Nat → α
  cursor : Nat

/-- What is typed on a page. -/
inductive Key (α : Type) where
  | char (c : α)
  | newline
  | back

def Key.map {α β : Type} (f : α → β) : Key α → Key β
  | .char c => .char (f c)
  | .newline => .newline
  | .back => .back

namespace Page

variable {α : Type} {w h : Nat} {blank c : α} {p : Page α} {text : List α}

/-- Past the last row everything moves up by one. -/
def settle (w h : Nat) (p : Page α) : Page α :=
  if p.cursor < w * h then p else ⟨fun i => p.cells (i + w), p.cursor - w⟩

def press (w h : Nat) (blank : α) (p : Page α) : Key α → Page α
  | .char c => settle w h ⟨Function.update p.cells p.cursor c, p.cursor + 1⟩
  | .newline => settle w h { p with cursor := (p.cursor / w + 1) * w }
  | .back => ⟨Function.update p.cells (p.cursor - 1) blank, p.cursor - 1⟩

def clear (blank : α) : Page α := ⟨fun _ => blank, 0⟩

/-- The cursor is on the page, and nothing stands at it or after it. -/
structure Sound (w h : Nat) (blank : α) (p : Page α) : Prop where
  cursor : p.cursor < w * h
  blank : ∀ i, p.cursor ≤ i → p.cells i = blank

theorem clear_sound (hw : 0 < w) (hh : 0 < h) : Sound w h blank (clear blank) :=
  ⟨Nat.mul_pos hw hh, fun _ _ => rfl⟩

theorem settle_sound (hw : 0 < w) (hh : 0 < h) (hc : p.cursor ≤ w * h)
    (hb : ∀ i, p.cursor ≤ i → p.cells i = blank) : Sound w h blank (settle w h p) := by
  unfold settle
  split
  · rename_i hlt
    exact ⟨hlt, hb⟩
  · have hpos : 0 < w * h := Nat.mul_pos hw hh
    refine ⟨?_, fun i hi => hb _ ?_⟩
    · change p.cursor - w < w * h
      omega
    · have hi : p.cursor - w ≤ i := hi
      omega

/-- The row after the cursor's starts on the page, or where the page ends. -/
theorem next_row_le (hc : p.cursor < w * h) : (p.cursor / w + 1) * w ≤ w * h := by
  rw [Nat.mul_comm w h]
  exact Nat.mul_le_mul_right w (Nat.div_lt_of_lt_mul hc)

theorem lt_next_row (hw : 0 < w) (n : Nat) : n < (n / w + 1) * w := by
  rw [Nat.mul_comm]
  exact Nat.lt_mul_div_succ n hw

theorem Sound.press (hw : 0 < w) (hh : 0 < h) (hp : Sound w h blank p) (k : Key α) :
    Sound w h blank (p.press w h blank k) := by
  cases k with
  | char c =>
    refine settle_sound hw hh hp.cursor ?_
    intro i hi
    have hi : p.cursor + 1 ≤ i := hi
    exact (Function.update_of_ne (by omega) _ _).trans (hp.blank i (by omega))
  | newline =>
    refine settle_sound hw hh (next_row_le hp.cursor) fun i hi => hp.blank i ?_
    exact Nat.le_trans (Nat.le_of_lt (lt_next_row hw p.cursor)) hi
  | back =>
    refine ⟨Nat.lt_of_le_of_lt (Nat.sub_le _ _) hp.cursor, ?_⟩
    intro i hi
    have hi : p.cursor - 1 ≤ i := hi
    by_cases he : i = p.cursor - 1
    · rw [he]
      exact Function.update_self ..
    · exact (Function.update_of_ne he _ _).trans (hp.blank i (by omega))

/-! A text typed at the cursor. -/

/-- The cells just before the cursor are `text`. -/
structure Ends (p : Page α) (text : List α) : Prop where
  room : text.length ≤ p.cursor
  cells : ∀ k < text.length, text[k]? = some (p.cells (p.cursor - text.length + k))

theorem ends_nil (p : Page α) : Ends p [] :=
  ⟨Nat.zero_le _, fun k hk => absurd hk (Nat.not_lt_zero k)⟩

/-- A page that moves up takes the text with it, if the text does not fill the page. -/
theorem Ends.settle (he : Ends p text) (hroom : text.length + w ≤ w * h) :
    Ends (p.settle w h) text := by
  unfold Page.settle
  split
  · exact he
  · rename_i hfull
    have hfull : w * h ≤ p.cursor := Nat.le_of_not_lt hfull
    constructor
    · change text.length ≤ p.cursor - w
      omega
    · intro k hk
      have hidx : p.cursor - w - text.length + k + w = p.cursor - text.length + k := by omega
      change text[k]? = some (p.cells (p.cursor - w - text.length + k + w))
      rw [hidx]
      exact he.cells k hk

theorem Ends.char (he : Ends p text) (hroom : text.length + 1 + w ≤ w * h) (c : α) :
    Ends (p.press w h blank (.char c)) (text ++ [c]) := by
  refine Ends.settle ⟨?_, ?_⟩ (by simpa using hroom)
  · simpa using he.room
  · intro k hk
    have hr := he.room
    have hk : k < text.length + 1 := by simpa using hk
    simp only [List.length_append, List.length_singleton]
    by_cases hlast : k = text.length
    · have hidx : p.cursor + 1 - (text.length + 1) + k = p.cursor := by omega
      rw [hidx, Function.update_self, hlast, List.getElem?_concat_length]
    · have hidx : p.cursor + 1 - (text.length + 1) + k = p.cursor - text.length + k := by omega
      rw [hidx, Function.update_of_ne (by omega), List.getElem?_append_left (by omega)]
      exact he.cells k (by omega)

theorem Ends.back (he : Ends p (text ++ [c])) : Ends (p.press w h blank .back) text := by
  have hr : text.length + 1 ≤ p.cursor := by simpa using he.room
  constructor
  · change text.length ≤ p.cursor - 1
    omega
  · intro k hk
    have hcell := he.cells k (by simp; omega)
    have hidx : p.cursor - (text ++ [c]).length + k = p.cursor - 1 - text.length + k := by
      simp only [List.length_append, List.length_singleton]
      omega
    rw [List.getElem?_append_left hk, hidx] at hcell
    rw [hcell]
    exact congrArg some (Function.update_of_ne (by omega) _ _).symm

/-- A blank typed over the erased cell and erased again: the cell stays erased. -/
theorem erase_echo (hp : Sound w h blank p) (hpos : 0 < p.cursor) :
    ((p.press w h blank .back).press w h blank (.char blank)).press w h blank .back =
      p.press w h blank .back := by
  have hlt := hp.cursor
  have hstay : (p.press w h blank .back).press w h blank (.char blank) =
      ⟨Function.update p.cells (p.cursor - 1) blank, p.cursor⟩ := by
    have hback : p.cursor - 1 + 1 = p.cursor := Nat.sub_add_cancel hpos
    simp only [press, settle, hback, Function.update_idem, if_pos hlt]
  rw [hstay]
  simp only [press, Function.update_idem]

end Page

end Library
