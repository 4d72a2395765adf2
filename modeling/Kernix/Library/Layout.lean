import Mathlib.Data.List.GetD
import Kernix.Library.Page

namespace Library

/-- A text laid out in rows: those closed, and the one being written. -/
structure Layout (α : Type) where
  closed : List (List α)
  current : List α

namespace Layout

variable {α : Type} {w h : Nat} {blank c : α} {l : Layout α} {p : Page α} {row : List α}
  {rs : List (List α)}

def rows (l : Layout α) : List (List α) := l.closed ++ [l.current]

def start : Layout α := ⟨[], []⟩

/-- A row is closed when it is full or the line ends. Erasing is not laid out. -/
def add (w : Nat) (l : Layout α) : Key α → Layout α
  | .char c =>
    if l.current.length + 1 = w then ⟨l.closed ++ [l.current ++ [c]], []⟩
    else ⟨l.closed, l.current ++ [c]⟩
  | .newline => ⟨l.closed ++ [l.current], []⟩
  | .back => l

/-- The rows that a page of `h` rows shows. -/
def shown (h : Nat) (l : Layout α) : List (List α) := l.rows.drop (l.rows.length - h)

/-- Rows of width `w` one after another, blank where a row has no cell. -/
def paint (w : Nat) (blank : α) (rs : List (List α)) (i : Nat) : α :=
  (rs.getD (i / w) []).getD (i % w) blank

/-- The page shows the last rows of the layout, and the cursor stands where it goes on. -/
structure Shows (w h : Nat) (blank : α) (p : Page α) (l : Layout α) : Prop where
  cells : p.cells = paint w blank (l.shown h)
  cursor : p.cursor = (min l.rows.length h - 1) * w + l.current.length
  short : l.current.length < w

theorem paint_append_nil (rs : List (List α)) :
    paint w blank (rs ++ [[]]) = paint w blank rs := by
  funext i
  unfold paint
  congr 1
  rcases Nat.lt_or_ge (i / w) rs.length with hlt | hge
  · rw [List.getD_append _ _ _ _ hlt]
  · rw [List.getD_append_right _ _ _ _ hge, List.getD_eq_default _ _ hge]
    cases i / w - rs.length <;> rfl

theorem paint_tail (hw : 0 < w) (rs : List (List α)) (i : Nat) :
    paint w blank rs (i + w) = paint w blank rs.tail i := by
  unfold paint
  rw [Nat.add_div_right i hw, Nat.add_mod_right]
  cases rs <;> rfl

/-- The row and the column of a cell. -/
theorem row_column {k : Nat} (hk : k < w) (n : Nat) : (n * w + k) / w = n ∧ (n * w + k) % w = k := by
  have hw : 0 < w := Nat.zero_lt_of_lt hk
  rw [Nat.mul_comm]
  constructor
  · rw [Nat.mul_add_div hw, Nat.div_eq_of_lt hk, Nat.add_zero]
  · rw [Nat.mul_add_mod, Nat.mod_eq_of_lt hk]

theorem paint_at {k : Nat} (hk : k < w) (rs : List (List α)) (n : Nat) :
    paint w blank rs (n * w + k) = (rs.getD n []).getD k blank := by
  obtain ⟨hdiv, hmod⟩ := row_column hk n
  rw [paint, hdiv, hmod]

/-- One more cell in the last row. -/
theorem paint_append_cell (hrow : row.length < w) (rs : List (List α)) (c : α) :
    Function.update (paint w blank (rs ++ [row])) (rs.length * w + row.length) c =
      paint w blank (rs ++ [row ++ [c]]) := by
  funext i
  by_cases hi : i = rs.length * w + row.length
  · rw [hi, Function.update_self, paint_at hrow]
    simp
  rw [Function.update_of_ne hi]
  unfold paint
  rcases Nat.lt_or_ge (i / w) rs.length with hlt | hge
  · rw [List.getD_append _ _ _ _ hlt, List.getD_append _ _ _ _ hlt]
  rw [List.getD_append_right _ _ _ _ hge, List.getD_append_right _ _ _ _ hge]
  rcases Nat.eq_or_lt_of_le hge with heq | hgt
  · have hne : i % w ≠ row.length := by
      intro he
      apply hi
      rw [← Nat.div_add_mod i w, ← heq, he, Nat.mul_comm]
    rw [← heq, Nat.sub_self]
    change row.getD (i % w) blank = (row ++ [c]).getD (i % w) blank
    rcases Nat.lt_or_ge (i % w) row.length with hlt | hge
    · rw [List.getD_append _ _ _ _ hlt]
    · rw [List.getD_eq_default _ _ hge, List.getD_eq_default]
      simp only [List.length_append, List.length_singleton]
      omega
  · obtain ⟨k, hk⟩ := Nat.exists_eq_succ_of_ne_zero (Nat.ne_of_gt (Nat.sub_pos_of_lt hgt))
    rw [hk]
    rfl

/-! The same layout of other cells. -/

section map
variable {β : Type} (f : α → β)

def map (l : Layout α) : Layout β := ⟨l.closed.map (List.map f), l.current.map f⟩

theorem rows_map (l : Layout α) : (l.map f).rows = l.rows.map (List.map f) := by
  simp [rows, map]

theorem add_map (l : Layout α) (k : Key α) : (l.map f).add w (k.map f) = (l.add w k).map f := by
  cases k with
  | char c =>
    unfold add map Key.map
    simp only [List.length_map]
    split
    · simp
    · simp
  | newline => simp [add, map, Key.map]
  | back => rfl

theorem paint_map (rs : List (List α)) (i : Nat) :
    paint w (f blank) (rs.map (List.map f)) i = f (paint w blank rs i) := by
  have hrow := List.getD_map (l := rs) (d := []) (n := i / w) (List.map f)
  rw [List.map_nil] at hrow
  rw [paint, hrow, List.getD_map]
  rfl

theorem shown_map (l : Layout α) : (l.map f).shown h = (l.shown h).map (List.map f) := by
  rw [shown, rows_map, List.length_map, shown, List.map_drop]

end map

/-! The page follows the layout, key by key. -/

/-- The closed rows that are still shown. -/
def above (h : Nat) (l : Layout α) : List (List α) := l.closed.drop (l.closed.length + 1 - h)

theorem shown_eq (hh : 0 < h) (l : Layout α) : l.shown h = l.above h ++ [l.current] := by
  unfold shown rows above
  rw [List.length_append, List.length_singleton, List.drop_append_of_le_length (by omega)]

theorem length_above (l : Layout α) :
    (l.above h).length = min (l.closed.length + 1) h - 1 := by
  rw [above, List.length_drop]
  omega

theorem length_rows (l : Layout α) : l.rows.length = l.closed.length + 1 := by simp [rows]

/-- The last row is closed and an empty one opened: the page moves up if it was full. -/
theorem shows_open (hw : 0 < w) (hh : 0 < h) {closed : List (List α)}
    (hcells : p.cells = paint w blank ((closed ++ [row]).drop (closed.length + 1 - h)))
    (hcursor : p.cursor = min (closed.length + 1) h * w) :
    Shows w h blank (p.settle w h) ⟨closed ++ [row], []⟩ := by
  have hrows : (⟨closed ++ [row], []⟩ : Layout α).rows.length = closed.length + 2 := by
    simp [length_rows]
  have hshown : (⟨closed ++ [row], []⟩ : Layout α).shown h =
      (closed ++ [row]).drop (closed.length + 2 - h) ++ [[]] := by
    simp [shown_eq hh, above]
  have hcells' : paint w blank ((⟨closed ++ [row], []⟩ : Layout α).shown h) =
      paint w blank ((closed ++ [row]).drop (closed.length + 2 - h)) := by
    rw [hshown, paint_append_nil]
  unfold Page.settle
  rcases Nat.lt_or_ge (closed.length + 1) h with hlt | hge
  · have hstay : p.cursor < w * h := by
      rw [hcursor, Nat.min_eq_left (Nat.le_of_lt hlt), Nat.mul_comm]
      exact Nat.mul_lt_mul_of_pos_left hlt hw
    rw [if_pos hstay]
    refine ⟨?_, ?_, hw⟩
    · rw [hcells', hcells]
      congr 2
      omega
    · have hmin : min (closed.length + 2) h - 1 = min (closed.length + 1) h := by omega
      rw [hcursor, hrows, hmin]
      rfl
  · have hmove : ¬ p.cursor < w * h := by
      rw [hcursor, Nat.min_eq_right hge, Nat.mul_comm]
      exact Nat.lt_irrefl _
    rw [if_neg hmove]
    refine ⟨?_, ?_, hw⟩
    · funext i
      have hnext : closed.length + 1 - h + 1 = closed.length + 2 - h := by omega
      change p.cells (i + w) = _
      rw [hcells', hcells, paint_tail hw, List.tail_drop, hnext]
    · change p.cursor - w = _
      rw [hcursor, hrows, Nat.min_eq_right hge, Nat.min_eq_right (Nat.le_succ_of_le hge),
        Nat.sub_one_mul]
      rfl

/-- One key, on the page and in the layout. -/
theorem Shows.press (hw : 0 < w) (hh : 0 < h) (hs : Shows w h blank p l) {k : Key α}
    (hk : k ≠ .back) : Shows w h blank (p.press w h blank k) (l.add w k) := by
  obtain ⟨hcells, hcursor, hshort⟩ := hs
  rw [shown_eq hh] at hcells
  rw [length_rows, ← length_above] at hcursor
  have habove := length_above (h := h) l
  have hfull : (l.above h).length + 1 = min (l.closed.length + 1) h := by omega
  have hdrop : ∀ row : List α, (l.closed ++ [row]).drop (l.closed.length + 1 - h) =
      l.above h ++ [row] := by
    intro row
    rw [List.drop_append_of_le_length (by omega)]
    rfl
  cases k with
  | back => exact absurd rfl hk
  | newline =>
    refine shows_open hw hh (hcells.trans (by rw [hdrop])) ?_
    change (p.cursor / w + 1) * w = _
    rw [hcursor, (row_column hshort _).1, hfull]
  | char c =>
    have htyped : Function.update p.cells p.cursor c =
        paint w blank (l.above h ++ [l.current ++ [c]]) := by
      rw [hcells, hcursor, paint_append_cell hshort]
    by_cases hwrap : l.current.length + 1 = w
    · rw [add, if_pos hwrap]
      apply shows_open hw hh (htyped.trans (by rw [hdrop]))
      change p.cursor + 1 = _
      rw [hcursor, ← hfull, Nat.add_assoc, hwrap, Nat.succ_mul]
    · have hshort' : l.current.length + 1 < w := by omega
      have hstay : p.cursor + 1 < w * h := by
        have hlast : ((l.above h).length + 1) * w ≤ h * w :=
          Nat.mul_le_mul_right w (hfull ▸ Nat.min_le_right _ _)
        rw [Nat.succ_mul] at hlast
        rw [hcursor, Nat.mul_comm w h]
        omega
      rw [add, if_neg hwrap, Page.press, Page.settle, if_pos hstay]
      refine ⟨?_, ?_, by simpa using hshort'⟩
      · rw [shown_eq hh]
        exact htyped
      · rw [length_rows, ← length_above]
        simp [hcursor, Nat.add_assoc, above]

theorem start_shows (hw : 0 < w) (hh : 0 < h) :
    Shows w h blank (Page.clear blank) (start : Layout α) := by
  have habove : (start : Layout α).above h = [] := by simp [above, start]
  refine ⟨?_, ?_, hw⟩
  · rw [shown_eq hh, habove]
    change paint w blank [] = paint w blank ([] ++ [[]])
    rw [paint_append_nil]
  · have hmin : min (start : Layout α).rows.length h - 1 = 0 := by
      rw [length_rows, ← length_above, habove]
      rfl
    rw [hmin, Nat.zero_mul]
    rfl

/-- A text without erasing, typed on a clear page. -/
theorem shows_text (hw : 0 < w) (hh : 0 < h) (ks : List (Key α)) (hks : ∀ k ∈ ks, k ≠ .back)
    (hs : Shows w h blank p l) :
    Shows w h blank (ks.foldl (Page.press w h blank) p) (ks.foldl (add w) l) := by
  induction ks generalizing p l with
  | nil => exact hs
  | cons k ks ih =>
    exact ih (fun k' hk' => hks k' (List.mem_cons_of_mem _ hk')) (hs.press hw hh (hks k (by simp)))

end Layout

end Library
