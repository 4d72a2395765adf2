import Kernix.Library.Layout
import Kernix.Proofs.Screen

namespace Kernix.Proofs
open Library Screen Screen.VGABuffer

variable {v t : VGABuffer} {c : Byte} {text : List Byte}

/-- A byte of a text without backspaces: the end of a line, or a character. -/
def textKey (c : Byte) : Key Byte := if c = 0x0A then .newline else .char c

/-- The rows of a text on a screen of 80 columns. -/
def layOut (text : List Byte) : Layout Byte := (text.map textKey).foldl (Layout.add 80) Layout.start

theorem key_of_text (hc : c ≠ 0x08) : key c = (textKey c).map fun c => (c, vgaColor) := by
  unfold key textKey
  rw [if_neg hc]
  split
  · rfl
  · rfl

theorem key_ne_back (hc : c ≠ 0x08) : key c ≠ .back := by
  rw [key_of_text hc, textKey]
  split
  · simp [Key.map]
  · simp [Key.map]

theorem layOut_cells (htext : ∀ c ∈ text, c ≠ 0x08) (l : Layout Byte) :
    (text.map key).foldl (Layout.add 80) (l.map fun c => (c, vgaColor)) =
      ((text.map textKey).foldl (Layout.add 80) l).map fun c => (c, vgaColor) := by
  induction text generalizing l with
  | nil => rfl
  | cons c text ih =>
    have hkey := key_of_text (htext c (by simp))
    rw [List.map_cons, List.map_cons, List.foldl_cons, List.foldl_cons, hkey, Layout.add_map]
    exact ih (fun d hd => htext d (List.mem_cons_of_mem _ hd)) _

/-- The page a text leaves shows the last rows of its layout. -/
theorem typed_shows (htext : ∀ c ∈ text, c ≠ 0x08) :
    Layout.Shows 80 25 blank (typed (Page.clear blank) text)
      ((layOut text).map fun c => (c, vgaColor)) := by
  have hstarts : Layout.Shows 80 25 blank (Page.clear blank) Layout.start :=
    Layout.start_shows (by decide) (by decide)
  have hshows := Layout.shows_text (by decide) (by decide) (text.map key) ?_ hstarts
  · rw [List.foldl_map] at hshows
    have hstart : (Layout.start : Layout Cell) = Layout.start.map fun c : Byte => (c, vgaColor) := rfl
    rw [hstart, layOut_cells htext] at hshows
    exact hshows
  · simp only [List.forall_mem_map]
    exact fun c hc => key_ne_back (htext c hc)

/-- A text without backspaces, written on a clear screen: the last 25 rows of its layout are
shown, and the cursor stands behind the last one. -/
theorem text_laid_out (v : VGABuffer) (text : List Byte) (htext : ∀ c ∈ text, c ≠ 0x08) :
    ∃ t, (v.clear.bind fun v => text.foldlM putchar v) = some t ∧
      let rows := (layOut text).rows
      let shown := rows.drop (rows.length - 25)
      (∀ row < 25, ∀ column < 80,
        t.buffer (2 * (row * 80 + column)) = (shown.getD row []).getD column 0x20 ∧
        t.buffer (2 * (row * 80 + column) + 1) = vgaColor) ∧
      t.x.toNat = (layOut text).current.length ∧ t.y.toNat = min rows.length 25 - 1 := by
  obtain ⟨u, hu, hon, hpage⟩ := clear_draws v
  obtain ⟨t, ht, hdisplays⟩ := typed_displays ⟨hon, hpage⟩ text
  obtain ⟨hcells, hcursor, hshort⟩ := typed_shows htext
  refine ⟨t, by rw [hu]; exact ht, ?_⟩
  intro rows shown
  constructor
  · intro row hr column hc
    have hpaint : Layout.paint 80 blank (shown.map (List.map fun c => (c, vgaColor)))
        (row * 80 + column) = ((shown.getD row []).getD column 0x20, vgaColor) := by
      rw [← Layout.paint_at hc]
      exact Layout.paint_map (fun c => (c, vgaColor)) shown _
    have hcell := hdisplays.cell_eq (i := row * 80 + column) (by omega)
    rw [hcells, Layout.shown_map] at hcell
    have hcell := hcell.trans hpaint
    exact ⟨congrArg Prod.fst hcell, congrArg Prod.snd hcell⟩
  · have hx := hdisplays.onScreen.x
    have hlength : ((layOut text).map fun c => (c, vgaColor)).rows.length = rows.length := by
      rw [Layout.rows_map, List.length_map]
    have hcurrent : ((layOut text).map fun c => (c, vgaColor)).current.length =
        (layOut text).current.length := by
      simp [Layout.map]
    have hposition : position t = _ := congrArg Page.cursor hdisplays.page
    rw [hcursor, hlength, hcurrent] at hposition
    rw [hcurrent] at hshort
    unfold position at hposition
    omega

def blankBuffer : VGABuffer := ⟨fun _ => 0, 0, 0, false, 0⟩

theorem text_laid_out_hi : ∃ t, (blankBuffer.clear.bind fun v => [0x68, 0x69].foldlM putchar v) =
      some t ∧
    let rows := (layOut [0x68, 0x69]).rows
    let shown := rows.drop (rows.length - 25)
    (∀ row < 25, ∀ column < 80,
      t.buffer (2 * (row * 80 + column)) = (shown.getD row []).getD column 0x20 ∧
      t.buffer (2 * (row * 80 + column) + 1) = vgaColor) ∧
    t.x.toNat = (layOut [0x68, 0x69]).current.length ∧ t.y.toNat = min rows.length 25 - 1 :=
  text_laid_out blankBuffer [0x68, 0x69] (by decide)

end Kernix.Proofs
