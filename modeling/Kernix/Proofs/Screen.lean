import Kernix.Library.Loops
import Kernix.Library.Page
import Kernix.Screen.VgaBuffer

namespace Kernix.Proofs
open Library Screen Screen.VGABuffer

abbrev Cell := Byte × Byte

def blank : Cell := (0x20, vgaColor)

/-- The character and the attribute at a place in reading order. -/
def cell (v : VGABuffer) (i : Nat) : Cell := (v.buffer (2 * i), v.buffer (2 * i + 1))

def putCell (v : VGABuffer) (i : Nat) (a : Cell) : VGABuffer :=
  { v with buffer := Function.update (Function.update v.buffer (2 * i) a.1) (2 * i + 1) a.2 }

/-- Where the cursor is in reading order. -/
def position (v : VGABuffer) : Nat := v.y.toNat * 80 + v.x.toNat

/-- The text buffer as a page of 25 rows of 80 cells. -/
def page (v : VGABuffer) : Page Cell :=
  ⟨fun i => if i < 2000 then cell v i else blank, position v⟩

/-- What a byte put on the screen does there. -/
def key (c : Byte) : Key Cell :=
  if c = 0x08 then .back else if c = 0x0A then .newline else .char (c, vgaColor)

structure OnScreen (v : VGABuffer) : Prop where
  x : v.x.toNat < 80
  y : v.y.toNat < 25

/-- The same but for the bytes of the text buffer. -/
structure SameFields (v t : VGABuffer) : Prop where
  x : t.x = v.x
  y : t.y = v.y
  cursorVisible : t.cursorVisible = v.cursorVisible
  lastBlinkTick : t.lastBlinkTick = v.lastBlinkTick

variable {v t : VGABuffer} {i : Nat} {a : Cell} {c : Byte}

theorem OnScreen.position_lt (h : OnScreen v) : position v < 2000 := by
  have hx := h.x
  have hy := h.y
  unfold position
  omega

theorem cell_putCell (v : VGABuffer) (i : Nat) (a : Cell) :
    cell (putCell v i a) = Function.update (cell v) i a := by
  funext j
  unfold cell putCell
  dsimp only
  by_cases hj : j = i
  · rw [hj, Function.update_self, Function.update_self, Function.update_of_ne (by omega),
      Function.update_self]
  · rw [Function.update_of_ne hj, Function.update_of_ne (by omega), Function.update_of_ne (by omega),
      Function.update_of_ne (by omega), Function.update_of_ne (by omega)]

/-! The accesses to the text buffer stay inside. -/

theorem store_inside {b : Byte} (hi : i < 4000) :
    v.store i b = some { v with buffer := Function.update v.buffer i b } := if_pos hi

theorem load_inside (hi : i < 4000) : v.load i = some (v.buffer i) := if_pos hi

theorem storeCell_putCell (hi : i < 2000) (v : VGABuffer) (c : Byte) :
    v.storeCell (2 * i) c = some (putCell v i (c, vgaColor)) := by
  rw [storeCell, store_inside (by omega)]
  exact store_inside (by omega)

theorem copyCell_putCell (v : VGABuffer) {k column : Nat} (hk : k < 24) (hc : column < 80) :
    copyCell (k + 1) v column =
      some (putCell v (k * 80 + column) (cell v (k * 80 + column + 80))) := by
  have hsource : ((k + 1) * vgaWidth + column) * 2 = 2 * (k * 80 + column + 80) := by
    unfold vgaWidth
    omega
  have htarget : ((k + 1 - 1) * vgaWidth + column) * 2 = 2 * (k * 80 + column) := by
    unfold vgaWidth
    omega
  have hother : 2 * (k * 80 + column + 80) + 1 ≠ 2 * (k * 80 + column) := by omega
  simp only [copyCell, hsource, htarget, Option.bind_eq_bind]
  rw [load_inside (by omega), Option.bind_some, store_inside (by omega), Option.bind_some,
    load_inside (by omega), Option.bind_some, store_inside (by omega)]
  dsimp only
  rw [Function.update_of_ne hother]
  rfl

/-! The loops over the text buffer. -/

theorem SameFields.refl (v : VGABuffer) : SameFields v v := ⟨rfl, rfl, rfl, rfl⟩

theorem SameFields.putCell (h : SameFields v t) (i : Nat) (a : Cell) :
    SameFields v (putCell t i a) :=
  ⟨h.x, h.y, h.cursorVisible, h.lastBlinkTick⟩

/-- The first `n` cells hold what stands one row below them. -/
structure Moved (v : VGABuffer) (n : Nat) (t : VGABuffer) : Prop where
  fields : SameFields v t
  cells : ∀ i, cell t i = if i < n then cell v (i + 80) else cell v i

theorem copyCell_moved {k column : Nat} (hk : k < 24) (hc : column < 80)
    (h : Moved v (k * 80 + column) t) :
    ∃ u, copyCell (k + 1) t column = some u ∧ Moved v (k * 80 + (column + 1)) u := by
  refine ⟨_, copyCell_putCell t hk hc, h.fields.putCell _ _, ?_⟩
  intro i
  rw [cell_putCell, h.cells, if_neg (by omega)]
  by_cases hi : i = k * 80 + column
  · rw [hi, Function.update_self, if_pos (by omega)]
  · rw [Function.update_of_ne hi, h.cells]
    split
    · rw [if_pos (by omega)]
    · rw [if_neg (by omega)]

theorem copy_rows (v : VGABuffer) :
    ∃ t, (List.range (vgaHeight - 1)).foldlM
      (fun v i => (List.range vgaWidth).foldlM (copyCell (i + 1)) v) v = some t ∧
        Moved v 1920 t := by
  refine foldlM_range (fun k t => Moved v (k * 80) t) 24 ⟨.refl v, ?_⟩ ?_
  · intro i
    rw [if_neg (by omega)]
  · intro k hk t ht
    have hrow := foldlM_range (fun j t => Moved v (k * 80 + j) t) 80 ht
      fun column hc u hu => copyCell_moved hk hc hu
    rwa [← Nat.succ_mul] at hrow

/-- The `n` cells from `lo` on are blank. -/
structure Blanked (v : VGABuffer) (lo n : Nat) (t : VGABuffer) : Prop where
  fields : SameFields v t
  cells : ∀ i, cell t i = if lo ≤ i ∧ i < lo + n then blank else cell v i

theorem blanked_zero (v : VGABuffer) (lo : Nat) : Blanked v lo 0 v := by
  refine ⟨.refl v, ?_⟩
  intro i
  rw [if_neg (by omega)]

theorem storeCell_blanked {lo n : Nat} (hn : lo + n < 2000) (h : Blanked v lo n t) :
    ∃ u, t.storeCell (2 * (lo + n)) 0x20 = some u ∧ Blanked v lo (n + 1) u := by
  refine ⟨_, storeCell_putCell hn t 0x20, h.fields.putCell _ _, ?_⟩
  intro i
  rw [cell_putCell]
  by_cases hi : i = lo + n
  · rw [hi, Function.update_self, if_pos (by omega)]
    rfl
  · rw [Function.update_of_ne hi, h.cells]
    split
    · rw [if_pos (by omega)]
    · rw [if_neg (by omega)]

theorem blank_last_row (v : VGABuffer) :
    ∃ t, (List.range vgaWidth).foldlM blankCell v = some t ∧ Blanked v 1920 80 t := by
  apply foldlM_range (fun n t => Blanked v 1920 n t) 80 (blanked_zero v 1920)
  intro n hn t ht
  have hoffset : ((vgaHeight - 1) * vgaWidth + n) * 2 = 2 * (1920 + n) := by
    unfold vgaHeight vgaWidth
    omega
  rw [blankCell, hoffset]
  exact storeCell_blanked (by omega) ht

/-- What `scroll_up` does: every row goes up by one, and the last one is blank. -/
theorem scrollUp_cells (v : VGABuffer) : ∃ t, scrollUp v = some t ∧ SameFields v t ∧
    ∀ i < 2000, cell t i = if i < 1920 then cell v (i + 80) else blank := by
  obtain ⟨t, ht, hmoved⟩ := copy_rows v
  obtain ⟨u, hu, hblank⟩ := blank_last_row t
  refine ⟨u, ?_, ?_, ?_⟩
  · rw [scrollUp, ht, Option.bind_eq_bind, Option.bind_some, hu]
  · have hm := hmoved.fields
    have hb := hblank.fields
    exact ⟨hb.x.trans hm.x, hb.y.trans hm.y, hb.cursorVisible.trans hm.cursorVisible,
      hb.lastBlinkTick.trans hm.lastBlinkTick⟩
  · intro i hi
    rw [hblank.cells, hmoved.cells]
    by_cases hlast : i < 1920
    · rw [if_neg (by omega), if_pos hlast, if_pos hlast]
    · rw [if_pos (by omega), if_neg hlast]

/-! Each operation, on the page. -/

/-- `t` is on the screen what `p` is, and keeps the blinking of `v`. -/
structure Draws (v t : VGABuffer) (p : Page Cell) : Prop where
  onScreen : OnScreen t
  page : page t = p
  cursorVisible : t.cursorVisible = v.cursorVisible
  lastBlinkTick : t.lastBlinkTick = v.lastBlinkTick

theorem page_eq {p : Page Cell} (hcells : ∀ i < 2000, cell t i = p.cells i)
    (hblank : ∀ i, 2000 ≤ i → p.cells i = blank) (hcursor : position t = p.cursor) : page t = p := by
  have hpage : (page t).cells = p.cells := by
    funext i
    change (if i < 2000 then cell t i else blank) = _
    split
    · rename_i hi
      exact hcells i hi
    · rename_i hi
      exact (hblank i (Nat.le_of_not_lt hi)).symm
  cases p
  exact (Page.mk.injEq ..).mpr ⟨hpage, hcursor⟩

theorem page_inside (hi : i < 2000) : (page v).cells i = cell v i := if_pos hi

theorem page_outside (hi : 2000 ≤ i) : (page v).cells i = blank := if_neg (Nat.not_lt.mpr hi)

/-- Wherever in its row the cursor is, it goes on at the start of the next one. -/
theorem advanceCursor_draws (hy : v.y.toNat < 25) : ∃ t, advanceCursor v = some t ∧
    Draws v t (Page.settle 80 25 ⟨(page v).cells, (v.y.toNat + 1) * 80⟩) := by
  have hnext : (v.y + 1).toNat = v.y.toNat + 1 := by bv_omega
  unfold advanceCursor
  simp only [hnext]
  by_cases hlast : v.y.toNat = 24
  · obtain ⟨t, ht, hfields, hcells⟩ := scrollUp_cells { v with x := 0, y := v.y + 1 }
    have hx : t.x = 0 := hfields.x
    rw [if_pos (by unfold vgaHeight; omega), ht]
    have hy' : (BitVec.ofNat 16 (vgaHeight - 1)).toNat < 25 := by decide
    refine ⟨_, rfl, ⟨?_, hy'⟩, ?_, hfields.cursorVisible, hfields.lastBlinkTick⟩
    · change t.x.toNat < 80
      rw [hx]
      decide
    · rw [Page.settle, if_neg (by dsimp only; omega)]
      refine page_eq ?_ (fun i hi => page_outside (by omega)) ?_
      · intro i hi
        change cell t i = (page v).cells (i + 80)
        rw [hcells i hi]
        split
        · exact (page_inside (by omega)).symm
        · exact (page_outside (by omega)).symm
      · change 24 * 80 + t.x.toNat = (v.y.toNat + 1) * 80 - 80
        rw [hx, hlast]
        rfl
  · rw [if_neg (by unfold vgaHeight; omega)]
    have hx : (0 : U16).toNat < 80 := by decide
    refine ⟨_, rfl, ⟨hx, ?_⟩, ?_, rfl, rfl⟩
    · change (v.y + 1).toNat < 25
      omega
    · rw [Page.settle, if_pos (by dsimp only; omega)]
      refine page_eq (fun i hi => (page_inside hi).symm) (fun i hi => page_outside hi) ?_
      change (v.y + 1).toNat * 80 + 0 = (v.y.toNat + 1) * 80
      rw [hnext, Nat.add_zero]

theorem offset_position (h : OnScreen v) : v.offset.toNat = 2 * position v := by
  have hx := h.x
  have hy := h.y
  unfold offset position vgaWidth
  bv_omega

theorem page_putCell (hi : i < 2000) (v : VGABuffer) (a : Cell) :
    (page (putCell v i a)).cells = Function.update (page v).cells i a := by
  funext j
  change (if j < 2000 then cell (putCell v i a) j else blank) = _
  rw [cell_putCell]
  by_cases hj : j = i
  · rw [hj, if_pos hi, Function.update_self, Function.update_self]
  · rw [Function.update_of_ne hj, Function.update_of_ne hj]
    rfl

/-- One cell back in reading order, if there is one. -/
theorem stepBack_draws (h : OnScreen v) :
    Draws v v.stepBack ⟨(page v).cells, position v - 1⟩ := by
  obtain ⟨hx, hy⟩ := h
  unfold stepBack
  by_cases hx0 : 0 < v.x
  · have hpred : (v.x - 1).toNat = v.x.toNat - 1 := by bv_omega
    rw [if_pos hx0]
    refine ⟨⟨?_, hy⟩, (Page.mk.injEq ..).mpr ⟨rfl, ?_⟩, rfl, rfl⟩
    · change (v.x - 1).toNat < 80
      omega
    · change v.y.toNat * 80 + (v.x - 1).toNat = v.y.toNat * 80 + v.x.toNat - 1
      bv_omega
  have hx0 : v.x.toNat = 0 := by bv_omega
  rw [if_neg (by bv_omega)]
  by_cases hy0 : 0 < v.y
  · have hpred : (v.y - 1).toNat = v.y.toNat - 1 := by bv_omega
    have hlast : (BitVec.ofNat 16 (vgaWidth - 1)).toNat = 79 := rfl
    rw [if_pos hy0]
    refine ⟨⟨?_, ?_⟩, (Page.mk.injEq ..).mpr ⟨rfl, ?_⟩, rfl, rfl⟩
    · change (BitVec.ofNat 16 (vgaWidth - 1)).toNat < 80
      omega
    · change (v.y - 1).toNat < 25
      omega
    · change (v.y - 1).toNat * 80 + (BitVec.ofNat 16 (vgaWidth - 1)).toNat =
        v.y.toNat * 80 + v.x.toNat - 1
      bv_omega
  · have hy0 : v.y.toNat = 0 := by bv_omega
    rw [if_neg (by bv_omega)]
    refine ⟨⟨hx, hy⟩, (Page.mk.injEq ..).mpr ⟨rfl, ?_⟩, rfl, rfl⟩
    change v.y.toNat * 80 + v.x.toNat = v.y.toNat * 80 + v.x.toNat - 1
    omega

theorem backspace_draws (h : OnScreen v) : ∃ t, v.putchar 0x08 = some t ∧
    Draws v t ((page v).press 80 25 blank .back) := by
  obtain ⟨hback, hpage, hvisible, htick⟩ := stepBack_draws h
  have hlt := hback.position_lt
  have hposition : position v.stepBack = position v - 1 := congrArg Page.cursor hpage
  rw [putchar, if_pos rfl]
  dsimp only
  rw [offset_position hback, storeCell_putCell hlt]
  refine ⟨_, rfl, ⟨hback.x, hback.y⟩, (Page.mk.injEq ..).mpr ⟨?_, hposition⟩, hvisible, htick⟩
  have hcells := page_putCell hlt v.stepBack (0x20, vgaColor)
  rw [hpage, hposition] at hcells
  rw [hposition]
  exact hcells

theorem char_draws (h : OnScreen v) (hb : c ≠ 0x08) (hn : c ≠ 0x0A) : ∃ t, v.putchar c = some t ∧
    Draws v t ((page v).press 80 25 blank (.char (c, vgaColor))) := by
  have hlt := h.position_lt
  have hx := h.x
  have hy := h.y
  have hnext : (v.x + 1).toNat = v.x.toNat + 1 := by bv_omega
  have hcells := page_putCell hlt v (c, vgaColor)
  rw [putchar, if_neg hb, if_neg hn, offset_position h, storeCell_putCell hlt]
  simp only [Option.bind_eq_bind, Option.bind_some]
  by_cases hwrap : v.x.toNat = 79
  · have hfull : vgaWidth ≤ ((putCell v (position v) (c, vgaColor)).x + 1).toNat := by
      change 80 ≤ (v.x + 1).toNat
      omega
    rw [if_pos hfull]
    obtain ⟨t, ht, hdraws⟩ := advanceCursor_draws
      (v := { putCell v (position v) (c, vgaColor) with x := v.x + 1 }) hy
    refine ⟨t, ht, hdraws.onScreen, hdraws.page.trans ?_, hdraws.cursorVisible,
      hdraws.lastBlinkTick⟩
    have hcursor : (v.y.toNat + 1) * 80 = position v + 1 := by
      unfold position
      omega
    change Page.settle 80 25 ⟨(page (putCell v (position v) (c, vgaColor))).cells,
      (v.y.toNat + 1) * 80⟩ = _
    rw [hcells, hcursor]
    rfl
  · have hroom : ¬ vgaWidth ≤ ((putCell v (position v) (c, vgaColor)).x + 1).toNat := by
      change ¬ 80 ≤ (v.x + 1).toNat
      omega
    rw [if_neg hroom]
    refine ⟨_, rfl, ⟨?_, hy⟩, ?_, rfl, rfl⟩
    · change (v.x + 1).toNat < 80
      omega
    · have hstay : position v + 1 < 80 * 25 := by
        unfold position
        omega
      refine Eq.trans ?_ (if_pos hstay).symm
      refine (Page.mk.injEq ..).mpr ⟨hcells, ?_⟩
      change v.y.toNat * 80 + (v.x + 1).toNat = position v + 1
      rw [hnext]
      rfl

theorem newline_draws (h : OnScreen v) : ∃ t, v.putchar 0x0A = some t ∧
    Draws v t ((page v).press 80 25 blank .newline) := by
  have hx := h.x
  obtain ⟨t, ht, hdraws⟩ := advanceCursor_draws h.y
  refine ⟨t, ht, hdraws.onScreen, hdraws.page.trans ?_, hdraws.cursorVisible, hdraws.lastBlinkTick⟩
  have hrow : position v / 80 = v.y.toNat := by
    unfold position
    omega
  rw [Page.press, ← hrow]
  rfl

/-- `putchar` is a key pressed on the page. -/
theorem putchar_draws (h : OnScreen v) (c : Byte) : ∃ t, v.putchar c = some t ∧
    Draws v t ((page v).press 80 25 blank (key c)) := by
  unfold key
  by_cases hb : c = 0x08
  · rw [if_pos hb, hb]
    exact backspace_draws h
  rw [if_neg hb]
  by_cases hn : c = 0x0A
  · rw [if_pos hn, hn]
    exact newline_draws h
  · rw [if_neg hn]
    exact char_draws h hb hn

/-- `clear` leaves an empty page, whatever was there and wherever the cursor was. -/
theorem clear_draws (v : VGABuffer) : ∃ t, v.clear = some t ∧ OnScreen t ∧
    page t = Page.clear blank := by
  have hloop := foldlM_range (f := fun v i => v.storeCell (2 * i) 0x20)
    (fun n t => Blanked v 0 n t) (vgaWidth * vgaHeight) (blanked_zero v 0) fun n hn t ht => by
      have hn : n < 2000 := hn
      have := storeCell_blanked (by omega) ht
      rwa [Nat.zero_add] at this
  obtain ⟨t, ht, hblank⟩ := hloop
  have hzero : (0 : U16).toNat = 0 := rfl
  refine ⟨{ t with x := 0, y := 0, cursorVisible := true, lastBlinkTick := 0 }, ?_, ⟨?_, ?_⟩, ?_⟩
  · rw [clear, ht]
    rfl
  · change (0 : U16).toNat < 80
    omega
  · change (0 : U16).toNat < 25
    omega
  · refine page_eq ?_ (fun i _ => rfl) rfl
    intro i hi
    change cell t i = blank
    have hsize : vgaWidth * vgaHeight = 2000 := rfl
    rw [hblank.cells, if_pos (by omega)]

/-! What the kernel does to the screen, on the page. -/

/-- Bytes put on a page one after another. -/
def typed (p : Page Cell) (bytes : List Byte) : Page Cell :=
  bytes.foldl (fun p c => p.press 80 25 blank (key c)) p

def onPage (p : Page Cell) : ScreenOp → Page Cell
  | .putchar c => p.press 80 25 blank (key c)
  | .print str => typed p (str.takeWhile (· ≠ 0))
  | .ksysWrite none => p
  | .ksysWrite (some bytes) => typed p bytes
  | .clear => Page.clear blank
  | .tick _ => p

/-- The text buffer shows the page `p`. -/
structure Displays (v : VGABuffer) (p : Page Cell) : Prop where
  onScreen : OnScreen v
  page : page v = p

variable {p : Page Cell}

theorem putchar_displays (h : Displays v p) (c : Byte) :
    ∃ t, v.putchar c = some t ∧ Displays t (p.press 80 25 blank (key c)) := by
  obtain ⟨t, ht, hdraws⟩ := putchar_draws h.onScreen c
  rw [h.page] at hdraws
  exact ⟨t, ht, hdraws.onScreen, hdraws.page⟩

theorem typed_displays (h : Displays v p) (bytes : List Byte) :
    ∃ t, bytes.foldlM putchar v = some t ∧ Displays t (typed p bytes) :=
  foldlM_refines Displays bytes h fun c _ _ _ ht => putchar_displays ht c

theorem tick_displays (h : Displays v p) (ticks : U32) : Displays (v.tick ticks) p := by
  unfold tick
  split
  · exact h
  · exact ⟨⟨h.onScreen.x, h.onScreen.y⟩, h.page⟩

theorem apply_displays (h : Displays v p) (op : ScreenOp) :
    ∃ t, op.apply v = some t ∧ Displays t (onPage p op) := by
  cases op with
  | putchar c => exact putchar_displays h c
  | print str => exact typed_displays h _
  | ksysWrite buffer =>
    cases buffer with
    | none => exact ⟨v, rfl, h⟩
    | some bytes =>
      obtain ⟨t, ht, hdisplays⟩ := typed_displays h bytes
      refine ⟨t, ?_, hdisplays⟩
      simp [ScreenOp.apply, Screen.ksysWrite, ht]
  | clear =>
    obtain ⟨t, ht, hon, hpage⟩ := clear_draws v
    exact ⟨t, ht, hon, hpage⟩
  | tick ticks => exact ⟨_, rfl, tick_displays h ticks⟩

theorem ops_displays (h : Displays v p) (ops : List ScreenOp) :
    ∃ t, ops.foldlM ScreenOp.apply v = some t ∧ Displays t (ops.foldl onPage p) :=
  foldlM_refines Displays ops h fun op _ _ _ ht => apply_displays ht op

theorem typed_sound (hp : p.Sound 80 25 blank) (bytes : List Byte) :
    (typed p bytes).Sound 80 25 blank := by
  apply List.foldlRecOn bytes _ hp
  intro p hp c _
  exact hp.press (by decide) (by decide) (key c)

theorem onPage_sound (hp : p.Sound 80 25 blank) (op : ScreenOp) :
    (onPage p op).Sound 80 25 blank := by
  cases op with
  | putchar c => exact hp.press (by decide) (by decide) (key c)
  | print str => exact typed_sound hp _
  | ksysWrite buffer =>
    cases buffer with
    | none => exact hp
    | some bytes => exact typed_sound hp bytes
  | clear => exact Page.clear_sound (by decide) (by decide)
  | tick ticks => exact hp

theorem ops_sound (hp : p.Sound 80 25 blank) (ops : List ScreenOp) :
    (ops.foldl onPage p).Sound 80 25 blank :=
  List.foldlRecOn ops _ hp fun _ hp op _ => onPage_sound hp op

/-- The screen after `vga_init`, a first `clear` and then `ops`. -/
def screenAfter (v : VGABuffer) (ops : List ScreenOp) : Option VGABuffer := do
  let v ← (vgaInit v).clear
  ops.foldlM ScreenOp.apply v

theorem screenAfter_displays (v : VGABuffer) (ops : List ScreenOp) : ∃ t,
    screenAfter v ops = some t ∧ Displays t (ops.foldl onPage (Page.clear blank)) := by
  obtain ⟨u, hu, hon, hpage⟩ := clear_draws (vgaInit v)
  obtain ⟨t, ht, hdisplays⟩ := ops_displays ⟨hon, hpage⟩ ops
  refine ⟨t, ?_, hdisplays⟩
  rw [screenAfter, hu]
  exact ht

theorem Displays.cell_eq (h : Displays v p) (hi : i < 2000) : cell v i = p.cells i := by
  rw [← h.page, page_inside hi]

/-- After any operations no access is outside the text buffer, the cursor is on the screen, and
nothing stands at it or after it. -/
theorem screen_stays_in_bounds (v : VGABuffer) (ops : List ScreenOp) : ∃ t,
    screenAfter v ops = some t ∧ t.x.toNat < 80 ∧ t.y.toNat < 25 ∧
      ∀ i < 2000, position t ≤ i → t.buffer (2 * i) = 0x20 ∧ t.buffer (2 * i + 1) = vgaColor := by
  obtain ⟨t, ht, hdisplays⟩ := screenAfter_displays v ops
  have hsound := ops_sound (Page.clear_sound (by decide) (by decide)) ops
  refine ⟨t, ht, hdisplays.onScreen.x, hdisplays.onScreen.y, ?_⟩
  intro i hi hpos
  have hcell := hdisplays.cell_eq hi
  rw [hsound.blank i (by rw [← hdisplays.page]; exact hpos)] at hcell
  exact ⟨congrArg Prod.fst hcell, congrArg Prod.snd hcell⟩

end Kernix.Proofs
