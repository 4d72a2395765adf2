import Kernix.Proofs.KeyQueue
import Kernix.Proofs.LineDiscipline
import Kernix.Shell.Machine

namespace Kernix.Proofs
open Library Screen Keyboard Shell

variable {ω : Type} {shell : ShellInput ω} {k k' : KeyboardState} {c : Byte}
  {codes rest : List Byte} {m m' : Machine ω} {e : KeyEvent} {es : List KeyEvent}
  {input : Nat → Byte} {w : ω}

/-! Only the flags of the driver decide what a scancode types. -/

def SameFlags (k k' : KeyboardState) : Prop :=
  k.shiftPressed = k'.shiftPressed ∧ k.extendedScancode = k'.extendedScancode

theorem SameFlags.mapped (h : SameFlags k k') (c : Byte) : mapped k c = mapped k' c := by
  rw [Keyboard.mapped, Keyboard.mapped, h.1]

theorem SameFlags.handed (h : SameFlags k k') (c : Byte) : handed k c = handed k' c := by
  rw [Keyboard.handed, Keyboard.handed, h.mapped, h.2]

theorem pushChar_flags (k : KeyboardState) (c : Byte) : SameFlags (pushChar k c) k := by
  unfold pushChar
  dsimp only
  split
  · exact ⟨rfl, rfl⟩
  · exact ⟨rfl, rfl⟩

theorem SameFlags.handle (h : SameFlags k k') (c : Byte) :
    SameFlags (keyboardHandleScancode k c) (keyboardHandleScancode k' c) := by
  unfold keyboardHandleScancode
  by_cases hext : c = 0xE0
  · rw [if_pos hext, if_pos hext]
    exact ⟨h.1, rfl⟩
  rw [if_neg hext, if_neg hext, h.2]
  by_cases hgroup : k'.extendedScancode = true
  · rw [if_pos hgroup, if_pos hgroup]
    exact ⟨h.1, rfl⟩
  rw [if_neg hgroup, if_neg hgroup]
  by_cases hmake : c = 0x2A ∨ c = 0x36
  · rw [if_pos hmake, if_pos hmake]
    exact ⟨rfl, rfl⟩
  rw [if_neg hmake, if_neg hmake]
  by_cases hbreak : c = 0xAA ∨ c = 0xB6
  · rw [if_pos hbreak, if_pos hbreak]
    exact ⟨rfl, rfl⟩
  rw [if_neg hbreak, if_neg hbreak]
  by_cases hrelease : c &&& 0x80 ≠ 0
  · rw [if_pos hrelease, if_pos hrelease]
    exact h
  rw [if_neg hrelease, if_neg hrelease, h.mapped]
  dsimp only
  by_cases hchar : Keyboard.mapped k' c ≠ 0
  · rw [if_pos hchar, if_pos hchar]
    have hk := pushChar_flags k (Keyboard.mapped k' c)
    have hk' := pushChar_flags k' (Keyboard.mapped k' c)
    exact ⟨hk.1.trans (h.1.trans hk'.1.symm), hk.2.trans (h.2.trans hk'.2.symm)⟩
  · rw [if_neg hchar, if_neg hchar]
    exact h

theorem SameFlags.typing (h : SameFlags k k') (codes : List Byte) :
    typing k codes = typing k' codes := by
  induction codes generalizing k k' with
  | nil => rfl
  | cons c codes ih => rw [Keyboard.typing, Keyboard.typing, h.handed, ih (h.handle c)]

theorem typed_append (k : KeyboardState) (xs ys : List Byte) :
    typing k (xs ++ ys) = typing k xs ++ typing (xs.foldl keyboardHandleScancode k) ys := by
  induction xs generalizing k with
  | nil => rfl
  | cons c xs ih => rw [List.cons_append, typing, typing, ih, List.append_assoc, List.foldl_cons]

/-! The scancodes of a text type the text. -/

/-- Neither shift key is down, and no group is open. -/
def AtRest (k : KeyboardState) : Prop := SameFlags k restKeyboard

/-- A scancode that is neither of a group nor of a shift key. -/
abbrev PlainKey (c : Byte) : Prop := c ≠ 0xE0 ∧ c ∉ [0x2A, 0x36, 0xAA, 0xB6]

/-- The codes of the keys in the tables, pressed and let go. -/
theorem make_codes : ∀ i < 58, i ≠ 0x2A → i ≠ 0x36 →
    PlainKey (BitVec.ofNat 8 i) ∧ BitVec.ofNat 8 i &&& (0x80 : Byte) = 0 := by
  decide

theorem break_codes : ∀ i < 58, i ≠ 0x2A → i ≠ 0x36 →
    PlainKey (released (BitVec.ofNat 8 i)) := by
  decide

theorem released_bit : ∀ i < 58, released (BitVec.ofNat 8 i) &&& 0x80 ≠ 0 := by decide

theorem toNat_code {i : Nat} (hi : i < 58) : (BitVec.ofNat 8 i : Byte).toNat = i := by
  rw [BitVec.toNat_ofNat]
  omega

/-- A character stands at its place, which is that of no shift key. -/
theorem idxOf_plain {table : List Byte} (hlength : table.length = 58)
    (hshift : table.getD 0x2A 0 = 0 ∧ table.getD 0x36 0 = 0) (hc : c ∈ table) (hne : c ≠ 0) :
    table.idxOf c < 58 ∧ table.idxOf c ≠ 0x2A ∧ table.idxOf c ≠ 0x36 ∧
      table.getD (table.idxOf c) 0 = c := by
  have hlt := List.idxOf_lt_length_of_mem hc
  have hget : table.getD (table.idxOf c) 0 = c := by
    rw [List.getD_eq_getElem _ _ hlt, List.getElem_idxOf]
  refine ⟨hlength ▸ hlt, ?_, ?_, hget⟩
  · intro he
    rw [he, hshift.1] at hget
    exact hne hget.symm
  · intro he
    rw [he, hshift.2] at hget
    exact hne hget.symm

theorem handle_release (hext : k.extendedScancode = false) (hc : PlainKey c) (hbit : c &&& 0x80 ≠ 0) :
    handed k c = none ∧ keyboardHandleScancode k c = k := by
  obtain ⟨hgroup, hplain⟩ := hc
  simp only [List.mem_cons, List.not_mem_nil, or_false, not_or] at hplain
  refine ⟨if_pos (.inr (.inr (.inr (.inl hbit)))), ?_⟩
  rw [keyboardHandleScancode, if_neg hgroup, if_neg (by simp [hext]),
    if_neg (not_or.mpr ⟨hplain.1, hplain.2.1⟩), if_neg (not_or.mpr hplain.2.2), if_pos hbit]

/-- A key pressed and let go, with the shift keys as they are. -/
theorem typed_key {i : Nat} (hext : k.extendedScancode = false)
    (hi : i < 58 ∧ i ≠ 0x2A ∧ i ≠ 0x36) (hchar : mapped k (BitVec.ofNat 8 i) = c) (hne : c ≠ 0)
    (rest : List Byte) :
    typing k (BitVec.ofNat 8 i :: released (BitVec.ofNat 8 i) :: rest) = c :: typing k rest := by
  obtain ⟨⟨hgroup, hplain⟩, hbit⟩ := make_codes i hi.1 hi.2.1 hi.2.2
  have hnone : ¬ (BitVec.ofNat 8 i = 0xE0 ∨ k.extendedScancode ∨
      BitVec.ofNat 8 i ∈ [0x2A, 0x36, 0xAA, 0xB6] ∨ BitVec.ofNat 8 i &&& 0x80 ≠ 0 ∨
      mapped k (BitVec.ofNat 8 i) = 0) := by
    simp only [not_or, hext, hchar]
    exact ⟨hgroup, Bool.false_ne_true, hplain, not_not.mpr hbit, hne⟩
  have hmake : handed k (BitVec.ofNat 8 i) = some c := by
    rw [handed, if_neg hnone, hchar]
  have hpush : keyboardHandleScancode k (BitVec.ofNat 8 i) = pushChar k c := by
    rcases handleScancode_cases k (BitVec.ofNat 8 i) with ⟨hno, -⟩ | ⟨d, hd, hpush⟩
    · rw [hmake] at hno
      cases hno
    · rw [hmake] at hd
      rw [Option.some.inj hd]
      exact hpush
  have hflags := pushChar_flags k c
  obtain ⟨hrelease, hstays⟩ :=
    handle_release (k := pushChar k c) (hflags.2.trans hext)
      (break_codes i hi.1 hi.2.1 hi.2.2) (released_bit i hi.1)
  rw [typing, typing, hmake, hpush, hrelease, hstays, hflags.typing]
  rfl

theorem AtRest.typed_press (h : AtRest k) (hc : c ≠ 0 ∧ (c ∈ keymap ∨ c ∈ keymapShift))
    (rest : List Byte) : typing k (press c ++ rest) = c :: typing k rest := by
  have hshift : k.shiftPressed = false := h.1
  have hext : k.extendedScancode = false := h.2
  unfold press
  by_cases hmem : c ∈ keymap
  · obtain ⟨hlt, hleft, hright, hget⟩ := idxOf_plain (by decide) (by decide) hmem hc.1
    have hnat := toNat_code hlt
    rw [if_pos (List.contains_iff_mem.mpr hmem)]
    apply typed_key hext ⟨hlt, hleft, hright⟩ _ hc.1
    rw [mapped, hshift, hnat]
    exact hget
  · obtain ⟨hlt, hleft, hright, hget⟩ :=
      idxOf_plain (by decide) (by decide) (hc.2.resolve_left hmem) hc.1
    have hnat := toNat_code hlt
    have hdown : keyboardHandleScancode k leftShift = { k with shiftPressed := true } := by
      rw [keyboardHandleScancode, if_neg (by decide), if_neg (by simp [hext]), if_pos (.inl rfl)]
    have hup : keyboardHandleScancode { k with shiftPressed := true } leftRelease =
        { k with shiftPressed := false } := by
      rw [keyboardHandleScancode, if_neg (by decide), if_neg (by simp [hext]), if_neg (by decide),
        if_pos (.inl rfl)]
    have hnone : ∀ k, handed k leftShift = none := fun _ => if_pos (.inr (.inr (.inl (by decide))))
    have hnone' : ∀ k, handed k leftRelease = none :=
      fun _ => if_pos (.inr (.inr (.inl (by decide))))
    have hback : SameFlags { k with shiftPressed := false } k := ⟨hshift.symm, rfl⟩
    have hkey := typed_key (k := { k with shiftPressed := true }) (c := c) hext ⟨hlt, hleft, hright⟩
      (by rw [mapped, hnat]; exact hget) hc.1 (leftRelease :: rest)
    rw [if_neg (fun h => hmem (List.contains_iff_mem.mp h))]
    simp only [List.cons_append, List.nil_append]
    rw [typing, hnone, hdown, Option.toList_none, List.nil_append, hkey, typing, hnone', hup,
      hback.typing]
    rfl

theorem AtRest.typed_silent (h : AtRest k) (hs : Silent codes) (rest : List Byte) :
    typing k (codes ++ rest) = typing k rest := by
  induction hs generalizing k with
  | nil => rfl
  | @release c codes hbit hplain _ ih =>
    simp only [List.mem_cons, List.not_mem_nil, or_false, not_or, leftRelease, rightRelease] at hplain
    have hshift : c ∉ [0x2A, 0x36, 0xAA, 0xB6] := by
      simp only [List.mem_cons, List.not_mem_nil, or_false, not_or]
      refine ⟨?_, ?_, hplain.2⟩
      · rintro rfl
        exact hbit (by decide)
      · rintro rfl
        exact hbit (by decide)
    obtain ⟨hnone, hsame⟩ := handle_release h.2 ⟨hplain.1, hshift⟩ hbit
    rw [List.cons_append, typing, hnone, hsame]
    exact ih h
  | @group c codes hne _ ih =>
    have hopen : keyboardHandleScancode k 0xE0 = { k with extendedScancode := true } := if_pos rfl
    have hclose : keyboardHandleScancode { k with extendedScancode := true } c =
        { k with extendedScancode := false } := by
      rw [keyboardHandleScancode, if_neg hne]
      exact if_pos rfl
    have hnone : handed k 0xE0 = none := if_pos (.inl rfl)
    have hnone' : handed { k with extendedScancode := true } c = none := if_pos (.inr (.inl rfl))
    have hrest : AtRest { k with extendedScancode := false } := ⟨h.1, rfl⟩
    have hflags : SameFlags { k with extendedScancode := false } k := ⟨rfl, h.2.symm⟩
    rw [List.cons_append, List.cons_append, typing, typing, hnone, hopen, hnone', hclose]
    exact (ih hrest).trans (hflags.typing rest)

/-- Typing a text, with keys let go late and groups in between, hands over exactly the text. -/
theorem AtRest.typed_pressed (h : AtRest k) (ps : List Keypress) :
    typing k (pressed ps) = ps.map Keypress.char := by
  induction ps with
  | nil => rfl
  | cons p ps ih =>
    have hsplit : pressed (p :: ps) = press p.char ++ (p.after ++ pressed ps) := by
      simp [pressed]
    rw [hsplit, h.typed_press p.mem, h.typed_silent p.silent, ih, List.map_cons]

/-! The driver and the loop together. -/

theorem scancodes_snoc (es : List KeyEvent) (e : KeyEvent) :
    scancodes (es ++ [e]) = scancodes es ++ scancodes [e] := List.filterMap_append

/-- What the machine has made of the scancodes so far. -/
structure LoopServes (shell : ShellInput ω) (k : KeyboardState) (input : Nat → Byte) (w : ω)
    (m : Machine ω) (codes : List Byte) : Prop where
  queued : ∃ stored, Queued m.session stored
  flags : SameFlags m.session.keyboard (codes.foldl keyboardHandleScancode (keyboardInit k))
  accepted : m.session.accepted.Sublist (typing (keyboardInit k) codes)
  console : m.session.consumed.foldlM (Console.kernelKey shell) (Console.start input w) =
    some m.console

theorem serves_start (shell : ShellInput ω) (k : KeyboardState) (input : Nat → Byte) (w : ω) :
    LoopServes shell k input w (Machine.start k input w) [] where
  queued := ⟨[], start_queued k⟩
  flags := ⟨rfl, rfl⟩
  accepted := List.nil_sublist _
  console := rfl

/-- What a scancode adds to the characters typed. -/
theorem typed_concat (k : KeyboardState) (codes : List Byte) (c : Byte) :
    typing k (codes ++ [c]) =
      typing k codes ++ (handed (codes.foldl keyboardHandleScancode k) c).toList := by
  simp [typed_append, typing]

theorem LoopServes.step (h : LoopServes shell k input w m codes) (hstep : Machine.Step shell m e m') :
    LoopServes shell k input w m' (codes ++ scancodes [e]) := by
  obtain ⟨stored, hq⟩ := h.queued
  cases hstep with
  | @interrupt scancode _ hw hs =>
    have hq' := step_queued hq hs
    cases hs with
    | interrupt =>
      refine ⟨hq', ?_, ?_, h.console⟩
      · change SameFlags _ ((codes ++ [scancode]).foldl keyboardHandleScancode (keyboardInit k))
        rw [List.foldl_append]
        exact h.flags.handle scancode
      · change (m.session.accepted ++ acceptedFrom m.session.keyboard scancode).Sublist
          (typing _ (codes ++ [scancode]))
        rw [typed_concat, ← h.flags.handed, acceptedFrom]
        apply h.accepted.append
        split
        · exact List.Sublist.refl _
        · exact List.nil_sublist _
  | check hw hs =>
    have hq' := step_queued hq hs
    rw [show scancodes [KeyEvent.check] = [] from rfl, List.append_nil]
    cases hs with
    | found hc ha => exact ⟨hq', h.flags, h.accepted, h.console⟩
    | waits hc ha => exact ⟨hq', h.flags, h.accepted, h.console⟩
  | read hw hs =>
    have hq' := step_queued hq hs
    rw [show scancodes [KeyEvent.read] = [] from rfl, List.append_nil]
    cases hs with
    | read hc => exact ⟨hq', h.flags, h.accepted, h.console⟩
  | @advance _ c console hw hc hs hkey =>
    have hq' := step_queued hq hs
    rw [show scancodes [KeyEvent.advance] = [] from rfl, List.append_nil]
    cases hs with
    | @advance d hd =>
      obtain rfl : c = d := by
        rw [hc] at hd
        exact Consumer.advancing.inj hd
      refine ⟨hq', h.flags, h.accepted, ?_⟩
      change (m.session.consumed ++ [c]).foldlM _ _ = some console
      rw [List.foldlM_append, h.console]
      simp [hkey]

theorem run_serves (hrun : Run (Machine.Step shell) (Machine.start k input w) es m) :
    LoopServes shell k input w m (scancodes es) := by
  induction hrun with
  | nil => exact serves_start shell k input w
  | snoc _ hs ih =>
    rw [scancodes_snoc]
    exact ih.step hs

theorem LoopServes.answered (h : LoopServes shell k input w m codes) :
    Answered shell anyLine w m.session.consumed m.console := by
  obtain ⟨s, hrun, hanswered⟩ := (kernelKey_turns shell).answered input w
    m.session.consumed fun _ _ => trivial
  obtain rfl := Option.some.inj (hrun.symm.trans h.console)
  exact hanswered

theorem filter_anyLine (lines : List (List Byte)) : lines.filter anyLine = lines :=
  List.filter_true lines

/-- In every interleaving of the keyboard's interrupts with the loop, the lines passed on are those
edited by the characters taken so far, which are the first of those typed that found a slot. -/
theorem typed_lines_passed (hrun : Run (Machine.Step shell) (Machine.start k input w) es m) :
    ∃ stored, m.session.accepted = m.session.consumed ++ stored ∧ stored.length ≤ 255 ∧
      m.session.accepted.Sublist (typing (keyboardInit k) (scancodes es)) ∧
      Answered shell anyLine w m.session.consumed m.console := by
  have hserves := run_serves hrun
  obtain ⟨stored, hstores, hhistory, -⟩ := hserves.queued
  exact ⟨stored, hhistory, Nat.le_of_lt_succ hstores.short, hserves.accepted, hserves.answered⟩

/-! Nothing is lost while the buffer has room. -/

/-- The steps in which no character can be lost. -/
abbrev RoomStep (shell : ShellInput ω) : Machine ω → KeyEvent → Machine ω → Prop :=
  Guarded Machine.HasRoom (Machine.Step shell)

theorem room_accepted (hrun : Run (RoomStep shell)
    (Machine.start k input w) es m) :
    m.session.accepted = typing (keyboardInit k) (scancodes es) := by
  induction hrun with
  | nil => rfl
  | @snoc es e m m' hrun hs ih =>
    obtain ⟨hroom, hstep⟩ := hs
    have hflags := (run_serves (hrun.mono fun _ _ _ h => h.2)).flags
    rw [scancodes_snoc]
    cases hstep with
    | @interrupt scancode _ hw hs =>
      cases hs with
      | interrupt =>
        change m.session.accepted ++ acceptedFrom m.session.keyboard scancode = _
        rw [show scancodes [KeyEvent.interrupt scancode] = [scancode] from rfl, typed_concat, ih,
          ← hflags.handed, acceptedFrom]
        cases hc : handed m.session.keyboard scancode with
        | none => simp
        | some c => rw [if_pos (hroom (by simp [hc]))]
    | check hw hs =>
      rw [show scancodes [KeyEvent.check] = [] from rfl, List.append_nil]
      cases hs with
      | found hc ha => exact ih
      | waits hc ha => exact ih
    | read hw hs =>
      rw [show scancodes [KeyEvent.read] = [] from rfl, List.append_nil]
      cases hs with
      | read hc => exact ih
    | advance hw hc hs hkey =>
      rw [show scancodes [KeyEvent.advance] = [] from rfl, List.append_nil]
      cases hs with
      | advance hd => exact ih

/-! Whole lines. -/

theorem edited_append (xs ys : List Byte) :
    edited (xs ++ ys) = (edited xs).strokes lineLimit (ys.map strokeOf) := by
  rw [edited, List.map_append, LineEditor.strokes_append]
  rfl

theorem edited_prefix (xs ys : List Byte) :
    ∃ more, (edited (xs ++ ys)).lines = (edited xs).lines ++ more := by
  rw [edited_append]
  exact ⟨_, congrArg LineEditor.lines (LineEditor.strokes_lines _ (edited xs).lines _ _)⟩

theorem strokeOf_printable (hlow : 32 ≤ c.toInt) (hhigh : c.toInt ≤ 126) : strokeOf c = .char c := by
  rw [strokeOf, if_neg, if_neg, if_pos ⟨hlow, hhigh⟩]
  · rintro rfl
    exact absurd hlow (by decide)
  · rintro rfl
    exact absurd hlow (by decide)

theorem TypedLine.strokes (l : TypedLine) :
    l.line.map strokeOf = l.line.map Stroke.char := by
  apply List.map_congr_left
  intro c hc
  obtain ⟨p, hp, rfl⟩ := List.mem_map.mp hc
  obtain ⟨hlow, hhigh⟩ := l.printable p hp
  exact strokeOf_printable hlow hhigh

theorem typedLine_edits (l : TypedLine) (lines : List (List Byte)) :
    LineEditor.strokes lineLimit ⟨lines, []⟩ ((l.line ++ [0x0A]).map strokeOf) =
      ⟨lines ++ [l.line], []⟩ := by
  have hlen : ([] : List Byte).length + l.line.length ≤ lineLimit := by
    simpa [TypedLine.line, lineLimit] using l.short
  rw [List.map_append, LineEditor.strokes_append, TypedLine.strokes,
    LineEditor.strokes_chars lines [] l.line hlen]
  rfl

/-- What is typed for some lines. -/
def typedText (ls : List TypedLine) : List Byte := ls.flatMap fun l => l.line ++ [0x0A]

theorem typedText_edited (ls : List TypedLine) :
    edited (typedText ls) = ⟨ls.map TypedLine.line, []⟩ := by
  have hall : ∀ lines, LineEditor.strokes lineLimit ⟨lines, []⟩ ((typedText ls).map strokeOf) =
      ⟨lines ++ ls.map TypedLine.line, []⟩ := by
    induction ls with
    | nil => simp [typedText]
    | cons l ls ih =>
      intro lines
      have hsplit : typedText (l :: ls) = (l.line ++ [0x0A]) ++ typedText ls := by
        simp [typedText]
      rw [hsplit, List.map_append, LineEditor.strokes_append, typedLine_edits, ih]
      simp
  exact hall []

theorem typed_codes (k : KeyboardState) (ls : List TypedLine) :
    typing (keyboardInit k) (ls.flatMap TypedLine.codes) = typedText ls := by
  have hrest : AtRest (keyboardInit k) := ⟨rfl, rfl⟩
  have hcodes : ls.flatMap TypedLine.codes = pressed (ls.flatMap fun l => l.text ++ [l.enter]) := by
    induction ls with
    | nil => rfl
    | cons l ls ih => simp [ih, TypedLine.codes, pressed]
  rw [hcodes, hrest.typed_pressed, typedText, List.map_flatMap]
  congr 1
  funext l
  simp [TypedLine.line, l.newline]

/-- A line that is not reached does not matter. -/
theorem converse_halted {xs : List (List Byte)} {v : Option ω}
    (h : (converse shell v xs).2 = none) (ys : List (List Byte)) :
    converse shell v (xs ++ ys) = converse shell v xs := by
  rw [converse_append, h, converse_none, List.append_nil]
  exact Prod.ext rfl h.symm

/-! What is written meanwhile. -/

theorem keyed_append (t : Terminal ω) (xs ys : List Byte) :
    keyed shell anyLine t (xs ++ ys) = keyed shell anyLine (keyed shell anyLine t xs) ys :=
  List.foldl_append

theorem keyed_cons (t : Terminal ω) (c : Byte) (cs : List Byte) :
    keyed shell anyLine t (c :: cs) = keyed shell anyLine (t.stroke shell anyLine (strokeOf c)) cs :=
  rfl

theorem keyed_enter (t : Terminal ω) :
    keyed shell anyLine t [0x0A] = t.stroke shell anyLine .enter := rfl

theorem keyed_halted {t : Terminal ω} (hw : t.world = none) (keys : List Byte) :
    keyed shell anyLine t keys = t := by
  induction keys with
  | nil => rfl
  | cons c keys ih =>
    have hsame : t.stroke shell anyLine (strokeOf c) = t := by simp [Terminal.stroke, hw]
    rw [keyed_cons, hsame, ih]

/-- Characters that find room are echoed one by one. -/
theorem keyed_chars {t : Terminal ω} (hw : t.world = some w) (cs : List Byte)
    (hcs : ∀ c ∈ cs, strokeOf c = .char c) (hroom : t.editor.line.length + cs.length ≤ lineLimit) :
    keyed shell anyLine t cs =
      ⟨⟨t.editor.lines, t.editor.line ++ cs⟩, t.world, t.passed, t.written ++ puts cs⟩ := by
  induction cs generalizing t with
  | nil => simp [keyed, puts]
  | cons c cs ih =>
    rw [List.length_cons] at hroom
    have hc : t.editor.line.length < lineLimit := by omega
    have hstep : t.stroke shell anyLine (strokeOf c) =
        ⟨⟨t.editor.lines, t.editor.line ++ [c]⟩, t.world, t.passed, t.written ++ puts [c]⟩ := by
      rw [hcs c List.mem_cons_self]
      simp only [Terminal.stroke, hw, LineEditor.stroke, Terminal.echo, if_pos hc]
    have hrest : t.editor.line.length + [c].length + cs.length ≤ lineLimit := by
      rw [List.length_singleton]
      omega
    rw [← List.length_append] at hrest
    have hlast := ih (t := t.stroke shell anyLine (strokeOf c)) (by rw [hstep]; exact hw)
      (fun d hd => hcs d (List.mem_cons_of_mem _ hd)) (by rw [hstep]; exact hrest)
    rw [keyed_cons, hlast, hstep]
    simp [puts]

/-- A line typed where none is begun, and what it is answered with. -/
theorem keyed_line (shell : ShellInput ω) {t : Terminal ω} (hw : t.world = some w)
    (hline : t.editor.line = []) (l : TypedLine) :
    (keyed shell anyLine t (l.line ++ [0x0A])).world = (shell w l.line).world ∧
      (keyed shell anyLine t (l.line ++ [0x0A])).editor.line = [] ∧
      (keyed shell anyLine t (l.line ++ [0x0A])).written =
        t.written ++ (puts (l.line ++ [0x0A]) ++ (shell w l.line).ops ++
          if (shell w l.line).world.isSome then puts prompt else []) := by
  have hcs : ∀ c ∈ l.line, strokeOf c = .char c := by
    intro c hc
    obtain ⟨p, hp, rfl⟩ := List.mem_map.mp hc
    exact strokeOf_printable (l.printable p hp).1 (l.printable p hp).2
  have hroom : t.editor.line.length + l.line.length ≤ lineLimit := by
    simpa [hline, TypedLine.line, lineLimit] using l.short
  rw [keyed_append, keyed_chars hw l.line hcs hroom, keyed_enter]
  simp [Terminal.stroke, hw, hline, LineEditor.stroke, Terminal.answer, anyLine,
    Terminal.echo, puts]

theorem keyed_typedText {t : Terminal ω} (hline : t.world ≠ none → t.editor.line = [])
    (ls : List TypedLine) :
    (keyed shell anyLine t (typedText ls)).written =
      t.written ++ dialogue shell t.world (ls.map TypedLine.line) := by
  induction ls generalizing t with
  | nil => simp [typedText, keyed, dialogue]
  | cons l ls ih =>
    have hsplit : typedText (l :: ls) = (l.line ++ [0x0A]) ++ typedText ls := by simp [typedText]
    cases hw : t.world with
    | none =>
      rw [keyed_halted hw]
      simp [dialogue]
    | some w =>
      obtain ⟨hworld, hempty, hwritten⟩ := keyed_line shell hw (hline (by simp [hw])) l
      rw [hsplit, keyed_append, ih fun _ => hempty, hworld, hwritten]
      simp [dialogue]

theorem lines_served {ls : List TypedLine}
    (hrun : Run (RoomStep shell) (Machine.start k input w) es m)
    (hcodes : scancodes es = ls.flatMap TypedLine.codes)
    (hdone : m.console.world ≠ none → keyboardAvailable m.session.keyboard = false) :
    (m.console.passed, m.console.world) = converse shell (some w) (ls.map TypedLine.line) ∧
      m.console.written = dialogue shell (some w) (ls.map TypedLine.line) := by
  have hserves := run_serves (hrun.mono fun _ _ _ h => h.2)
  obtain ⟨stored, hstores, hhistory, -⟩ := hserves.queued
  have htyped : typedText ls = m.session.consumed ++ stored := by
    rw [← hhistory, room_accepted hrun, hcodes, typed_codes]
  have hanswered := hserves.answered
  have hpassed := hanswered.passed
  have hlines : ls.map TypedLine.line = (edited (typedText ls)).lines := by rw [typedText_edited]
  have hall : (terminal shell anyLine w (typedText ls)).written =
      dialogue shell (some w) (ls.map TypedLine.line) :=
    (keyed_typedText (t := Terminal.start w) (fun _ => rfl) ls).trans (List.nil_append _)
  rw [filter_anyLine] at hpassed
  rw [← hall, hanswered.written, hlines, htyped]
  by_cases hw : m.console.world = none
  · obtain ⟨more, hmore⟩ := edited_prefix m.session.consumed stored
    have hterminal : (terminal shell anyLine w m.session.consumed).world = none := by
      have hconv := congrArg Prod.snd (terminal_conversed shell anyLine w m.session.consumed).lines
      rw [filter_anyLine, ← hpassed] at hconv
      exact hconv.trans hw
    refine ⟨?_, ?_⟩
    · rw [hmore, converse_halted _ more, hpassed]
      rw [← hpassed]
      exact hw
    · rw [terminal, terminal, keyed_append]
      exact (congrArg Terminal.written (keyed_halted hterminal stored)).symm
  · have hempty := hstores.available.mp (hdone hw)
    rw [hempty, List.append_nil]
    exact ⟨hpassed, rfl⟩

/-- Lines typed at the keyboard, in any interleaving that leaves the buffer room, come to the shell as
they were typed and one after the other, and each is answered behind its echo, once the loop waits
for a key again or a command has halted the machine. -/
theorem lines_typed_are_passed {ls : List TypedLine}
    (hrun : Run (RoomStep shell) (Machine.start k input w) es m)
    (hcodes : scancodes es = ls.flatMap TypedLine.codes)
    (hdone : m.console.world ≠ none → keyboardAvailable m.session.keyboard = false) :
    (m.console.passed, m.console.world) = converse shell (some w) (ls.map TypedLine.line) ∧
      m.console.written = dialogue shell (some w) (ls.map TypedLine.line) :=
  lines_served hrun hcodes hdone

/-! The loop catches up. -/

theorem RoomStep.check (shell : ShellInput ω) {s : Session} (hw : m.console.world ≠ none)
    (hs : m.session.Step .check s) :
    RoomStep shell m .check { m with session := s } := ⟨trivial, .check hw hs⟩

theorem RoomStep.read {s : Session} (hw : m.console.world ≠ none) (hs : m.session.Step .read s) :
    RoomStep shell m .read { m with session := s } := ⟨trivial, .read hw hs⟩

theorem RoomStep.advance {s : Session} {t : Console ω} (hw : m.console.world ≠ none)
    (hc : m.session.consumer = .advancing c) (hs : m.session.Step .advance s)
    (hkey : m.console.kernelKey shell c = some t) : RoomStep shell m .advance ⟨s, t⟩ :=
  ⟨trivial, .advance hw hc hs hkey⟩

/-- What the machine serves after more steps. -/
theorem LoopServes.run (h : LoopServes shell k input w m codes)
    (hrun : Run (Machine.Step shell) m es m') :
    LoopServes shell k input w m' (codes ++ scancodes es) := by
  induction hrun with
  | nil => exact (List.append_nil codes).symm ▸ h
  | snoc _ hs ih =>
    rw [scancodes_snoc, ← List.append_assoc]
    exact ih.step hs

/-- The loop comes as far as the last step for the next character. -/
theorem reads_on (shell : ShellInput ω) (hw : m.console.world ≠ none)
    (hav : keyboardAvailable m.session.keyboard = true) :
    ∃ es s c, Run (RoomStep shell) m es ⟨s, m.console⟩ ∧ scancodes es = [] ∧
      s.consumer = .advancing c ∧ s.accepted = m.session.accepted ∧
      s.consumed = m.session.consumed := by
  cases hc : m.session.consumer with
  | checking =>
    have hcheck := Run.single (RoomStep.check shell hw (.found hc hav))
    exact ⟨_, _, _, hcheck.snoc (RoomStep.read hw (.read rfl)), rfl, rfl, rfl, rfl⟩
  | reading => exact ⟨_, _, _, .single (RoomStep.read hw (.read hc)), rfl, rfl, rfl, rfl⟩
  | advancing c => exact ⟨[], m.session, c, .nil, rfl, hc, rfl, rfl⟩

/-- With the buffer not empty the loop takes one character more. -/
theorem LoopServes.takes (h : LoopServes shell k input w m codes) (hw : m.console.world ≠ none)
    (hav : keyboardAvailable m.session.keyboard = true) :
    ∃ es m', Run (RoomStep shell) m es m' ∧ scancodes es = [] ∧
      m'.session.accepted = m.session.accepted ∧
      m'.session.consumed.length = m.session.consumed.length + 1 := by
  obtain ⟨es, s, c, hreach, hcodes, hconsumer, haccepted, hconsumed⟩ :=
    reads_on shell hw hav
  obtain ⟨t, hall, -⟩ := (kernelKey_turns shell).answered input w
    (m.session.consumed ++ [c]) fun _ _ => trivial
  rw [List.foldlM_append, h.console] at hall
  have hkey : m.console.kernelKey shell c = some t := by simpa using hall
  have hlast := hreach.snoc (RoomStep.advance hw hconsumer (.advance hconsumer) hkey)
  refine ⟨_, _, hlast, ?_, haccepted, ?_⟩
  · rw [scancodes_snoc, hcodes]
    rfl
  · simp [hconsumed]

theorem LoopServes.drains (h : LoopServes shell k input w m codes) (n : Nat)
    (hn : m.session.accepted.length ≤ m.session.consumed.length + n) :
    ∃ es m', Run (RoomStep shell) m es m' ∧ scancodes es = [] ∧
      (m'.console.world ≠ none → keyboardAvailable m'.session.keyboard = false) := by
  induction n generalizing m codes with
  | zero =>
    obtain ⟨stored, hstores, hhistory, -⟩ := h.queued
    have hempty : stored = [] := by
      rw [hhistory, List.length_append] at hn
      exact List.eq_nil_of_length_eq_zero (by omega)
    exact ⟨[], m, .nil, rfl, fun _ => hstores.available.mpr hempty⟩
  | succ n ih =>
    by_cases hw : m.console.world = none
    · exact ⟨[], m, .nil, rfl, fun hne => absurd hw hne⟩
    cases hav : keyboardAvailable m.session.keyboard with
    | false => exact ⟨[], m, .nil, rfl, fun _ => hav⟩
    | true =>
      obtain ⟨es, m', hrun, hcodes, haccepted, hconsumed⟩ := h.takes hw hav
      obtain ⟨es', m'', hrun', hcodes', hdone⟩ :=
        ih (h.run (hrun.mono fun _ _ _ hs => hs.2)) (by rw [haccepted, hconsumed]; omega)
      refine ⟨es ++ es', m'', hrun.append hrun', ?_, hdone⟩
      rw [scancodes, List.filterMap_append, ← scancodes, ← scancodes, hcodes, hcodes']
      rfl

/-- Whatever has come in, the loop's own steps take it to where it waits for a key with the buffer
empty, or to a command that halts the machine. -/
theorem loop_catches_up (hrun : Run (Machine.Step shell) (Machine.start k input w) es m) :
    ∃ es' m', Run (RoomStep shell) m es' m' ∧ scancodes es' = [] ∧
      (m'.console.world ≠ none → keyboardAvailable m'.session.keyboard = false) :=
  (run_serves hrun).drains _ (Nat.le_add_left _ _)

/-! Some lines typed at once, and then served. -/

theorem typed_at_once (shell : ShellInput ω) (k : KeyboardState) (input : Nat → Byte) (w : ω)
    (codes : List Byte) (hshort : (typing (keyboardInit k) codes).length ≤ 255) :
    ∃ m, Run (RoomStep shell) (Machine.start k input w) (codes.map .interrupt) m ∧
      m.console = Console.start input w ∧ m.session.consumed = [] := by
  induction codes using List.reverseRecOn with
  | nil => exact ⟨_, .nil, rfl, rfl⟩
  | append_singleton codes c ih =>
    rw [typed_concat, List.length_append] at hshort
    obtain ⟨m, hrun, hconsole, hconsumed⟩ := ih (by omega)
    have hserves := run_serves (hrun.mono fun _ _ _ h => h.2)
    obtain ⟨stored, hstores, hhistory, -⟩ := hserves.queued
    have hall := room_accepted hrun
    have hcodes : scancodes (codes.map KeyEvent.interrupt) = codes := by
      simp [scancodes, List.filterMap_map, Function.comp_def, KeyEvent.scancode?]
    have hroom : m.HasRoom (.interrupt c) := by
      intro hc
      rw [hserves.flags.handed, hcodes] at hc
      obtain ⟨d, hd⟩ := Option.ne_none_iff_exists'.mp hc
      rw [hcodes] at hall
      rw [hd, Option.toList_some, List.length_singleton, ← hall, hhistory, hconsumed,
        List.nil_append] at hshort
      cases ha : accepts m.session.keyboard with
      | true => rfl
      | false =>
        have hfull := hstores.accepts.mp ha
        omega
    have hstep : RoomStep shell m (.interrupt c) _ :=
      ⟨hroom, .interrupt (by rw [hconsole]; exact nofun) (.interrupt m.session c)⟩
    have hlonger := hrun.snoc hstep
    rw [← List.map_singleton, ← List.map_append] at hlonger
    exact ⟨_, hlonger, hconsole, hconsumed⟩

/-- Some interleaving serves all of a text that is no longer than the buffer. -/
theorem served_run (shell : ShellInput ω) (k : KeyboardState) (input : Nat → Byte) (w : ω)
    (codes : List Byte) (hshort : (typing (keyboardInit k) codes).length ≤ 255) :
    ∃ es m, Run (RoomStep shell) (Machine.start k input w) es m ∧ scancodes es = codes ∧
      (m.console.world ≠ none → keyboardAvailable m.session.keyboard = false) := by
  obtain ⟨m, hrun, -, -⟩ := typed_at_once shell k input w codes hshort
  obtain ⟨es, m', hrun', hnone, hdone⟩ :=
    (run_serves (hrun.mono fun _ _ _ h => h.2)).drains _ (Nat.le_add_left _ _)
  refine ⟨_, m', hrun.append hrun', ?_, hdone⟩
  rw [scancodes, List.filterMap_append, ← scancodes, ← scancodes, hnone, List.append_nil]
  simp [scancodes, List.filterMap_map, Function.comp_def, KeyEvent.scancode?]

/-! A greeting, of which some keys need shift. -/

def plainKey (c : Byte) (h : c ≠ 0 ∧ (c ∈ keymap ∨ c ∈ keymapShift)) : Keypress := ⟨c, h, [], .nil⟩

def enterKey : Keypress := plainKey 0x0A (by decide)

/-- The keys of a text and Enter. -/
def plainLine (cs : List Byte) (hkeys : ∀ c ∈ cs, (c ≠ 0 ∧ (c ∈ keymap ∨ c ∈ keymapShift)) ∧
    32 ≤ c.toInt ∧ c.toInt ≤ 126) (hshort : cs.length ≤ 1023) : TypedLine where
  text := cs.attach.map fun c => plainKey c.1 (hkeys c.1 c.2).1
  printable := by
    intro p hp
    obtain ⟨c, -, rfl⟩ := List.mem_map.mp hp
    exact (hkeys c.1 c.2).2
  short := by simpa using hshort
  enter := enterKey
  newline := rfl

theorem greeting_keys : ∀ c ∈ text "Hi!", (c ≠ 0 ∧ (c ∈ keymap ∨ c ∈ keymapShift)) ∧
    32 ≤ c.toInt ∧ c.toInt ≤ 126 := by
  decide

def greeting : TypedLine := plainLine (text "Hi!") greeting_keys (by decide)

theorem greeting_short :
    (typing (keyboardInit restKeyboard) ([greeting].flatMap TypedLine.codes)).length ≤ 255 := by
  rw [typed_codes]
  decide

theorem greeting_run : ∃ es m,
    Run (RoomStep echoShell) (Machine.start restKeyboard (fun _ => 0) ()) es m ∧
      scancodes es = [greeting].flatMap TypedLine.codes ∧
      (m.console.world ≠ none → keyboardAvailable m.session.keyboard = false) :=
  served_run echoShell restKeyboard (fun _ => 0) () _ greeting_short

theorem typed_lines_passed_greeting : ∃ (es : List KeyEvent) (m : Machine Unit) (stored : List Byte),
    scancodes es = [greeting].flatMap TypedLine.codes ∧
      m.session.accepted = m.session.consumed ++ stored ∧ stored.length ≤ 255 ∧
      m.session.accepted.Sublist (typing (keyboardInit restKeyboard) (scancodes es)) ∧
      Answered echoShell anyLine () m.session.consumed m.console := by
  obtain ⟨es, m, hrun, hcodes, -⟩ := greeting_run
  obtain ⟨stored, hall⟩ := typed_lines_passed (hrun.mono fun _ _ _ h => h.2)
  exact ⟨es, m, stored, hcodes, hall⟩

/-- From where all of the greeting waits in the buffer. -/
theorem loop_catches_up_greeting : ∃ m m' es', m.session.accepted = text "Hi!\n" ∧
    m.session.consumed = [] ∧ Run (RoomStep echoShell) m es' m' ∧ scancodes es' = [] ∧
    (m'.console.world ≠ none → keyboardAvailable m'.session.keyboard = false) := by
  obtain ⟨m, hrun, -, hconsumed⟩ :=
    typed_at_once echoShell restKeyboard (fun _ => 0) () _ greeting_short
  obtain ⟨es', m', hall⟩ := loop_catches_up (hrun.mono fun _ _ _ h => h.2)
  have haccepted := room_accepted hrun
  have hcodes : ∀ codes : List Byte, scancodes (codes.map KeyEvent.interrupt) = codes := by
    intro codes
    simp [scancodes, List.filterMap_map, Function.comp_def, KeyEvent.scancode?]
  rw [hcodes, typed_codes] at haccepted
  exact ⟨m, m', es', haccepted, hconsumed, hall⟩

theorem lines_typed_are_passed_greeting : ∃ m : Machine Unit,
    (m.console.passed, m.console.world) = ([text "Hi!"], some ()) ∧
      m.console.written = puts (text "Hi!\nHi!\n> ") := by
  obtain ⟨es, m, hrun, hcodes, hdone⟩ := greeting_run
  obtain ⟨hpassed, hwritten⟩ := lines_typed_are_passed hrun hcodes hdone
  exact ⟨m, hpassed, hwritten⟩

end Kernix.Proofs
