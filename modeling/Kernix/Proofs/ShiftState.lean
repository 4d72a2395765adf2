import Kernix.Keyboard.ShiftKeys
import Kernix.Proofs.KeyQueue

namespace Kernix.Proofs
open Library Keyboard

variable {k : KeyboardState} {s t : Session} {c : Byte} {codes keys : List Byte}
  {es : List KeyEvent} {opened : Bool}

/-! Reading one more scancode. -/

theorem groupOpen_concat (codes : List Byte) (c : Byte) :
    groupOpen (codes ++ [c]) = decide (c = 0xE0) := by
  rw [groupOpen, List.getLast?_concat]
  simp only [Option.some.injEq]

theorem outsideFrom_concat (codes : List Byte) (c : Byte) :
    outsideFrom opened (codes ++ [c]) = outsideFrom opened codes ++
      if c = 0xE0 ∨ (if codes = [] then opened else groupOpen codes) = true then [] else [c] := by
  induction codes generalizing opened with
  | nil =>
    cases opened with
    | true => simp [outsideFrom]
    | false => simp [outsideFrom]
  | cons d codes ih =>
    have hopen : (if d :: codes = [] then opened else groupOpen (d :: codes)) =
        (if codes = [] then decide (d = 0xE0) else groupOpen codes) := by
      cases codes with
      | nil => simp [groupOpen]
      | cons e codes => simp [groupOpen]
    rw [hopen, List.cons_append, outsideFrom, outsideFrom]
    by_cases hd : d = 0xE0
    · rw [if_pos hd, if_pos hd, ih]
      simp only [hd, decide_true]
    · rw [if_neg hd, if_neg hd, ih]
      simp only [hd, decide_false]
      cases opened with
      | true => simp
      | false => simp

theorem outsideGroups_concat (codes : List Byte) (c : Byte) : outsideGroups (codes ++ [c]) =
    outsideGroups codes ++ if c = 0xE0 ∨ groupOpen codes = true then [] else [c] := by
  rw [outsideGroups, outsideFrom_concat, ← outsideGroups]
  cases codes with
  | nil => simp [groupOpen]
  | cons d codes => simp

theorem lastOf_concat (keys codes : List Byte) (c : Byte) :
    lastOf keys (codes ++ [c]) = if c ∈ keys then some c else lastOf keys codes := by
  rw [lastOf, List.filter_append]
  by_cases hc : c ∈ keys
  · rw [if_pos hc, List.filter_cons_of_pos (by simpa using hc)]
    exact List.getLast?_concat
  · rw [if_neg hc, List.filter_cons_of_neg (by simpa using hc)]
    simp [lastOf]

/-! The flags of the driver. -/

/-- The last scancode of a shift key. -/
abbrev lastShift (codes : List Byte) : Option Byte :=
  lastOf [leftShift, rightShift, leftRelease, rightRelease] (outsideGroups codes)

/-- What the two flags say about the scancodes so far. -/
structure Tracks (k : KeyboardState) (codes : List Byte) : Prop where
  extended : k.extendedScancode = groupOpen codes
  shift : k.shiftPressed = true ↔
    lastShift codes = some leftShift ∨ lastShift codes = some rightShift

theorem keyboardInit_tracks (k : KeyboardState) : Tracks (keyboardInit k) [] := by
  refine ⟨rfl, ?_⟩
  simp [keyboardInit, lastShift, outsideGroups, outsideFrom, lastOf]

/-- `push_char` leaves the flags alone. -/
theorem Tracks.pushChar (h : Tracks k codes) (c : Byte) : Tracks (pushChar k c) codes := by
  unfold Keyboard.pushChar
  dsimp only
  split
  · exact h
  · exact ⟨h.extended, h.shift⟩

/-- The bytes of groups are of no shift key. -/
theorem lastShift_inside (h : c = 0xE0 ∨ groupOpen codes = true) :
    lastShift (codes ++ [c]) = lastShift codes := by
  rw [lastShift, outsideGroups_concat, if_pos h, List.append_nil]

theorem lastShift_outside (h : ¬ (c = 0xE0 ∨ groupOpen codes = true)) :
    lastShift (codes ++ [c]) =
      if c ∈ [leftShift, rightShift, leftRelease, rightRelease] then some c else lastShift codes := by
  rw [lastShift, outsideGroups_concat, if_neg h, lastOf_concat]

theorem Tracks.handle (h : Tracks k codes) (c : Byte) :
    Tracks (keyboardHandleScancode k c) (codes ++ [c]) := by
  have hextended := h.extended
  have hgroup := groupOpen_concat codes c
  unfold keyboardHandleScancode
  by_cases hext : c = 0xE0
  · rw [if_pos hext]
    refine ⟨(hgroup.trans (decide_eq_true hext)).symm, ?_⟩
    rw [lastShift_inside (.inl hext)]
    exact h.shift
  rw [if_neg hext]
  rw [decide_eq_false hext] at hgroup
  by_cases hopen : k.extendedScancode = true
  · rw [if_pos hopen]
    refine ⟨hgroup.symm, ?_⟩
    rw [lastShift_inside (.inr (hextended ▸ hopen))]
    exact h.shift
  rw [if_neg hopen]
  have hclosed : k.extendedScancode = groupOpen (codes ++ [c]) := by
    rw [hgroup]
    exact Bool.eq_false_iff.mpr hopen
  have hlast := lastShift_outside (not_or.mpr ⟨hext, hextended ▸ hopen⟩)
  by_cases hmake : c = 0x2A ∨ c = 0x36
  · have hmem : c ∈ [leftShift, rightShift, leftRelease, rightRelease] := by
      cases hmake with
      | inl hc => simp [hc, leftShift]
      | inr hc => simp [hc, rightShift]
    rw [if_pos hmake]
    refine ⟨hclosed, ?_⟩
    rw [hlast, if_pos hmem, Option.some_inj, Option.some_inj]
    exact iff_of_true rfl hmake
  rw [if_neg hmake]
  by_cases hbreak : c = 0xAA ∨ c = 0xB6
  · have hmem : c ∈ [leftShift, rightShift, leftRelease, rightRelease] := by
      cases hbreak with
      | inl hc => simp [hc, leftRelease]
      | inr hc => simp [hc, rightRelease]
    rw [if_pos hbreak]
    refine ⟨hclosed, ?_⟩
    rw [hlast, if_pos hmem, Option.some_inj, Option.some_inj]
    exact iff_of_false Bool.false_ne_true hmake
  rw [if_neg hbreak]
  -- The rest of the scancodes are of no shift key.
  have hmem : c ∉ [leftShift, rightShift, leftRelease, rightRelease] := by
    simp only [List.mem_cons, List.not_mem_nil, or_false]
    unfold leftShift rightShift leftRelease rightRelease
    tauto
  have hsame : Tracks k (codes ++ [c]) := by
    refine ⟨hclosed, ?_⟩
    rw [hlast, if_neg hmem]
    exact h.shift
  split
  · exact hsame
  · dsimp only
    split
    · exact hsame.pushChar _
    · exact hsame

/-- In every interleaving with the consumer the flags follow the scancodes. -/
theorem run_tracks (k : KeyboardState)
    (hrun : Run Session.Step (Session.start (keyboardInit k)) es s) :
    Tracks s.keyboard (scancodes es) := by
  induction hrun with
  | nil => exact keyboardInit_tracks k
  | snoc _ hstep ih =>
    rw [scancodes, List.filterMap_append, ← scancodes]
    have hconsumer : ∀ e : KeyEvent, e.scancode? = none → [e].filterMap KeyEvent.scancode? = [] :=
      fun _ he => List.filterMap_cons_none he
    cases hstep with
    | interrupt scancode => exact ih.handle scancode
    | found =>
      rw [hconsumer _ rfl, List.append_nil]
      exact ih
    | waits =>
      rw [hconsumer _ rfl, List.append_nil]
      exact ih
    | read =>
      rw [hconsumer _ rfl, List.append_nil]
      exact ih
    | advance =>
      rw [hconsumer _ rfl, List.append_nil]
      exact ⟨ih.extended, ih.shift⟩

/-! What the flag for two keys can say about them. -/

/-- A shift key is held when one was pressed last, or one was let go and the other was not. -/
theorem shiftHeld_iff (codes : List Byte) : shiftHeld codes = true ↔
    (lastShift codes = some leftShift ∨ lastShift codes = some rightShift) ∨
      ReleasedOneOfTwo codes := by
  simp only [shiftHeld, leftHeld, rightHeld, ReleasedOneOfTwo, lastShift, Bool.or_eq_true,
    decide_eq_true_eq]
  induction outsideGroups codes using List.reverseRecOn with
  | nil => simp [lastOf]
  | append_singleton cs c ih =>
    simp only [lastOf_concat]
    by_cases hc : c ∈ [leftShift, rightShift, leftRelease, rightRelease]
    · simp only [List.mem_cons, List.not_mem_nil, or_false] at hc
      rcases hc with rfl | rfl | rfl | rfl
      all_goals simp [leftShift, rightShift, leftRelease, rightRelease]
    · have hleft : c ∉ [leftShift, leftRelease] := by
        intro hmem
        apply hc
        simp only [List.mem_cons, List.not_mem_nil, or_false] at hmem ⊢
        tauto
      have hright : c ∉ [rightShift, rightRelease] := by
        intro hmem
        apply hc
        simp only [List.mem_cons, List.not_mem_nil, or_false] at hmem ⊢
        tauto
      rw [if_neg hc, if_neg hleft, if_neg hright]
      exact ih

/-- The flag is wrong exactly when one of two held keys was let go last. -/
theorem Tracks.shift_eq (h : Tracks k codes) :
    k.shiftPressed = shiftHeld codes ↔ ¬ ReleasedOneOfTwo codes := by
  have hheld := shiftHeld_iff codes
  rw [← h.shift] at hheld
  have hone : ReleasedOneOfTwo codes → k.shiftPressed = false := by
    intro hreleased
    rw [Bool.eq_false_iff, Ne, h.shift]
    intro hpressed
    cases hreleased with
    | inl hleft =>
      rw [lastShift, hleft.1] at hpressed
      exact absurd hpressed (by decide)
    | inr hright =>
      rw [lastShift, hright.1] at hpressed
      exact absurd hpressed (by decide)
  constructor
  · intro heq hreleased
    rw [hone hreleased] at heq
    exact Bool.false_ne_true (heq.trans (hheld.mpr (.inr hreleased)))
  · intro hno
    rw [Bool.eq_iff_iff, hheld, or_iff_left hno]

/-- The character of a make code outside the groups. -/
theorem handed_make (hopen : k.extendedScancode = false) (hmake : c &&& 0x80 = 0)
    (hshift : c ∉ [leftShift, rightShift]) : handed k c = character k.shiftPressed c := by
  have hmem : c ∉ ([0x2A, 0x36, 0xAA, 0xB6] : List Byte) := by
    intro hmem
    simp only [List.mem_cons, List.not_mem_nil, or_false] at hmem hshift
    rcases hmem with rfl | rfl | rfl | rfl
    · exact hshift (.inl rfl)
    · exact hshift (.inr rfl)
    · exact absurd hmake (by decide)
    · exact absurd hmake (by decide)
  have hext : c ≠ 0xE0 := by
    intro he
    subst he
    exact absurd hmake (by decide)
  unfold handed character
  change _ = if mapped k c = 0 then none else some (mapped k c)
  by_cases hc : mapped k c = 0
  · rw [if_pos hc, if_pos (.inr (.inr (.inr (.inr hc))))]
  · rw [if_neg hc, if_neg]
    simp only [hext, hopen, hmem, hmake, hc, ne_eq, not_true, not_false_iff,
      Bool.false_eq_true, or_self]

/-- The tables tell the two states of the shift keys apart where their entries differ. -/
theorem character_inj (a b : Bool) (c : Byte) : character a c = character b c ↔
    a = b ∨ keymap.getD c.toNat 0 = keymapShift.getD c.toNat 0 := by
  have hinj : ∀ x y : Byte, (if x = 0 then none else some x) = (if y = 0 then none else some y) ↔
      x = y := by
    intro x y
    by_cases hx : x = 0
    · by_cases hy : y = 0
      · exact iff_of_true (by rw [hx, hy]) (hx.trans hy.symm)
      · rw [if_pos hx, if_neg hy]
        exact iff_of_false nofun fun he => hy (he ▸ hx)
    · by_cases hy : y = 0
      · rw [if_neg hx, if_pos hy]
        exact iff_of_false nofun fun he => hx (he ▸ hy)
      · rw [if_neg hx, if_neg hy, Option.some_inj]
  cases a with
  | true =>
    cases b with
    | true => simp
    | false =>
      rw [eq_comm, or_iff_right Bool.true_eq_false.mp]
      exact hinj _ _
  | false =>
    cases b with
    | true =>
      rw [or_iff_right Bool.false_ne_true]
      exact hinj _ _
    | false => simp

/-- In every interleaving with the consumer, break codes and the bytes of groups type nothing, groups
leave the shift state alone, and a make code types what the held shift keys say, unless its
entries differ and one of two held shift keys was let go last. -/
theorem shift_follows_keys (k : KeyboardState)
    (hrun : Run Session.Step (Session.start (keyboardInit k)) es s) (c : Byte) :
    (c &&& 0x80 ≠ 0 ∨ groupOpen (scancodes es) = true → handed s.keyboard c = none) ∧
    (c = 0xE0 ∨ groupOpen (scancodes es) = true →
      (keyboardHandleScancode s.keyboard c).shiftPressed = s.keyboard.shiftPressed) ∧
    (groupOpen (scancodes es) = false → c &&& 0x80 = 0 → c ∉ [leftShift, rightShift] →
      (handed s.keyboard c = character (shiftHeld (scancodes es)) c ↔
        ¬ (ReleasedOneOfTwo (scancodes es) ∧
          keymap.getD c.toNat 0 ≠ keymapShift.getD c.toNat 0))) := by
  have htracks := run_tracks k hrun
  rw [← htracks.extended]
  refine ⟨?_, ?_, ?_⟩
  · intro h
    cases h with
    | inl hbreak => exact if_pos (.inr (.inr (.inr (.inl hbreak))))
    | inr hopen => exact if_pos (.inr (.inl hopen))
  · intro h
    cases h with
    | inl hext => rw [keyboardHandleScancode, if_pos hext]
    | inr hopen =>
      rw [keyboardHandleScancode, if_pos hopen]
      split
      · rfl
      · rfl
  · intro hopen hmake hshift
    rw [handed_make hopen hmake hshift, character_inj, htracks.shift_eq, not_and_or, not_not]

/-- Both shift keys pressed, and the left one let go. -/
def oneShiftHeld : Session :=
  { Session.start restKeyboard with
    keyboard := [0x2A, 0x36, 0xAA].foldl keyboardHandleScancode restKeyboard }

theorem one_shift_held_run : Run Session.Step (Session.start restKeyboard)
    [.interrupt 0x2A, .interrupt 0x36, .interrupt 0xAA] oneShiftHeld :=
  .snoc (.snoc (.single (.interrupt _ 0x2A)) (.interrupt _ 0x36)) (.interrupt _ 0xAA)

/-- The right shift key is held, and the A key types a small letter. -/
theorem shift_follows_keys_released : ∃ es s, Run Session.Step (Session.start restKeyboard) es s ∧
    groupOpen (scancodes es) = false ∧ rightHeld (scancodes es) = true ∧
    handed s.keyboard 0x1E = some (ascii 'a') ∧
    handed s.keyboard 0x1E ≠ character (shiftHeld (scancodes es)) 0x1E :=
  ⟨_, oneShiftHeld, one_shift_held_run, by decide, by decide, by decide, by decide⟩

/-- There Enter types the same with and without shift, and the A key does not. -/
theorem shift_follows_keys_one_held :
    handed oneShiftHeld.keyboard 0x1C = character (shiftHeld [0x2A, 0x36, 0xAA]) 0x1C ∧
      handed oneShiftHeld.keyboard 0x1E ≠ character (shiftHeld [0x2A, 0x36, 0xAA]) 0x1E := by
  have hkeys := shift_follows_keys ⟨fun _ => 0, 0, 0, false, false⟩ one_shift_held_run
  have henter := (hkeys 0x1C).2.2 (by decide) (by decide) (by decide)
  have ha := (hkeys 0x1E).2.2 (by decide) (by decide) (by decide)
  have hreleased : ReleasedOneOfTwo [0x2A, 0x36, 0xAA] := .inl ⟨by decide, by decide⟩
  refine ⟨henter.mpr fun h => h.2 (by decide), fun h => ha.mp h ⟨hreleased, by decide⟩⟩

end Kernix.Proofs
