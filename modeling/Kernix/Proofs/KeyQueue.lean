import Kernix.Library.Circular
import Kernix.Library.Runs
import Kernix.Keyboard.Scancodes

namespace Kernix.Proofs
open Library Keyboard

variable {k : KeyboardState} {s t : Session} {c : Byte} {xs stored : List Byte} {es : List KeyEvent}

/-- `key_buffer` between its two indices. -/
def ring (k : KeyboardState) : Circular Byte := ⟨k.keyBuffer, k.bufHead, k.bufTail⟩

/-- The characters stored, oldest first. -/
abbrev Stores (k : KeyboardState) (xs : List Byte) : Prop := (ring k).Holds 256 xs

theorem keyboardInit_stores (k : KeyboardState) : Stores (keyboardInit k) [] :=
  Circular.holds_nil (Nat.zero_lt_succ 255) rfl

theorem Stores.accepts (h : Stores k xs) : accepts k = false ↔ xs.length = 255 := by
  have hfull := h.full_iff
  rw [Keyboard.accepts, decide_eq_false_iff_not, not_not]
  exact hfull.trans Nat.succ_inj

theorem Stores.available (h : Stores k xs) : keyboardAvailable k = false ↔ xs = [] := by
  rw [keyboardAvailable, decide_eq_false_iff_not, not_not]
  exact h.empty_iff

theorem pushChar_refused (hk : Keyboard.accepts k = false) (c : Byte) : pushChar k c = k := by
  have hfull : (k.bufTail + 1) % 256 = k.bufHead := by simpa [Keyboard.accepts] using hk
  rw [pushChar, if_pos hfull]

theorem pushChar_accepted (hk : Keyboard.accepts k = true) (c : Byte) :
    pushChar k c = { k with
      keyBuffer := Function.update k.keyBuffer k.bufTail c
      bufTail := (k.bufTail + 1) % 256 } := by
  have hroom : ¬ (k.bufTail + 1) % 256 = k.bufHead := by simpa [Keyboard.accepts] using hk
  rw [pushChar, if_neg hroom]

theorem Stores.push (h : Stores k xs) (hk : Keyboard.accepts k = true) (c : Byte) :
    Stores (pushChar k c) (xs ++ [c]) := by
  have hne : xs.length ≠ 255 := fun hl => by simp [h.accepts.mpr hl] at hk
  have hshort := h.short
  rw [pushChar_accepted hk]
  exact Circular.Holds.put h (by omega) c

/-- Exactly a full buffer is left as it was. -/
theorem Stores.pushChar_eq_self (h : Stores k xs) (c : Byte) :
    pushChar k c = k ↔ xs.length = 255 := by
  rw [← h.accepts]
  constructor
  · intro hsame
    by_contra hk
    have htail := congrArg KeyboardState.bufTail hsame
    rw [pushChar_accepted (by simpa using hk)] at htail
    have := h.tail_lt
    simp only [ring] at htail this
    omega
  · exact fun hk => pushChar_refused hk c

/-- Handling a scancode changes flags, or hands one character to `push_char`. -/
theorem handleScancode_cases (k : KeyboardState) (scancode : Byte) :
    (handed k scancode = none ∧ ring (keyboardHandleScancode k scancode) = ring k) ∨
      ∃ c, handed k scancode = some c ∧ keyboardHandleScancode k scancode = pushChar k c := by
  unfold keyboardHandleScancode handed
  by_cases hext : scancode = 0xE0
  · exact .inl ⟨if_pos (.inl hext), by rw [if_pos hext]; rfl⟩
  rw [if_neg hext]
  by_cases hgroup : k.extendedScancode = true
  · exact .inl ⟨if_pos (.inr (.inl hgroup)), by rw [if_pos hgroup]; rfl⟩
  rw [if_neg hgroup]
  by_cases hmake : scancode = 0x2A ∨ scancode = 0x36
  · refine .inl ⟨if_pos (.inr (.inr (.inl ?_))), by rw [if_pos hmake]; rfl⟩
    rcases hmake with rfl | rfl <;> simp
  rw [if_neg hmake]
  by_cases hbreak : scancode = 0xAA ∨ scancode = 0xB6
  · refine .inl ⟨if_pos (.inr (.inr (.inl ?_))), by rw [if_pos hbreak]; rfl⟩
    rcases hbreak with rfl | rfl <;> simp
  rw [if_neg hbreak]
  by_cases hrelease : scancode &&& 0x80 ≠ 0
  · exact .inl ⟨if_pos (.inr (.inr (.inr (.inl hrelease)))), by rw [if_pos hrelease]⟩
  rw [if_neg hrelease]
  by_cases hmapped : mapped k scancode = 0
  · exact .inl ⟨if_pos (.inr (.inr (.inr (.inr hmapped)))), by rw [if_neg (not_not.mpr hmapped)]⟩
  · refine .inr ⟨mapped k scancode, if_neg ?_, if_pos hmapped⟩
    simp only [List.mem_cons, List.not_mem_nil, or_false]
    tauto

/-- What handling a scancode does to the characters stored. -/
theorem Stores.handle (h : Stores k xs) (scancode : Byte) :
    Stores (keyboardHandleScancode k scancode) (xs ++ acceptedFrom k scancode) := by
  unfold acceptedFrom
  rcases handleScancode_cases k scancode with ⟨hnone, hring⟩ | ⟨c, hsome, hpush⟩
  · have hsame : Stores (keyboardHandleScancode k scancode) xs := by
      rw [Stores, hring]
      exact h
    simpa [hnone] using hsame
  · rw [hpush, hsome]
    cases hk : Keyboard.accepts k with
    | true => simpa using h.push hk c
    | false =>
      rw [pushChar_refused hk]
      simpa using h

theorem Stores.advance (h : Stores k (c :: xs)) : Stores (advanceHead k) xs :=
  Circular.Holds.drop h

/-- What the consumer knows at each of its steps. -/
def Awaits (consumer : Consumer) (stored : List Byte) : Prop :=
  match consumer with
  | .checking => True
  | .reading => stored ≠ []
  | .advancing c => stored.head? = some c

/-- Later characters come behind those the consumer knows of. -/
theorem Awaits.append {consumer : Consumer} (h : Awaits consumer stored) (xs : List Byte) :
    Awaits consumer (stored ++ xs) := by
  cases consumer with
  | checking => trivial
  | reading => exact List.append_ne_nil_of_left_ne_nil h xs
  | advancing c =>
    cases stored with
    | nil => simp [Awaits] at h
    | cons d stored => exact h

/-- What has been accepted is what has been consumed, and then what is stored. -/
structure Queued (s : Session) (stored : List Byte) : Prop where
  stores : Stores s.keyboard stored
  history : s.accepted = s.consumed ++ stored
  awaits : Awaits s.consumer stored

theorem start_queued (k : KeyboardState) : Queued (Session.start (keyboardInit k)) [] :=
  ⟨keyboardInit_stores k, rfl, trivial⟩

theorem step_queued {e : KeyEvent} (hs : Queued s stored) (hstep : Session.Step s e t) :
    ∃ stored', Queued t stored' := by
  obtain ⟨hstores, hhistory, hawaits⟩ := hs
  cases hstep with
  | interrupt scancode =>
    refine ⟨stored ++ acceptedFrom s.keyboard scancode, hstores.handle scancode, ?_,
      hawaits.append _⟩
    rw [hhistory, List.append_assoc]
  | found hc ha =>
    refine ⟨stored, hstores, hhistory, ?_⟩
    intro hnil
    simp [hstores.available.mpr hnil] at ha
  | waits hc ha => exact ⟨stored, hstores, hhistory, hawaits⟩
  | read hc =>
    rw [hc] at hawaits
    cases stored with
    | nil => exact absurd rfl hawaits
    | cons d stored =>
      refine ⟨d :: stored, hstores, hhistory, ?_⟩
      exact congrArg some hstores.first.symm
  | @advance c hc =>
    rw [hc] at hawaits
    cases stored with
    | nil => simp [Awaits] at hawaits
    | cons d stored =>
      obtain rfl : d = c := Option.some.inj hawaits
      refine ⟨stored, hstores.advance, ?_, trivial⟩
      simpa using hhistory

/-- With no interrupt between them the last two steps of the consumer are `pop_char`. -/
theorem pop_run (hc : s.consumer = .reading) : Run Session.Step s [.read, .advance]
    { s with
      keyboard := (popChar s.keyboard).2
      consumer := .checking
      consumed := s.consumed ++ [(popChar s.keyboard).1] } := by
  have hread := Run.single (Session.Step.read hc)
  exact hread.snoc (.advance rfl)

/-- In every interleaving of the interrupt with the consumer the buffer is a queue of 255
characters: what is consumed is what was accepted, in order, and a character is refused exactly
when 255 are stored. -/
theorem keyboard_is_queue (k : KeyboardState)
    (hrun : Run Session.Step (Session.start (keyboardInit k)) es t) :
    ∃ stored, t.accepted = t.consumed ++ stored ∧ stored.length ≤ 255 ∧
      (accepts t.keyboard = false ↔ stored.length = 255) ∧
      (∀ c, pushChar t.keyboard c = t.keyboard ↔ stored.length = 255) ∧
      t.keyboard.bufHead < 256 ∧ t.keyboard.bufTail < 256 := by
  have hqueued : ∃ stored, Queued t stored := by
    refine hrun.invariant (I := fun t => ∃ stored, Queued t stored) ⟨[], start_queued k⟩ ?_
    rintro t e u ⟨stored, hs⟩ hstep
    exact step_queued hs hstep
  obtain ⟨stored, hstores, hhistory, -⟩ := hqueued
  exact ⟨stored, hhistory, Nat.le_of_lt_succ hstores.short, hstores.accepts,
    hstores.pushChar_eq_self, hstores.head, hstores.tail_lt⟩

/-! One key pressed and read. -/

def restKeyboard : KeyboardState := keyboardInit ⟨fun _ => 0, 0, 0, false, false⟩

def oneKey : Session :=
  ⟨advanceHead (keyboardHandleScancode restKeyboard 0x1E), .checking, [ascii 'a'], [ascii 'a']⟩

theorem one_key_run : Run Session.Step (Session.start restKeyboard)
    [.interrupt 0x1E, .check, .read, .advance] oneKey :=
  .snoc (.snoc (.snoc (.single (.interrupt _ 0x1E)) (.found rfl (by decide))) (.read rfl))
    (.advance rfl)

theorem keyboard_is_queue_one_key : ∃ stored, oneKey.accepted = oneKey.consumed ++ stored ∧
    stored.length ≤ 255 ∧ (accepts oneKey.keyboard = false ↔ stored.length = 255) ∧
    (∀ c, pushChar oneKey.keyboard c = oneKey.keyboard ↔ stored.length = 255) ∧
    oneKey.keyboard.bufHead < 256 ∧ oneKey.keyboard.bufTail < 256 :=
  keyboard_is_queue ⟨fun _ => 0, 0, 0, false, false⟩ one_key_run

end Kernix.Proofs
