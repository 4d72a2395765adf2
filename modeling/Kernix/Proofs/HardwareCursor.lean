import Kernix.Library.Bits
import Kernix.Proofs.CursorBlink
import Kernix.Screen.HardwareCursor

namespace Kernix.Proofs
open Library Screen CursorMachine

variable {d : Display} {s : CursorCode} {m m' : CursorMachine} {e : CursorEvent}
  {es : List CursorEvent} {ticks : U32}

/-- The register of the cursor's first line, with its bit for the visibility set. -/
def startWith (start : Byte) (visible : Bool) : Byte :=
  if visible then start &&& ~~~vgaCursorDisable else start ||| vgaCursorDisable

theorem startWith_visible (start : Byte) (visible : Bool) :
    (startWith start visible).getLsbD 5 = !visible := by
  cases visible with
  | true => simp [startWith, vgaCursorDisable]
  | false => simp [startWith, vgaCursorDisable]

def lowByte (p : U16) : Byte := (p &&& 0xFF).setWidth 8

def highByte (p : U16) : Byte := ((p >>> 8) &&& 0xFF).setWidth 8

theorem bytes_position (p : U16) : highByte p ++ lowByte p = p := by
  have hhigh : highByte p = p.extractLsb' 8 8 := shift_and_eq_extract p 8 8
  have hlow : lowByte p = p.setWidth 8 := by
    have hcut := shift_and_eq_extract p 0 8
    rw [BitVec.ushiftRight_zero, ← BitVec.setWidth_eq_extractLsb' (by decide)] at hcut
    exact hcut
  rw [hhigh, hlow, halves]

theorem tick_blink (h : d.blinks ticks = true) : d.tick ticks =
    { screen := { d.screen with lastBlinkTick := ticks, cursorVisible := !d.screen.cursorVisible }
      crtc := ⟨0x0A, Function.update d.crtc.regs 0x0A
        (startWith (d.crtc.regs 0x0A) !d.screen.cursorVisible)⟩ } := by
  have hscreen : d.screen.tick ticks =
      { d.screen with lastBlinkTick := ticks, cursorVisible := !d.screen.cursorVisible } :=
    tick_blinks (by simpa [Display.blinks] using h)
  rw [Display.tick, h, hscreen]
  rfl

theorem tick_still (h : d.blinks ticks = false) : d.tick ticks = d := by
  have hscreen : d.screen.tick ticks = d.screen :=
    tick_quiet (by simpa [Display.blinks] using h)
  rw [Display.tick, h, hscreen]
  rfl

/-! `sync_cursor`, from its start and from the steps before which a blink does no harm. -/

theorem sync_runs (s : CursorCode) : (s.runs syncCursor).display =
    { s.display with
      crtc := ⟨0x0A, Function.update
        (Function.update (Function.update s.display.crtc.regs 0x0F (lowByte s.position)) 0x0E
          (highByte s.position)) 0x0A
        (startWith (s.display.crtc.regs 0x0A) s.display.screen.cursorVisible)⟩ } := rfl

theorem high_runs (s : CursorCode) : (s.runs (syncCursor.drop 2)).display =
    { s.display with
      crtc := ⟨0x0A, Function.update
        (Function.update s.display.crtc.regs 0x0E (highByte s.position)) 0x0A
        (startWith (s.display.crtc.regs 0x0A) s.display.screen.cursorVisible)⟩ } := rfl

theorem load_runs (s : CursorCode) : (s.runs (syncCursor.drop 4)).display =
    { s.display with
      crtc := ⟨0x0A, Function.update s.display.crtc.regs 0x0A
        (startWith (s.display.crtc.regs 0x0A) s.display.screen.cursorVisible)⟩ } := rfl

/-- Once the visibility is set, only the two registers of the position matter. -/
theorem shows_iff (v : VGABuffer) (regs : Byte → Byte) (start : Byte) :
    Display.Shows ⟨v, ⟨0x0A, Function.update regs 0x0A (startWith start v.cursorVisible)⟩⟩ ↔
      regs 0x0E ++ regs 0x0F = v.y * BitVec.ofNat 16 vgaWidth + v.x :=
  ⟨fun h => h.position, fun h => ⟨h, startWith_visible _ _⟩⟩

theorem sync_shows (h : s.position = s.display.position) : (s.runs syncCursor).display.Shows := by
  rw [sync_runs, shows_iff]
  exact (bytes_position s.position).trans h

/-! Whole runs. -/

theorem run_screen (s : CursorCode) (step : CursorStep) :
    (step.run s).display.screen = s.display.screen ∧ (step.run s).position = s.position := by
  cases step with
  | select => exact ⟨rfl, rfl⟩
  | writeLow => exact ⟨rfl, rfl⟩
  | writeHigh => exact ⟨rfl, rfl⟩
  | load => exact ⟨rfl, rfl⟩
  | readStart => exact ⟨rfl, rfl⟩
  | writeStart => exact ⟨rfl, rfl⟩

/-- What is left of `sync_cursor` brings the cursor where it belongs. -/
structure Towards (m : CursorMachine) : Prop where
  left : ∃ n, m.todo = syncCursor.drop n
  position : m.todo ≠ [] → m.code.position = m.display.position
  shows : (m.code.runs m.todo).display.Shows

theorem towards_synchronising (m : CursorMachine) (v : VGABuffer) : Towards (m.synchronising v) :=
  ⟨⟨0, rfl⟩, fun _ => rfl, sync_shows rfl⟩

theorem Towards.port (h : Towards m) {step : CursorStep} {rest : List CursorStep}
    (htodo : m.todo = step :: rest) : Towards ⟨step.run m.code, rest⟩ := by
  obtain ⟨n, hn⟩ := h.left
  obtain ⟨hscreen, hposition⟩ := run_screen m.code step
  refine ⟨⟨n + 1, ?_⟩, fun _ => ?_, ?_⟩
  · rw [← List.drop_drop, ← hn, htodo]
    rfl
  · rw [hposition, h.position (by simp [htodo])]
    simp only [Display.position, CursorMachine.display, hscreen]
  · have hshows := h.shows
    rwa [htodo] at hshows

/-- The places of `sync_cursor` where a blink is harmless. -/
theorem harmless_iff {n : Nat} (hn : n ≤ 9) :
    harmless (syncCursor.drop n) = true ↔ n = 0 ∨ n = 2 ∨ n = 4 ∨ n = 9 := by
  have hall : ∀ n < 10, harmless (syncCursor.drop n) = true ↔ n = 0 ∨ n = 2 ∨ n = 4 ∨ n = 9 := by
    decide
  exact hall n (by omega)

/-- The places where a blink is harmless, and the end. -/
theorem harmless_cases {n : Nat} (h : harmless (syncCursor.drop n) = true) :
    n = 0 ∨ n = 2 ∨ n = 4 ∨ syncCursor.drop n = [] := by
  by_cases hlong : 9 ≤ n
  · exact .inr (.inr (.inr (List.drop_eq_nil_of_le hlong)))
  · have hplace := (harmless_iff (by omega)).mp h
    omega

theorem Towards.tick (h : Towards m) (hok : Undisturbed m (.tick ticks)) :
    Towards { m with code := { m.code with display := m.display.tick ticks } } := by
  cases hb : m.display.blinks ticks with
  | false =>
    rw [tick_still hb]
    exact h
  | true =>
    obtain ⟨n, hn⟩ := h.left
    have hsafe := hok hb
    rw [hn] at hsafe
    have hposition : (m.display.tick ticks).position = m.display.position := by
      rw [tick_blink hb]
      rfl
    refine ⟨⟨n, hn⟩, fun hne => (h.position hne).trans hposition.symm, ?_⟩
    have hshows := h.shows
    rw [hn] at hshows ⊢
    rcases harmless_cases hsafe with rfl | rfl | rfl | hnil
    · exact sync_shows ((h.position (by rw [hn]; decide)).trans hposition.symm)
    · rw [high_runs, shows_iff] at hshows
      rw [high_runs, tick_blink hb, shows_iff]
      exact hshows
    · rw [load_runs, shows_iff] at hshows
      rw [load_runs, tick_blink hb, shows_iff]
      exact hshows
    · rw [hnil] at hshows ⊢
      change (m.display.tick ticks).Shows
      rw [tick_blink hb, shows_iff]
      exact hshows.position

theorem Towards.step (h : Towards m) (hs : Guarded Undisturbed Step m e m') : Towards m' := by
  obtain ⟨hok, hs⟩ := hs
  cases hs with
  | init => exact towards_synchronising m _
  | putchar => exact towards_synchronising m _
  | clear => exact towards_synchronising m _
  | port htodo => exact h.port htodo
  | tick => exact h.tick hok

/-- The registers that are not the position, but for the bit of the visibility. -/
structure SameShape (r r' : Indexed) : Prop where
  others : ∀ i, i ∉ [0x0A, 0x0E, 0x0F] → r'.regs i = r.regs i
  start : r'.regs 0x0A &&& ~~~vgaCursorDisable = r.regs 0x0A &&& ~~~vgaCursorDisable

theorem SameShape.trans {r r' r'' : Indexed} (h : SameShape r r') (h' : SameShape r' r'') :
    SameShape r r'' :=
  ⟨fun i hi => (h'.others i hi).trans (h.others i hi), h'.start.trans h.start⟩

theorem startWith_shape (start : Byte) (visible : Bool) :
    startWith start visible &&& ~~~vgaCursorDisable = start &&& ~~~vgaCursorDisable := by
  revert start visible
  decide

theorem SameShape.symm {r r' : Indexed} (h : SameShape r r') : SameShape r' r :=
  ⟨fun i hi => (h.others i hi).symm, h.start.symm⟩

theorem position_shape (r : Indexed) (j v : Byte) {i : Byte} (h : i = 0x0E ∨ i = 0x0F) :
    SameShape r ⟨j, Function.update r.regs i v⟩ := by
  refine ⟨fun k hk => Function.update_of_ne ?_ _ _, ?_⟩
  · rintro rfl
    rcases h with rfl | rfl <;> simp at hk
  · rcases h with rfl | rfl <;> rfl

theorem start_shape (r : Indexed) (j : Byte) (visible : Bool) :
    SameShape r ⟨j, Function.update r.regs 0x0A (startWith (r.regs 0x0A) visible)⟩ := by
  refine ⟨fun k hk => Function.update_of_ne ?_ _ _, startWith_shape _ _⟩
  rintro rfl
  simp at hk

theorem high_shape (s : CursorCode) :
    SameShape s.display.crtc (s.runs (syncCursor.drop 2)).display.crtc := by
  rw [high_runs]
  exact (position_shape _ 0x0E _ (.inl rfl)).trans (start_shape _ _ _)

theorem sync_shape (s : CursorCode) : SameShape s.display.crtc (s.runs syncCursor).display.crtc := by
  rw [sync_runs]
  exact ((position_shape _ 0x0F _ (.inr rfl)).trans (position_shape _ 0x0E _ (.inl rfl))).trans
    (start_shape _ _ _)

theorem load_shape (s : CursorCode) :
    SameShape s.display.crtc (s.runs (syncCursor.drop 4)).display.crtc := by
  rw [load_runs]
  exact start_shape _ _ _

theorem harmless_shape (s : CursorCode) {n : Nat} (h : harmless (syncCursor.drop n) = true) :
    SameShape s.display.crtc (s.runs (syncCursor.drop n)).display.crtc := by
  rcases harmless_cases h with rfl | rfl | rfl | hnil
  · exact sync_shape s
  · exact high_shape s
  · exact load_shape s
  · rw [hnil]
    exact ⟨fun _ _ => rfl, rfl⟩

theorem tick_shape (d : Display) (ticks : U32) : SameShape d.crtc (d.tick ticks).crtc := by
  cases hb : d.blinks ticks with
  | false =>
    rw [tick_still hb]
    exact ⟨fun _ _ => rfl, rfl⟩
  | true =>
    rw [tick_blink hb]
    exact start_shape _ _ _

/-- What is left of `sync_cursor` leaves the registers of `r` as they were. -/
def Keeps (r : Indexed) (m : CursorMachine) : Prop :=
  SameShape r (m.code.runs m.todo).display.crtc

theorem Keeps.synchronising {r : Indexed} (h : Keeps r m) (htodo : m.todo = []) (v : VGABuffer) :
    Keeps r (m.synchronising v) := by
  rw [Keeps, htodo] at h
  have hnow : SameShape r m.display.crtc := h
  exact hnow.trans (sync_shape ({ m.display with screen := v } : Display).enterSync)

theorem Keeps.tick {r : Indexed} (h : Keeps r m) (htodo : ∃ n, m.todo = syncCursor.drop n)
    (hok : Undisturbed m (.tick ticks)) :
    Keeps r { m with code := { m.code with display := m.display.tick ticks } } := by
  cases hb : m.display.blinks ticks with
  | false =>
    rw [tick_still hb]
    exact h
  | true =>
    obtain ⟨n, hn⟩ := htodo
    have hsafe := hok hb
    rw [hn] at hsafe
    rw [Keeps, hn] at h ⊢
    have hnow : SameShape r m.display.crtc := h.trans (harmless_shape m.code hsafe).symm
    exact (hnow.trans (tick_shape m.display ticks)).trans
      (harmless_shape { m.code with display := m.display.tick ticks } hsafe)

theorem Keeps.step {r : Indexed} (h : Keeps r m) (htowards : Towards m)
    (hs : Guarded Undisturbed Step m e m') : Keeps r m' := by
  obtain ⟨hok, hs⟩ := hs
  cases hs with
  | init htodo => exact h.synchronising htodo _
  | putchar htodo => exact h.synchronising htodo _
  | clear htodo => exact h.synchronising htodo _
  | port htodo =>
    rw [Keeps, htodo] at h
    exact h
  | tick => exact h.tick htowards.left hok

theorem vgaInit_onScreen (v : VGABuffer) : OnScreen (vgaInit v) :=
  ⟨(by decide : (0 : U16).toNat < 80), (by decide : (0 : U16).toNat < 25)⟩

theorem onScreen_step (h : OnScreen m.display.screen) (hs : Step m e m') :
    OnScreen m'.display.screen := by
  cases hs with
  | init => exact vgaInit_onScreen m.display.screen
  | putchar _ hv =>
    obtain ⟨t, ht, hon, -⟩ := putchar_draws h _
    rw [hv] at ht
    exact (Option.some.inj ht) ▸ hon
  | clear _ hv => exact clear_onScreen hv
  | @port s _ _ =>
    change OnScreen (s.run m.code).display.screen
    rw [(run_screen m.code s).1]
    exact h
  | @tick ticks =>
    change OnScreen (m.display.tick ticks).screen
    cases hb : m.display.blinks ticks with
    | false => rwa [tick_still hb]
    | true =>
      rw [tick_blink hb]
      exact ⟨h.x, h.y⟩

/-- All that holds while the cursor blinks before harmless steps only. -/
structure CursorServed (r : Indexed) (m : CursorMachine) : Prop where
  towards : Towards m
  keeps : Keeps r m
  onScreen : OnScreen m.display.screen

theorem CursorServed.run {r : Indexed} (h : CursorServed r m)
    (hrun : Run (Guarded Undisturbed Step) m es m') : CursorServed r m' :=
  hrun.invariant h fun _ _ _ ht hs =>
    ⟨ht.towards.step hs, ht.keeps.step ht.towards hs, onScreen_step ht.onScreen hs.2⟩

/-- From `vga_init` on and in every run whose blinks come before harmless steps, the cursor on the
display stands at the cell the next character goes to and shows where the screen has it visible,
after each operation; its shape and the other registers of the controller stay. -/
theorem cursor_shown (m : CursorMachine)
    (hrun : Run (Guarded Undisturbed Step) (m.synchronising (vgaInit m.display.screen)) es m')
    (hdone : m'.todo = []) :
    m'.display.Shows ∧
      2 * (m'.display.crtc.regs 0x0E ++ m'.display.crtc.regs 0x0F).toNat =
        m'.display.screen.offset.toNat ∧
      m'.display.screen.offset.toNat < 4000 ∧ SameShape m.display.crtc m'.display.crtc := by
  have hstart : CursorServed m.display.crtc (m.synchronising (vgaInit m.display.screen)) :=
    ⟨towards_synchronising m _,
      sync_shape ({ m.display with screen := vgaInit m.display.screen } : Display).enterSync,
      vgaInit_onScreen m.display.screen⟩
  obtain ⟨htowards, hkeeps, hon⟩ := hstart.run hrun
  have hshows := htowards.shows
  rw [hdone] at hshows
  rw [Keeps, hdone] at hkeeps
  have hposition : (m'.display.crtc.regs 0x0E ++ m'.display.crtc.regs 0x0F) = m'.display.position :=
    hshows.position
  have hoffset := offset_position hon
  have hlt := hon.position_lt
  refine ⟨hshows, ?_, by omega, hkeeps⟩
  have hfield : m'.display.position.toNat = Proofs.position m'.display.screen := by
    have hx := hon.x
    have hy := hon.y
    unfold Display.position Proofs.position vgaWidth
    bv_omega
  rw [hposition, hoffset, hfield]

/-! One blink, before any of the steps. -/

/-- `sync_cursor` with a tick of the timer after its first `n` steps. -/
def disturbed (d : Display) (ticks : U32) (n : Nat) : Display :=
  let s := d.enterSync.runs (syncCursor.take n)
  (({ s with display := s.display.tick ticks } : CursorCode).runs (syncCursor.drop n)).display

theorem runs_screen (s : CursorCode) (steps : List CursorStep) :
    (s.runs steps).display.screen = s.display.screen ∧ (s.runs steps).position = s.position := by
  induction steps generalizing s with
  | nil => exact ⟨rfl, rfl⟩
  | cons step steps ih =>
    obtain ⟨hscreen, hposition⟩ := run_screen s step
    exact ⟨(ih (step.run s)).1.trans hscreen, (ih (step.run s)).2.trans hposition⟩

/-- The low byte goes to the register of the visibility, which is set again later. -/
theorem low_shows (h : s.display.crtc.index = 0x0A) :
    (s.runs (syncCursor.drop 1)).display.Shows ↔
      highByte s.position ++ s.display.crtc.regs 0x0F = s.display.position := by
  have hruns : (s.runs (syncCursor.drop 1)).display =
      ⟨s.display.screen, ⟨0x0A, Function.update (Function.update (Function.update s.display.crtc.regs
        s.display.crtc.index (lowByte s.position)) 0x0E (highByte s.position)) 0x0A
        (startWith (Function.update (Function.update s.display.crtc.regs
          s.display.crtc.index (lowByte s.position)) 0x0E (highByte s.position) 0x0A)
          s.display.screen.cursorVisible)⟩⟩ := rfl
  rw [hruns, shows_iff, h]
  rfl

theorem high_shows (h : s.display.crtc.index = 0x0A) :
    (s.runs (syncCursor.drop 3)).display.Shows ↔
      s.display.crtc.regs 0x0E ++ s.display.crtc.regs 0x0F = s.display.position := by
  have hruns : (s.runs (syncCursor.drop 3)).display =
      ⟨s.display.screen, ⟨0x0A, Function.update (Function.update s.display.crtc.regs
        s.display.crtc.index (highByte s.position)) 0x0A
        (startWith (Function.update s.display.crtc.regs s.display.crtc.index
          (highByte s.position) 0x0A) s.display.screen.cursorVisible)⟩⟩ := rfl
  rw [hruns, shows_iff, h]
  rfl

/-- Behind the read of the field the visibility is the one that was read. -/
theorem late_visible (h : s.display.crtc.index = 0x0A) {n : Nat} (hlow : 5 ≤ n) (hhigh : n < 9)
    (hshows : (s.runs (syncCursor.drop n)).display.Shows) :
    s.display.screen.cursorVisible = s.visible := by
  have hvisible := hshows.visible
  rw [(runs_screen s _).1] at hvisible
  have hset : ((s.runs (syncCursor.drop n)).display.crtc.regs 0x0A).getLsbD 5 = !s.visible := by
    rcases (by omega : n = 5 ∨ n = 6 ∨ n = 7 ∨ n = 8) with rfl | rfl | rfl | rfl
    · exact startWith_visible _ _
    · exact startWith_visible _ _
    · exact startWith_visible _ _
    · have hruns : (s.runs (syncCursor.drop 8)).display.crtc.regs = Function.update
          s.display.crtc.regs s.display.crtc.index (startWith s.cursorStart s.visible) := rfl
      rw [hruns, h]
      exact startWith_visible _ _
  rw [hset] at hvisible
  exact (Bool.not_inj hvisible).symm

/-- `sync_cursor` after its first `n` steps. -/
def syncAt (d : Display) (n : Nat) : CursorMachine :=
  ⟨d.enterSync.runs (syncCursor.take n), syncCursor.drop n⟩

theorem syncAt_towards (d : Display) (n : Nat) : Towards (syncAt d n) := by
  obtain ⟨hscreen, hposition⟩ := runs_screen d.enterSync (syncCursor.take n)
  refine ⟨⟨n, rfl⟩, fun _ => ?_, ?_⟩
  · change (d.enterSync.runs (syncCursor.take n)).position =
      (d.enterSync.runs (syncCursor.take n)).display.position
    rw [hposition, Display.position, hscreen]
    rfl
  · have hall : (d.enterSync.runs (syncCursor.take n)).runs (syncCursor.drop n) =
        d.enterSync.runs syncCursor := by
      rw [CursorCode.runs, CursorCode.runs, ← List.foldl_append, List.take_append_drop]
      rfl
    change ((d.enterSync.runs (syncCursor.take n)).runs (syncCursor.drop n)).display.Shows
    rw [hall]
    exact sync_shows rfl

theorem loaded_visible (d : Display) {n : Nat} (hlow : 5 ≤ n) (hhigh : n < 9) :
    (d.enterSync.runs (syncCursor.take n)).visible = d.screen.cursorVisible := by
  rcases (by omega : n = 5 ∨ n = 6 ∨ n = 7 ∨ n = 8) with rfl | rfl | rfl | rfl <;> rfl

/-- A blink after `n` of the steps leaves the cursor right exactly before the harmless ones, or where
the register it keeps from being written has the right value already. -/
theorem disturbed_shows_iff (d : Display) (hb : d.blinks ticks = true) {n : Nat} (hn : n ≤ 9) :
    (disturbed d ticks n).Shows ↔ (n = 0 ∨ n = 2 ∨ n = 4 ∨ n = 9) ∨
      (n = 1 ∧ d.crtc.regs 0x0F = lowByte d.position) ∨
      (n = 3 ∧ d.crtc.regs 0x0E = highByte d.position) := by
  rw [← harmless_iff hn]
  obtain ⟨hscreen, -⟩ := runs_screen d.enterSync (syncCursor.take n)
  have hblinks : (syncAt d n).display.blinks ticks = true := by
    change ((d.enterSync.runs (syncCursor.take n)).display).blinks ticks = true
    rw [Display.blinks, hscreen]
    exact hb
  have htick := tick_blink hblinks
  have hindex := congrArg (fun d => d.crtc.index) htick
  by_cases hsafe : harmless (syncCursor.drop n) = true
  · exact iff_of_true ((syncAt_towards d n).tick fun _ => hsafe).shows (.inl hsafe)
  have hbytes := bytes_position d.position
  -- what is left: a write of the position, or what follows the read of the field
  rcases (by omega : n = 0 ∨ n = 1 ∨ n = 2 ∨ n = 3 ∨ n = 4 ∨ n = 9 ∨ (5 ≤ n ∧ n < 9)) with
    rfl | rfl | rfl | rfl | rfl | rfl | ⟨hlow, hhigh⟩
  · exact absurd rfl hsafe
  · have hregister : ((syncAt d 1).display.tick ticks).crtc.regs 0x0F = d.crtc.regs 0x0F :=
      congrArg (fun d => d.crtc.regs 0x0F) htick
    have hposition : ((syncAt d 1).display.tick ticks).position =
        highByte d.position ++ lowByte d.position :=
      (congrArg Display.position htick).trans hbytes.symm
    refine (low_shows hindex).trans ?_
    change highByte d.position ++ ((syncAt d 1).display.tick ticks).crtc.regs 0x0F =
      ((syncAt d 1).display.tick ticks).position ↔ _
    rw [hregister, hposition, BitVec.append_right_inj]
    constructor
    · exact fun h => .inr (.inl ⟨rfl, h⟩)
    · rintro (h | ⟨-, h⟩ | ⟨h, -⟩)
      · exact absurd h hsafe
      · exact h
      · omega
  · exact absurd rfl hsafe
  · have hhighReg : ((syncAt d 3).display.tick ticks).crtc.regs 0x0E = d.crtc.regs 0x0E :=
      congrArg (fun d => d.crtc.regs 0x0E) htick
    have hlowReg : ((syncAt d 3).display.tick ticks).crtc.regs 0x0F = lowByte d.position :=
      congrArg (fun d => d.crtc.regs 0x0F) htick
    have hposition : ((syncAt d 3).display.tick ticks).position =
        highByte d.position ++ lowByte d.position :=
      (congrArg Display.position htick).trans hbytes.symm
    refine (high_shows hindex).trans ?_
    change ((syncAt d 3).display.tick ticks).crtc.regs 0x0E ++
        ((syncAt d 3).display.tick ticks).crtc.regs 0x0F =
      ((syncAt d 3).display.tick ticks).position ↔ _
    rw [hhighReg, hlowReg, hposition, BitVec.append_left_inj]
    constructor
    · exact fun h => .inr (.inr ⟨rfl, h⟩)
    · rintro (h | ⟨h, -⟩ | ⟨-, h⟩)
      · exact absurd h hsafe
      · omega
      · exact h
  · exact absurd rfl hsafe
  · exact absurd rfl hsafe
  · refine iff_of_false (fun hshows => ?_) ?_
    · have hnow : ((syncAt d n).display.tick ticks).screen.cursorVisible =
          !d.screen.cursorVisible := by
        rw [htick]
        exact congrArg (fun v => !v.cursorVisible) hscreen
      have hsame := late_visible hindex hlow hhigh hshows
      have hstale := hnow.symm.trans (hsame.trans (loaded_visible d hlow hhigh))
      cases hv : d.screen.cursorVisible with
      | true => rw [hv] at hstale; cases hstale
      | false => rw [hv] at hstale; cases hstale
    · rintro (h | ⟨rfl, -⟩ | ⟨rfl, -⟩)
      · exact hsafe h
      · omega
      · omega

/-! A display as firmware may leave it. -/

def firmwareDisplay : Display := ⟨blankBuffer, ⟨0, fun _ => 0x0D⟩⟩

def firmwareCursor : CursorMachine := ⟨firmwareDisplay.enterSync, []⟩

theorem ports_run (todo : List CursorStep) (s : CursorCode) :
    ∃ es, Run (Guarded Undisturbed Step) ⟨s, todo⟩ es ⟨s.runs todo, []⟩ := by
  induction todo generalizing s with
  | nil => exact ⟨[], .nil⟩
  | cons step todo ih =>
    have hport : Guarded Undisturbed Step ⟨s, step :: todo⟩ .port ⟨step.run s, todo⟩ :=
      ⟨trivial, .port rfl⟩
    obtain ⟨es, hes⟩ := ih (step.run s)
    exact ⟨_, (Run.single hport).append hes⟩

theorem rest_tick (s : CursorCode) (ticks : U32) : Guarded Undisturbed Step ⟨s, []⟩ (.tick ticks)
    ⟨{ s with display := s.display.tick ticks }, []⟩ := ⟨fun _ => rfl, .tick⟩

/-- `vga_init`, and then the first blink. -/
theorem cursor_shown_init : ∃ m' : CursorMachine, m'.display.Shows ∧
    2 * (m'.display.crtc.regs 0x0E ++ m'.display.crtc.regs 0x0F).toNat =
      m'.display.screen.offset.toNat ∧
    m'.display.screen.offset.toNat < 4000 ∧
    SameShape firmwareDisplay.crtc m'.display.crtc := by
  obtain ⟨es, hsync⟩ := ports_run syncCursor
    ({ firmwareDisplay with screen := vgaInit firmwareDisplay.screen } : Display).enterSync
  exact ⟨_, cursor_shown firmwareCursor (hsync.snoc (rest_tick _ 100)) rfl⟩

/-- A blink between the choice of the register for the low byte and its write. -/
theorem disturbed_shows_iff_init : ¬ (disturbed firmwareDisplay 100 1).Shows := by
  have hblinks : firmwareDisplay.blinks 100 = true := by decide
  have hiff := disturbed_shows_iff firmwareDisplay hblinks (show 1 ≤ 9 by decide)
  exact fun h => absurd (hiff.mp h) (by decide)

end Kernix.Proofs
