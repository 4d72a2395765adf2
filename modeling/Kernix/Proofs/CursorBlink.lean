import Kernix.Proofs.TextLayout
import Kernix.Screen.CursorBlink

namespace Kernix.Proofs
open Library Screen Screen.VGABuffer

variable {b b' : Blinker} {e : BlinkEvent} {es : List BlinkEvent} {v : VGABuffer}

/-- The time that `tick` measures at the next tick is no longer than what has passed. -/
structure OnTime (b : Blinker) : Prop where
  onScreen : OnScreen b.vgaBuffer
  measured : (b.gTicks + 1 - b.vgaBuffer.lastBlinkTick).toNat ≤ b.age + 1

theorem start_onTime (v : VGABuffer) : OnTime (.start v) := by
  refine ⟨⟨?_, ?_⟩, ?_⟩
  · simp [Blinker.start, vgaInit]
  · simp [Blinker.start, vgaInit]
  · simp [Blinker.start, vgaInit]

/-! What a tick does. -/

theorem tick_quiet {ticks : U32} (h : ticks - v.lastBlinkTick < vgaCursorBlinkPeriod) :
    v.tick ticks = v := if_pos h

theorem tick_blinks {ticks : U32} (h : ¬ ticks - v.lastBlinkTick < vgaCursorBlinkPeriod) :
    v.tick ticks = { v with lastBlinkTick := ticks, cursorVisible := !v.cursorVisible } := if_neg h

theorem irq0Handler_quiet
    (h : b.gTicks + 1 - b.vgaBuffer.lastBlinkTick < vgaCursorBlinkPeriod) :
    b.irq0Handler = ⟨b.gTicks + 1, b.vgaBuffer, b.age + 1⟩ := by
  simp only [Blinker.irq0Handler, tick_quiet h, if_true]

theorem irq0Handler_blinks
    (h : ¬ b.gTicks + 1 - b.vgaBuffer.lastBlinkTick < vgaCursorBlinkPeriod) :
    b.irq0Handler = ⟨b.gTicks + 1, { b.vgaBuffer with
      lastBlinkTick := b.gTicks + 1, cursorVisible := !b.vgaBuffer.cursorVisible }, 0⟩ := by
  have hchanged : (!b.vgaBuffer.cursorVisible) ≠ b.vgaBuffer.cursorVisible := by simp
  simp only [Blinker.irq0Handler, tick_blinks h, if_neg hchanged]

/-- The cursor changes in a tick where the time measured is up. -/
theorem irq0Handler_changes_iff :
    b.irq0Handler.vgaBuffer.cursorVisible ≠ b.vgaBuffer.cursorVisible ↔
      100 ≤ (b.gTicks + 1 - b.vgaBuffer.lastBlinkTick).toNat := by
  have hperiod : vgaCursorBlinkPeriod.toNat = 100 := rfl
  by_cases h : b.gTicks + 1 - b.vgaBuffer.lastBlinkTick < vgaCursorBlinkPeriod
  · rw [irq0Handler_quiet h]
    rw [BitVec.lt_def, hperiod] at h
    exact iff_of_false (not_not.mpr rfl) (Nat.not_le.mpr h)
  · rw [irq0Handler_blinks h]
    rw [BitVec.lt_def, hperiod] at h
    exact iff_of_true (by simp) (Nat.not_lt.mp h)

theorem OnTime.irq0Handler (h : OnTime b) : OnTime b.irq0Handler := by
  obtain ⟨hscreen, hmeasured⟩ := h
  by_cases hquiet : b.gTicks + 1 - b.vgaBuffer.lastBlinkTick < vgaCursorBlinkPeriod
  · rw [irq0Handler_quiet hquiet]
    refine ⟨hscreen, ?_⟩
    dsimp only
    unfold vgaCursorBlinkPeriod at hquiet
    bv_omega
  · rw [irq0Handler_blinks hquiet]
    refine ⟨⟨hscreen.x, hscreen.y⟩, ?_⟩
    dsimp only
    bv_omega

/-- `clear` stores zero for the time of the last change, whatever the time is. -/
theorem clear_lastBlinkTick {t : VGABuffer} (h : v.clear = some t) : t.lastBlinkTick = 0 := by
  rw [VGABuffer.clear, Option.bind_eq_bind, Option.bind_eq_some_iff] at h
  obtain ⟨u, -, hu⟩ := h
  obtain rfl := Option.some.inj hu
  rfl

theorem clear_onScreen {t : VGABuffer} (h : v.clear = some t) : OnScreen t := by
  obtain ⟨t', ht', hon, -⟩ := clear_draws v
  obtain rfl := Option.some.inj (h.symm.trans ht')
  exact hon

/-- Each step keeps the time measured, a clear where its zero is the time. -/
theorem OnTime.step (h : OnTime b) (hok : b.ClearsAtZero e) (hstep : b.Step e b') : OnTime b' := by
  cases e with
  | tick =>
    rw [hstep]
    exact h.irq0Handler
  | putchar c =>
    obtain ⟨v, hv, rfl⟩ := hstep
    obtain ⟨t, ht, hdraws⟩ := putchar_draws h.onScreen c
    obtain rfl := Option.some.inj (hv.symm.trans ht)
    refine ⟨hdraws.onScreen, ?_⟩
    rw [hdraws.lastBlinkTick]
    exact h.measured
  | clear =>
    obtain ⟨v, hv, rfl⟩ := hstep
    refine ⟨clear_onScreen hv, ?_⟩
    rw [clear_lastBlinkTick hv]
    rcases hok rfl with hticks | hticks
    · simp [hticks]
    · simp [hticks]

/-! Before the time is up nothing happens. -/

theorem quiet_run {n : Nat} (h : (b.gTicks - b.vgaBuffer.lastBlinkTick).toNat + n < 100) :
    Run (Guarded Blinker.ClearsAtZero Blinker.Step) b (List.replicate n .tick)
      ⟨b.gTicks + BitVec.ofNat 32 n, b.vgaBuffer, b.age + n⟩ := by
  induction n with
  | zero => simpa using Run.nil
  | succ n ih =>
    have hquiet : b.gTicks + BitVec.ofNat 32 n + 1 - b.vgaBuffer.lastBlinkTick <
        vgaCursorBlinkPeriod := by
      unfold vgaCursorBlinkPeriod
      bv_omega
    have hnext : b.gTicks + BitVec.ofNat 32 (n + 1) = b.gTicks + BitVec.ofNat 32 n + 1 := by
      bv_omega
    rw [List.replicate_succ', hnext]
    refine (ih (by omega)).snoc ⟨?_, ?_⟩
    · rintro ⟨⟩
    · exact (irq0Handler_quiet (b := ⟨_, b.vgaBuffer, b.age + n⟩) hquiet).symm

/-- A clear at any other time makes the cursor change too soon. -/
theorem clear_blinks_early (hstep : b.Step .clear b') (hzero : b.gTicks ≠ 0)
    (hlast : b.gTicks ≠ 0xFFFFFFFF) :
    ∃ n b'', Run Blinker.Step b' (List.replicate n .tick) b'' ∧
      b''.irq0Handler.vgaBuffer.cursorVisible ≠ b''.vgaBuffer.cursorVisible ∧ b''.age + 1 < 100 := by
  obtain ⟨v, hv, rfl⟩ := hstep
  have hstamp := clear_lastBlinkTick hv
  by_cases hsoon : b.gTicks.toNat < 100
  · have hrun := quiet_run (b := { b with vgaBuffer := v, age := 0 }) (n := 99 - b.gTicks.toNat)
      (by simp only [hstamp]; bv_omega)
    refine ⟨_, _, hrun.mono fun _ _ _ h => h.2, irq0Handler_changes_iff.mpr ?_, ?_⟩
    · simp only [hstamp]
      bv_omega
    · dsimp only
      bv_omega
  · refine ⟨0, _, .nil, irq0Handler_changes_iff.mpr ?_, ?_⟩
    · simp only [hstamp]
      bv_omega
    · dsimp only
      omega

/-- What has passed once `n` ticks have left the cursor alone from the start. -/
theorem start_quiet (v : VGABuffer) {n : Nat} (h : n < 100) :
    Run (Guarded Blinker.ClearsAtZero Blinker.Step) (.start v) (List.replicate n .tick)
      ⟨BitVec.ofNat 32 n, vgaInit v, n⟩ := by
  have hrun := quiet_run (b := .start v) (n := n) (by simpa [Blinker.start, vgaInit] using h)
  simpa [Blinker.start] using hrun

/-- In every run that clears the screen only where zero is the time, a tick that changes the cursor
comes 100 ticks or more after the last that did, and after the last clear. -/
theorem blink_period (v : VGABuffer)
    (hrun : Run (Guarded Blinker.ClearsAtZero Blinker.Step) (.start v) es b)
    (hchange : b.irq0Handler.vgaBuffer.cursorVisible ≠ b.vgaBuffer.cursorVisible) :
    100 ≤ b.age + 1 := by
  have h := hrun.invariant (I := OnTime) (start_onTime v) fun _ _ _ hI hs => hI.step hs.1 hs.2
  exact Nat.le_trans (irq0Handler_changes_iff.mp hchange) h.measured

theorem blink_period_first : 100 ≤ (⟨99, vgaInit blankBuffer, 99⟩ : Blinker).age + 1 :=
  blink_period blankBuffer (start_quiet _ (by decide)) (by decide)

/-- Cleared after 99 ticks, the screen has its cursor changed by the next. -/
theorem blink_period_not : ∃ b, Run Blinker.Step (.start blankBuffer)
      (List.replicate 99 .tick ++ [.clear]) b ∧
    b.irq0Handler.vgaBuffer.cursorVisible ≠ b.vgaBuffer.cursorVisible ∧ b.age + 1 = 1 := by
  have hrun := start_quiet blankBuffer (show 99 < 100 by decide)
  obtain ⟨v, hv, -⟩ := clear_draws (vgaInit blankBuffer)
  refine ⟨_, (hrun.mono fun _ _ _ h => h.2).snoc ⟨v, hv, rfl⟩, ?_, rfl⟩
  rw [irq0Handler_changes_iff]
  simp [clear_lastBlinkTick hv]

end Kernix.Proofs
