import Kernix.Proofs.Screen
import Kernix.Shell.ShellLoop

namespace Kernix.Proofs
open Library Screen Screen.VGABuffer Shell

variable {s t : ShellLoop} {c : Byte} {p : Page Cell}

/-- The characters typed so far, as they look on the screen. -/
def line (s : ShellLoop) : List Cell := (List.range s.length).map fun k => (s.input k, vgaColor)

@[simp] theorem length_line (s : ShellLoop) : (line s).length = s.length := by simp [line]

/-- What is on the screen before the cursor is what is in the buffer, and nothing is after it. -/
structure Edits (s : ShellLoop) (p : Page Cell) : Prop where
  displays : Displays s.screen p
  sound : p.Sound 80 25 blank
  ends : p.Ends (line s)
  length : s.length ≤ 1023

theorem line_zero (v : VGABuffer) (input : Nat → Byte) : line ⟨v, input, 0⟩ = [] := rfl

theorem line_back (hpos : 0 < s.length) (v : VGABuffer) :
    line s = line { s with screen := v, length := s.length - 1 } ++
      [(s.input (s.length - 1), vgaColor)] := by
  obtain ⟨n, hn⟩ := Nat.exists_eq_succ_of_ne_zero (Nat.ne_of_gt hpos)
  simp [line, hn, List.range_succ]

theorem line_char (s : ShellLoop) (v : VGABuffer) (c : Byte) :
    line ⟨v, Function.update s.input s.length c, s.length + 1⟩ = line s ++ [(c, vgaColor)] := by
  simp only [line, List.range_succ, List.map_append, List.map_singleton, Function.update_self]
  congr 1
  apply List.map_congr_left
  intro k hk
  rw [Function.update_of_ne (Nat.ne_of_lt (List.mem_range.mp hk))]

theorem Edits.newline (h : Edits s p) (command : Command) :
    ∃ t q, s.key 0x0A command = some t ∧ Edits t q := by
  have hstore : storeInput s.input s.length 0 = some _ := if_pos (by have := h.length; omega)
  obtain ⟨v₁, hv₁, hd₁⟩ := putchar_displays h.displays 0x0A
  have hs₁ := h.sound.press (by decide) (by decide) (Proofs.key 0x0A)
  obtain ⟨v₂, hv₂, hd₂⟩ := ops_displays hd₁ command.ops
  have hs₂ := ops_sound hs₁ command.ops
  obtain ⟨v₃, hv₃, hd₃⟩ := typed_displays hd₂ prompt
  have hs₃ := typed_sound hs₂ prompt
  have hprint : ksysPrint v₂ (some prompt) = some v₃ := by
    have hall : prompt.takeWhile (· ≠ 0) = prompt := by decide
    rw [ksysPrint, hall, ksysWrite, hv₃]
    rfl
  refine ⟨⟨v₃, command.input, 0⟩, _, ?_, hd₃, hs₃, ?_, Nat.zero_le _⟩
  · rw [ShellLoop.key, if_pos rfl, hstore, hv₁]
    simp only [Option.bind_eq_bind, Option.bind_some, hv₂, hprint]
    rfl
  · rw [line_zero]
    exact Page.ends_nil _

/-- The echo of a backspace blanks the last character of the line. -/
theorem Edits.backspace (h : Edits s p) (command : Command) :
    ∃ t q, s.key 0x08 command = some t ∧ Edits t q := by
  rw [ShellLoop.key, if_neg (by decide), if_pos rfl]
  by_cases hpos : 0 < s.length
  · obtain ⟨v₁, hv₁, hd₁⟩ := putchar_displays h.displays 0x08
    obtain ⟨v₂, hv₂, hd₂⟩ := putchar_displays hd₁ 0x20
    obtain ⟨v₃, hv₃, hd₃⟩ := putchar_displays hd₂ 0x08
    have hcursor : 0 < p.cursor := by
      have hroom := h.ends.room
      rw [length_line] at hroom
      omega
    have hecho := Page.erase_echo h.sound hcursor
    have hends := h.ends
    rw [line_back hpos v₃] at hends
    refine ⟨{ s with screen := v₃, length := s.length - 1 }, p.press 80 25 blank .back,
      ?_, ?_, ?_, ?_, ?_⟩
    · rw [if_pos hpos, hv₁]
      simp only [Option.bind_eq_bind, Option.bind_some, hv₂, hv₃]
      rfl
    · exact hecho ▸ hd₃
    · exact h.sound.press (by decide) (by decide) .back
    · exact hends.back
    · exact Nat.le_trans (Nat.sub_le _ _) h.length
  · rw [if_neg hpos]
    exact ⟨s, p, rfl, h⟩

/-- A line of 1023 characters and a row more are less than the screen. -/
theorem Edits.char (h : Edits s p) (command : Command) (hn : c ≠ 0x0A) (hb : c ≠ 0x08) :
    ∃ t q, s.key c command = some t ∧ Edits t q := by
  rw [ShellLoop.key, if_neg hn, if_neg hb]
  by_cases hprint : 32 ≤ c.toInt ∧ c.toInt ≤ 126 ∧ s.length < 1023
  · have hlength := hprint.2.2
    have hstore : storeInput s.input s.length c = some (Function.update s.input s.length c) :=
      if_pos (by omega)
    have hkey : Proofs.key c = .char (c, vgaColor) := by
      rw [Proofs.key, if_neg hb, if_neg hn]
    obtain ⟨v, hv, hd⟩ := putchar_displays h.displays c
    have hroom : (line s).length + 1 + 80 ≤ 80 * 25 := by
      rw [length_line]
      omega
    have hends : (p.press 80 25 blank (.char (c, vgaColor))).Ends (line s ++ [(c, vgaColor)]) :=
      h.ends.char hroom (c, vgaColor)
    refine ⟨⟨v, Function.update s.input s.length c, s.length + 1⟩, _, ?_, hd,
      h.sound.press (by decide) (by decide) (Proofs.key c), ?_, hlength⟩
    · rw [if_pos hprint, hstore]
      simp only [Option.bind_eq_bind, Option.bind_some, hv]
      rfl
    · rw [line_char, hkey]
      exact hends
  · rw [if_neg hprint]
    exact ⟨s, p, rfl, h⟩

theorem Edits.key (h : Edits s p) (c : Byte) (command : Command) :
    ∃ t q, s.key c command = some t ∧ Edits t q := by
  by_cases hn : c = 0x0A
  · rw [hn]
    exact h.newline command
  by_cases hb : c = 0x08
  · rw [hb]
    exact h.backspace command
  exact h.char command hn hb

theorem Edits.tick (h : Edits s p) (ticks : U32) :
    Edits { s with screen := s.screen.tick ticks } p :=
  ⟨tick_displays h.displays ticks, h.sound, h.ends, h.length⟩

theorem Edits.apply (h : Edits s p) (e : ShellEvent) : ∃ t q, s.apply e = some t ∧ Edits t q := by
  cases e with
  | key c command => exact h.key c command
  | tick ticks => exact ⟨_, p, rfl, h.tick ticks⟩

theorem Edits.run (h : Edits s p) (es : List ShellEvent) :
    ∃ t q, es.foldlM ShellLoop.apply s = some t ∧ Edits t q := by
  induction es generalizing s p with
  | nil => exact ⟨s, p, rfl, h⟩
  | cons e es ih =>
    obtain ⟨t, q, ht, hq⟩ := h.apply e
    obtain ⟨u, r, hu, hr⟩ := ih hq
    refine ⟨u, r, ?_, hr⟩
    rw [List.foldlM_cons, ht]
    exact hu

/-- The loop is entered with an empty line, wherever the output before it left the cursor. -/
theorem edits_start (v : VGABuffer) (earlier : List ScreenOp) (input : Nat → Byte) :
    ∃ t p, screenAfter v earlier = some t ∧ Edits ⟨t, input, 0⟩ p := by
  obtain ⟨t, ht, hd⟩ := screenAfter_displays v earlier
  have hs := ops_sound (Page.clear_sound (by decide) (by decide)) earlier
  exact ⟨t, _, ht, hd, hs, Page.ends_nil _, Nat.zero_le _⟩

theorem Edits.cursor (h : Edits s p) : p.cursor = position s.screen := by rw [← h.displays.page]; rfl

theorem Edits.shows_input (h : Edits s p) {k : Nat} (hk : k < s.length) :
    s.screen.buffer (2 * (position s.screen - s.length + k)) = s.input k := by
  have hon := h.displays.onScreen.position_lt
  have hroom := h.ends.room
  have hcell := h.ends.cells k (by rwa [length_line])
  rw [length_line, h.cursor] at hroom hcell
  rw [← h.displays.cell_eq (by omega)] at hcell
  have hline : (line s)[k]? = some (s.input k, vgaColor) := by simp [line, hk]
  rw [hline] at hcell
  exact (congrArg Prod.fst (Option.some.inj hcell)).symm

theorem Edits.blank_after (h : Edits s p) {i : Nat} (hi : i < 2000) (hpos : position s.screen ≤ i) :
    s.screen.buffer (2 * i) = 0x20 ∧ s.screen.buffer (2 * i + 1) = vgaColor := by
  have hcell := h.displays.cell_eq hi
  rw [h.sound.blank i (by rwa [h.cursor])] at hcell
  exact ⟨congrArg Prod.fst hcell, congrArg Prod.snd hcell⟩

/-- Between two keystrokes the cells before the cursor are the line in the buffer, and nothing
stands at the cursor or after it. -/
theorem line_is_on_screen (v : VGABuffer) (earlier : List ScreenOp) (input : Nat → Byte)
    (es : List ShellEvent) : ∃ t s, screenAfter v earlier = some t ∧
      es.foldlM ShellLoop.apply ⟨t, input, 0⟩ = some s ∧ s.length ≤ 1023 ∧
      s.length ≤ position s.screen ∧
      (∀ k < s.length, s.screen.buffer (2 * (position s.screen - s.length + k)) = s.input k) ∧
      ∀ i < 2000, position s.screen ≤ i →
        s.screen.buffer (2 * i) = 0x20 ∧ s.screen.buffer (2 * i + 1) = vgaColor := by
  obtain ⟨t, p, ht, hstart⟩ := edits_start v earlier input
  obtain ⟨s, q, hs, hedits⟩ := hstart.run es
  refine ⟨t, s, ht, hs, hedits.length, ?_, fun k hk => hedits.shows_input hk,
    fun i hi hpos => hedits.blank_after hi hpos⟩
  have hroom := hedits.ends.room
  rwa [length_line, hedits.cursor] at hroom

end Kernix.Proofs
