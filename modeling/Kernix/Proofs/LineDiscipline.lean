import Kernix.Library.Text
import Kernix.Proofs.ShellLoops
import Kernix.Shell.Terminal

namespace Kernix.Proofs
open Library Screen Keyboard Shell

variable {ω : Type} {shell : ShellInput ω} {passes : List Byte → Bool} {s : Console ω}
  {t : Terminal ω} {w : ω} {c : Byte} {line : List Byte} {keys : List Byte} {plain : Byte → Prop}
  {turn : Console ω → Byte → Option (Console ω)}

/-- What the turns of the two loops have in common. -/
structure LoopTurns (shell : ShellInput ω) (passes : List Byte → Bool) (plain : Byte → Prop)
    (turn : Console ω → Byte → Option (Console ω)) : Prop where
  halted : ∀ s c, s.world = none → turn s c = some s
  enter : ∀ s w, s.world = some w → s.length ≤ lineLimit →
    turn s 0x0A = some ((if passes (lineOf (entered s).input) then
      (entered s).shellHandleInput shell w else entered s).nextLine prompt)
  erase : ∀ s w, s.world = some w → turn s 0x08 = some (erased s)
  insert : ∀ s w c, s.world = some w → plain c → c ≠ 0x0A → c ≠ 0x08 → turn s c = some (inserted s c)

theorem kernelKey_turns (shell : ShellInput ω) :
    LoopTurns shell anyLine (fun _ => True) (Console.kernelKey shell) where
  halted _ c hw := kernelKey_halted hw c
  enter _ _ hw hlen := kernelKey_enter hw hlen
  erase _ _ hw := kernelKey_erase hw
  insert _ _ _ hw _ hn hb := kernelKey_insert hw hn hb

theorem nonEmpty_lineOf (input : Nat → Byte) : nonEmpty (lineOf input) = true ↔ input 0 ≠ 0 := by
  constructor
  · intro hne h0
    have hnil : lineOf input = [] := by
      rw [lineOf, show (1024 : Nat) = 1023 + 1 from rfl, List.range_succ_eq_map, List.map_cons,
        List.takeWhile_cons_of_neg (by simpa using h0)]
    simp [nonEmpty, hnil] at hne
  · intro h0
    simpa [nonEmpty] using lineOf_ne_nil h0

theorem userKey_turns (shell : ShellInput ω) :
    LoopTurns shell nonEmpty Typed (Console.userKey shell) where
  halted _ c hw := userKey_halted hw c
  enter s _ hw hlen := by
    rw [userKey_enter hw hlen]
    by_cases h0 : (entered s).input 0 = 0
    · rw [if_neg (not_not.mpr h0), if_neg (mt (nonEmpty_lineOf _).mp (not_not.mpr h0))]
    · rw [if_pos h0, if_pos ((nonEmpty_lineOf _).mpr h0)]
  erase _ _ hw := userKey_erase hw
  insert _ _ _ hw hc hn hb := userKey_insert hw (typed_plain hc) hn hb

/-- The loop is at the end of `line`. -/
structure Holding (s : Console ω) (line : List Byte) : Prop where
  line : (List.range s.length).map s.input = line
  limit : s.length ≤ lineLimit
  chars : ∀ i < s.length, s.input i ≠ 0

theorem Holding.length (h : Holding s line) : line.length = s.length := by
  simp [← h.line]

theorem holding_nil (h : s.length = 0) : Holding s [] where
  line := by simp [h]
  limit := by simp [h]
  chars i hi := absurd (h ▸ hi) (Nat.not_lt_zero i)

/-- What the shell is given is the line. -/
theorem Holding.lineOf (h : Holding s line) : lineOf (entered s).input = line := by
  rw [← h.line]
  exact lineOf_update (Nat.lt_succ_of_le h.limit) h.chars

theorem Holding.erased (h : Holding s line) : Holding (erased s) line.dropLast := by
  have hlen := h.length
  unfold Proofs.erased
  split
  · rename_i hpos
    refine ⟨?_, Nat.le_trans (Nat.sub_le _ _) h.limit, ?_⟩
    · rw [← h.line, ← List.map_dropLast]
      congr 1
      obtain ⟨n, hn⟩ := Nat.exists_eq_succ_of_ne_zero (Nat.ne_of_gt hpos)
      change List.range (s.length - 1) = _
      rw [hn, List.range_succ, List.dropLast_concat, Nat.succ_sub_one]
    · intro i hi
      exact h.chars i (Nat.lt_of_lt_of_le hi (Nat.sub_le _ _))
  · rename_i hzero
    have hnil : line = [] := List.eq_nil_of_length_eq_zero (by omega)
    rw [hnil]
    exact holding_nil (by omega)

theorem Holding.inserted (h : Holding s line) (hlow : 32 ≤ c.toInt) (hhigh : c.toInt ≤ 126)
    (hroom : s.length < lineLimit) : Holding (inserted s c) (line ++ [c]) := by
  have hne : c ≠ 0 := by
    intro he
    subst he
    exact absurd hlow (by decide)
  rw [Proofs.inserted, if_pos ⟨hlow, hhigh, hroom⟩]
  refine ⟨?_, hroom, ?_⟩
  · change (List.range (s.length + 1)).map (Function.update s.input s.length c) = _
    have hbefore : (List.range s.length).map (Function.update s.input s.length c) = line := by
      rw [← h.line]
      apply List.map_congr_left
      intro i hi
      exact Function.update_of_ne (Nat.ne_of_lt (List.mem_range.mp hi)) _ _
    rw [List.range_succ, List.map_append, hbefore]
    simp
  · intro i hi
    change Function.update s.input s.length c i ≠ 0
    cases Nat.lt_succ_iff_lt_or_eq.mp hi with
    | inl hi =>
      rw [Function.update_of_ne (Nat.ne_of_lt hi)]
      exact h.chars i hi
    | inr he =>
      subst he
      rwa [Function.update_self]

/-! The loops and the terminal, key by key. -/

/-- The loop does what the terminal does. -/
structure Shows (s : Console ω) (t : Terminal ω) : Prop where
  world : s.world = t.world
  passed : s.passed = t.passed
  written : s.written = t.written
  line : s.world ≠ none → Holding s t.editor.line

theorem shows_start (input : Nat → Byte) (w : ω) : Shows (Console.start input w) (Terminal.start w) where
  world := rfl
  passed := rfl
  written := rfl
  line _ := holding_nil rfl

theorem strokeOf_enter : strokeOf 0x0A = .enter := rfl

theorem strokeOf_erase : strokeOf 0x08 = .erase := rfl

theorem strokeOf_insert (hn : c ≠ 0x0A) (hb : c ≠ 0x08) :
    strokeOf c = if 32 ≤ c.toInt ∧ c.toInt ≤ 126 then .char c else .other := by
  rw [strokeOf, if_neg hn, if_neg hb]

theorem Shows.erased (h : Shows s t) (hw : s.world = some w) :
    Shows (erased s) (t.stroke shell passes .erase) := by
  have hline := h.line (by simp [hw])
  have hlen := hline.length
  have hworld : t.world = some w := h.world.symm.trans hw
  have hhold := hline.erased
  unfold Proofs.erased at hhold ⊢
  simp only [Terminal.stroke, hworld, Terminal.echo]
  by_cases hpos : 0 < s.length
  · have hne : t.editor.line ≠ [] := List.ne_nil_of_length_pos (by omega)
    rw [if_pos hpos] at hhold ⊢
    rw [if_neg hne]
    exact ⟨hw, h.passed, congrArg (· ++ _) h.written, fun _ => hhold⟩
  · have hnil : t.editor.line = [] := List.eq_nil_of_length_eq_zero (by omega)
    rw [if_neg hpos] at hhold ⊢
    rw [if_pos hnil, List.append_nil]
    exact ⟨hw, h.passed, h.written, fun _ => hhold⟩

theorem Shows.inserted (h : Shows s t) (hw : s.world = some w) (hn : c ≠ 0x0A) (hb : c ≠ 0x08) :
    Shows (inserted s c) (t.stroke shell passes (strokeOf c)) := by
  have hline := h.line (by simp [hw])
  have hlen := hline.length
  have hworld : t.world = some w := h.world.symm.trans hw
  rw [strokeOf_insert hn hb]
  by_cases hprint : 32 ≤ c.toInt ∧ c.toInt ≤ 126
  · rw [if_pos hprint]
    simp only [Terminal.stroke, hworld, Terminal.echo, LineEditor.stroke]
    rw [hlen]
    by_cases hroom : s.length < lineLimit
    · have hhold := hline.inserted hprint.1 hprint.2 hroom
      rw [Proofs.inserted, if_pos ⟨hprint.1, hprint.2, hroom⟩] at hhold ⊢
      rw [if_pos hroom, if_pos hroom]
      exact ⟨hw, h.passed, congrArg (· ++ _) h.written, fun _ => hhold⟩
    · rw [Proofs.inserted, if_neg (fun hc => hroom hc.2.2), if_neg hroom, if_neg hroom,
        List.append_nil]
      exact ⟨hw, h.passed, h.written, fun _ => hline⟩
  · rw [if_neg hprint, Proofs.inserted, if_neg (fun hc => hprint ⟨hc.1, hc.2.1⟩)]
    simp only [Terminal.stroke, hworld, Terminal.echo, List.append_nil]
    exact ⟨hw, h.passed, h.written, fun _ => hline⟩

/-- The state in which a loop reads the first key of the next line. -/
theorem Shows.entered (h : Shows s t) (hw : s.world = some w) :
    Shows ((if passes (lineOf (Proofs.entered s).input) then
      (Proofs.entered s).shellHandleInput shell w else Proofs.entered s).nextLine prompt)
      (t.stroke shell passes .enter) := by
  have hline := (h.line (by simp [hw])).lineOf
  have hworld : t.world = some w := h.world.symm.trans hw
  have hentered : (Proofs.entered s).world = some w := hw
  rw [hline, Terminal.stroke, hworld]
  dsimp only
  rw [Terminal.answer]
  by_cases hp : passes t.editor.line = true
  · rw [if_pos hp, if_pos hp, if_pos hp, Console.nextLine]
    simp only [Console.shellHandleInput, hline]
    cases hreply : (shell w t.editor.line).world with
    | none =>
      refine ⟨rfl, congrArg (· ++ _) h.passed, ?_, fun hne => absurd rfl hne⟩
      simp [Proofs.entered, Console.write, h.written, Terminal.echo]
    | some w' =>
      refine ⟨rfl, congrArg (· ++ _) h.passed, ?_, fun _ => holding_nil rfl⟩
      simp [Proofs.entered, Console.write, h.written, Terminal.echo]
  · rw [if_neg hp, if_neg hp, if_neg hp, Console.nextLine]
    simp only [hentered]
    refine ⟨hw, h.passed, ?_, fun _ => holding_nil rfl⟩
    simp [Proofs.entered, Console.write, h.written, Terminal.echo]

theorem Shows.key (ht : LoopTurns shell passes plain turn) (h : Shows s t) (hc : plain c) :
    ∃ u, turn s c = some u ∧ Shows u (t.stroke shell passes (strokeOf c)) := by
  cases hw : s.world with
  | none =>
    refine ⟨s, ht.halted s c hw, ?_⟩
    have hworld : t.world = none := h.world.symm.trans hw
    simp only [Terminal.stroke, hworld]
    exact h
  | some w =>
    by_cases hn : c = 0x0A
    · rw [hn, strokeOf_enter]
      exact ⟨_, ht.enter s w hw (h.line (by simp [hw])).limit, h.entered hw⟩
    by_cases hb : c = 0x08
    · rw [hb, strokeOf_erase]
      exact ⟨_, ht.erase s w hw, h.erased hw⟩
    · exact ⟨_, ht.insert s w c hw hc hn hb, h.inserted hw hn hb⟩

/-- The terminal `t` after the keys. -/
def keyed (shell : ShellInput ω) (passes : List Byte → Bool) (t : Terminal ω) (keys : List Byte) :
    Terminal ω :=
  keys.foldl (fun (t : Terminal ω) c => t.stroke shell passes (strokeOf c)) t

def terminal (shell : ShellInput ω) (passes : List Byte → Bool) (w : ω) (keys : List Byte) :
    Terminal ω :=
  keyed shell passes (Terminal.start w) keys

theorem LoopTurns.run (ht : LoopTurns shell passes plain turn) (input : Nat → Byte) (w : ω)
    (hkeys : ∀ c ∈ keys, plain c) : ∃ s, keys.foldlM turn (Console.start input w) = some s ∧
      Shows s (terminal shell passes w keys) :=
  foldlM_refines Shows keys (shows_start input w) fun _ hc _ _ h => h.key ht (hkeys _ hc)

/-! The terminal and the editor. -/

@[simp] theorem converse_none (shell : ShellInput ω) (lines : List (List Byte)) :
    converse shell none lines = ([], none) := by
  cases lines <;> rfl

theorem converse_append (w : Option ω) (xs ys : List (List Byte)) :
    converse shell w (xs ++ ys) =
      ((converse shell w xs).1 ++ (converse shell (converse shell w xs).2 ys).1,
        (converse shell (converse shell w xs).2 ys).2) := by
  induction xs generalizing w with
  | nil => simp [converse]
  | cons line xs ih =>
    cases w with
    | none => simp
    | some w => simp [converse, ih]

/-- The terminal has passed on the lines of the editor, as far as the commands returned. -/
structure Conversed (shell : ShellInput ω) (passes : List Byte → Bool) (w : ω) (t : Terminal ω)
    (e : LineEditor Byte) : Prop where
  lines : (t.passed, t.world) = converse shell (some w) (e.lines.filter passes)
  editor : t.world ≠ none → t.editor = e

theorem Conversed.stroke {t : Terminal ω} {e : LineEditor Byte} (h : Conversed shell passes w t e)
    (k : Stroke Byte) : Conversed shell passes w (t.stroke shell passes k) (e.stroke lineLimit k) := by
  have hpassed := congrArg Prod.fst h.lines
  have hworld := congrArg Prod.snd h.lines
  cases hw : t.world with
  | none =>
    have hsame : t.stroke shell passes k = t := by simp [Terminal.stroke, hw]
    rw [hsame]
    refine ⟨?_, fun hne => absurd hw hne⟩
    cases k with
    | enter =>
      rw [LineEditor.stroke, List.filter_append, converse_append, ← hworld, hw, ← hpassed]
      simp
    | char c =>
      rw [h.lines, LineEditor.stroke]
      split
      · rfl
      · rfl
    | erase => exact h.lines
    | other => exact h.lines
  | some w' =>
    have he : t.editor = e := h.editor (by simp [hw])
    cases k with
    | enter =>
      simp only [Terminal.stroke, hw, Terminal.answer, he, LineEditor.stroke]
      refine ⟨?_, fun _ => rfl⟩
      rw [List.filter_append, converse_append, ← hworld, ← hpassed, hw]
      cases hp : passes e.line with
      | true => simp [hp, converse]
      | false => simp [hp, converse]
    | char c =>
      simp only [Terminal.stroke, hw, he]
      refine ⟨?_, fun _ => rfl⟩
      rw [LineEditor.stroke]
      split
      · exact hw ▸ h.lines
      · exact hw ▸ h.lines
    | erase =>
      simp only [Terminal.stroke, hw, he]
      exact ⟨hw ▸ h.lines, fun _ => rfl⟩
    | other =>
      simp only [Terminal.stroke, hw, he]
      exact ⟨hw ▸ h.lines, fun _ => rfl⟩

theorem terminal_conversed (shell : ShellInput ω) (passes : List Byte → Bool) (w : ω)
    (keys : List Byte) : Conversed shell passes w (terminal shell passes w keys) (edited keys) := by
  unfold terminal keyed edited
  have hstart : Conversed shell passes w (Terminal.start w) LineEditor.empty := ⟨rfl, fun _ => rfl⟩
  generalize Terminal.start w = t at hstart
  generalize LineEditor.empty = e at hstart
  induction keys generalizing t e with
  | nil => exact hstart
  | cons c keys ih => exact ih _ _ (hstart.stroke (strokeOf c))

/-- What a loop has done once it has seen some characters: it has passed on the lines edited, as far as
the commands return, and the line in the buffer is the one being edited. -/
structure Answered (shell : ShellInput ω) (passes : List Byte → Bool) (w : ω) (keys : List Byte)
    (s : Console ω) : Prop where
  passed : (s.passed, s.world) = converse shell (some w) ((edited keys).lines.filter passes)
  written : s.written = (terminal shell passes w keys).written
  line : s.world ≠ none → (List.range s.length).map s.input = (edited keys).line

theorem LoopTurns.answered (ht : LoopTurns shell passes plain turn) (input : Nat → Byte) (w : ω)
    (keys : List Byte) (hkeys : ∀ c ∈ keys, plain c) :
    ∃ s, keys.foldlM turn (Console.start input w) = some s ∧ Answered shell passes w keys s := by
  obtain ⟨s, hrun, hshows⟩ := ht.run input w hkeys
  have hconv := terminal_conversed shell passes w keys
  refine ⟨s, hrun, ?_, hshows.written, ?_⟩
  · rw [hshows.passed, hshows.world]
    exact hconv.lines
  · intro hne
    rw [(hshows.line hne).line, hconv.editor (hshows.world ▸ hne)]

/-- The kernel's loop is a line editor in front of the shell, whatever the characters. -/
theorem kernel_loop_edits (shell : ShellInput ω) (input : Nat → Byte) (w : ω) (keys : List Byte) :
    ∃ s, keys.foldlM (Console.kernelKey shell) (Console.start input w) = some s ∧
      Answered shell anyLine w keys s :=
  (kernelKey_turns shell).answered input w keys fun _ _ => trivial

/-- So is the user's loop, for the lines that are not empty. -/
theorem user_loop_edits (shell : ShellInput ω) (input : Nat → Byte) (w : ω)
    (hkeys : ∀ c ∈ keys, Typed c) :
    ∃ s, keys.foldlM (Console.userKey shell) (Console.start input w) = some s ∧
      Answered shell nonEmpty w keys s :=
  (userKey_turns shell).answered input w keys hkeys

/-! A line with a slip in it, and an empty one. -/

/-- A shell that says what it is told. -/
def echoShell : ShellInput Unit := fun _ line => ⟨puts line, id, some ()⟩

def slipKeys : List Byte := text "Hx" ++ [0x08] ++ text "i!\n\n"

theorem slip_typed : ∀ c ∈ slipKeys, Typed c := by
  have hkeys : ∀ c ∈ slipKeys, ∃ shift ∈ [false, true], ∃ n < 128,
      handed { restKeyboard with shiftPressed := shift } (BitVec.ofNat 8 n) = some c := by
    decide +kernel
  intro c hc
  obtain ⟨shift, -, n, -, hhanded⟩ := hkeys c hc
  exact ⟨_, _, hhanded⟩

theorem user_loop_edits_slip :
    ∃ s, slipKeys.foldlM (Console.userKey echoShell) (Console.start (fun _ => 0) ()) = some s ∧
      (s.passed, s.world) = ([text "Hi!"], some ()) ∧
      s.written = puts (text "Hx" ++ [0x08, 0x20, 0x08] ++ text "i!\nHi!\n> \n\n> ") := by
  obtain ⟨s, hrun, hanswered⟩ := user_loop_edits echoShell (fun _ => 0) () slip_typed
  exact ⟨s, hrun, hanswered.passed, hanswered.written⟩

end Kernix.Proofs
