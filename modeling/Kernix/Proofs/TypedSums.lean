import Kernix.Proofs.CalculatorRequests
import Kernix.Proofs.ShellCommands
import Kernix.Proofs.TypedLines

namespace Kernix.Proofs
open Library Screen Keyboard Calc Shell

variable {k : Kernel} {e : Expression} {es : List Expression} {ws : List Byte}

/-! From the keys of `calc`, an expression and Enter to its answer on the screen. -/

/-- The line that asks for an expression. -/
def calcLine (e : Expression) : List Byte := text "calc " ++ e.text

theorem blank_noNul (h : Blank ws) : (0 : Byte) ∉ ws := by
  intro hmem
  exact absurd (h 0 hmem) (by decide)

theorem numeral_noNul (n : Numeral) : (0 : Byte) ∉ n.text := by
  unfold Numeral.text
  rw [List.mem_append, not_or]
  constructor
  · cases n.sign with
    | none => decide
    | plus => decide
    | minus => decide
  · intro hmem
    exact absurd (n.allDigits 0 hmem) (by decide)

theorem expression_noNul (e : Expression) : (0 : Byte) ∉ e.text := by
  obtain ⟨hbefore, hbeforeOp, hafterOp, hafter⟩ := e.blanks
  have hop := (Expression.op_plain e).2.2
  unfold Expression.text Expression.rest
  simp only [List.mem_append, List.mem_cons, not_or]
  exact ⟨blank_noNul hbefore, numeral_noNul _, blank_noNul hbeforeOp, hop.symm, blank_noNul hafterOp,
    numeral_noNul _, blank_noNul hafter⟩

theorem firstWord_calc (e : Expression) : firstWord (calcLine e) = text "calc" := by
  rw [firstWord, calcLine, show text "calc " = text "calc" ++ [0x20] from rfl, List.append_assoc]
  exact takeWhile_append_stops (by decide) (stops_cons.mpr (by decide))

theorem textBehind_calc (e : Expression) : textBehind (calcLine e) = some e.text := by
  have hdrop : (calcLine e).dropWhile (· ≠ 0x20) = 0x20 :: e.text := by
    rw [calcLine, show text "calc " = text "calc" ++ [0x20] from rfl, List.append_assoc]
    exact dropWhile_append_stops (by decide) (stops_cons.mpr (by decide))
  rw [textBehind, hdrop]

/-- The shell answers the line, and goes on. -/
theorem kernelShell_calc (k : Kernel) (h : e.InRange) :
    (kernelShell k (calcLine e)).ops = puts e.answer ∧
      (kernelShell k (calcLine e)).world = some k := by
  have hnul : (0 : Byte) ∉ calcLine e := by
    rw [calcLine, List.mem_append, not_or]
    exact ⟨by decide, expression_noNul e⟩
  obtain ⟨call, hread, hof⟩ := read_spec ⟨calcLine e, hnul⟩ []
  have hbranch : call.branch = some .calc := by
    rw [hof.branch, firstWord_calc]
    decide
  have hargs : call.args = some e.text := by rw [hof.args, textBehind_calc]
  have hrun : call.run k = (puts e.answer, true) := by
    rw [Call.run, hbranch, hargs]
    dsimp only
    rw [calcInit_inRange h]
  have hshell : kernelShell k (calcLine e) = call.reply k := by
    rw [kernelShell, shellHandleInput, hread]
    rfl
  rw [hshell, Call.reply, hrun]
  exact ⟨rfl, rfl⟩

theorem sums_conversed (k : Kernel) (h : ∀ e ∈ es, e.InRange) :
    converse kernelShell (some k) (es.map calcLine) = (es.map calcLine, some k) ∧
      dialogue kernelShell (some k) (es.map calcLine) =
        es.flatMap fun e => puts (calcLine e ++ text "\n" ++ e.answer ++ prompt) := by
  induction es with
  | nil => exact ⟨rfl, rfl⟩
  | cons e es ih =>
    obtain ⟨hops, hworld⟩ := kernelShell_calc k (h e List.mem_cons_self)
    obtain ⟨hlines, hwritten⟩ := ih fun d hd => h d (List.mem_cons_of_mem _ hd)
    constructor
    · simp [converse, hworld, hlines]
    · rw [List.map_cons, dialogue, List.flatMap_cons]
      simp [hops, hworld, hwritten, puts, text]

/-- Whoever types `calc` and an expression in range, any number of times and with any interleaving of
the keyboard's interrupts that leaves the buffer room, gets each time the exact result, or is told
that it is a division by zero; the shell waits for the next line. -/
theorem sums_typed_are_answered {m : Machine Kernel} {kb : KeyboardState} {input : Nat → Byte}
    {events : List KeyEvent} {ls : List TypedLine}
    (hrun : Run (RoomStep kernelShell) (Machine.start kb input k) events m)
    (hcodes : scancodes events = ls.flatMap TypedLine.codes)
    (hlines : ls.map TypedLine.line = es.map calcLine) (hrange : ∀ e ∈ es, e.InRange)
    (hwaits : keyboardAvailable m.session.keyboard = false) :
    m.console.world = some k ∧
      m.console.written =
        es.flatMap fun e => puts (calcLine e ++ text "\n" ++ e.answer ++ prompt) := by
  obtain ⟨hpassed, hwritten⟩ := lines_served hrun hcodes fun _ => hwaits
  obtain ⟨hconv, hdialogue⟩ := sums_conversed k hrange
  rw [hlines, hconv] at hpassed
  rw [hlines, hdialogue] at hwritten
  exact ⟨congrArg Prod.snd hpassed, hwritten⟩

/-! One sum. -/

theorem sum_keys : ∀ c ∈ text "calc 2--3", (c ≠ 0 ∧ (c ∈ keymap ∨ c ∈ keymapShift)) ∧
    32 ≤ c.toInt ∧ c.toInt ≤ 126 := by
  decide

def sumLine : TypedLine := plainLine (text "calc 2--3") sum_keys (by decide)

theorem sum_blanks : Blank [] ∧ Blank [] ∧ Blank [] ∧ Blank [] := ⟨nofun, nofun, nofun, nofun⟩

theorem minus_isOp : (0x2D : Byte) = 0x2B ∨ (0x2D : Byte) = 0x2D ∨ (0x2D : Byte) = 0x2A ∨
    (0x2D : Byte) = 0x2F := .inr (.inl rfl)

def sum : Expression where
  before := []
  left := two
  beforeOp := []
  op := 0x2D
  afterOp := []
  right := minusThree
  after := []
  blanks := sum_blanks
  isOp := minus_isOp

def idleKernel : Kernel := ⟨0, 0, 0, 0⟩

theorem sums_typed_are_answered_one : ∃ m : Machine Kernel,
    m.console.world = some idleKernel ∧
      m.console.written = puts (text "calc 2--3\nResult: 5\n\n> ") := by
  have hshort : (typing (keyboardInit restKeyboard) ([sumLine].flatMap TypedLine.codes)).length ≤ 255 := by
    rw [typed_codes]
    decide
  obtain ⟨es, m, hrun, hcodes, hdone⟩ :=
    served_run kernelShell restKeyboard (fun _ => 0) idleKernel _ hshort
  have hrange : ∀ e ∈ [sum], e.InRange := by
    intro e he
    rw [List.mem_singleton.mp he]
    exact ⟨by decide, by decide, by decide⟩
  have hlines : [sumLine].map TypedLine.line = [sum].map calcLine := by decide
  have hworld := congrArg Prod.snd (lines_served hrun hcodes hdone).1
  rw [hlines, (sums_conversed idleKernel hrange).1] at hworld
  have hwaits := hdone fun hnone => Option.some_ne_none _ (hworld.symm.trans hnone)
  obtain ⟨hend, hwritten⟩ := sums_typed_are_answered hrun hcodes hlines hrange hwaits
  have hanswer : calcLine sum ++ text "\n" ++ sum.answer ++ prompt =
      text "calc 2--3\nResult: 5\n\n> " := by decide
  refine ⟨m, hend, hwritten.trans ?_⟩
  rw [List.flatMap_singleton, hanswer]

end Kernix.Proofs
