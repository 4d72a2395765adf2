import Mathlib.Data.List.GetD
import Kernix.Library.Bits
import Kernix.Library.Loops
import Kernix.Proofs.KeyQueue
import Kernix.Shell.Console

namespace Kernix.Proofs
open Library Screen Keyboard Shell

variable {ω : Type} {shell : ShellInput ω} {s t u v : Console ω} {w : ω} {c : Byte}
  {input : Nat → Byte} {n : Nat} {keys : List Byte}

/-! The characters of the keyboard. -/

/-- The entry of a character that is typed is in one of the tables. -/
theorem typed_mem (h : Typed c) : c ∈ keymap ∨ c ∈ keymapShift := by
  obtain ⟨k, scancode, hc⟩ := h
  have hmem : ∀ xs : List Byte, ∀ i, xs.getD i 0 ≠ 0 → xs.getD i 0 ∈ xs := by
    intro xs i hne
    by_cases hi : i < xs.length
    · rw [List.getD_eq_getElem _ _ hi]
      exact List.getElem_mem hi
    · rw [List.getD_eq_default _ _ (Nat.not_lt.mp hi)] at hne
      exact absurd rfl hne
  unfold handed at hc
  split at hc
  · cases hc
  · rename_i hno
    have hne : mapped k scancode ≠ 0 := fun h0 => hno (.inr (.inr (.inr (.inr h0))))
    obtain rfl := Option.some.inj hc
    unfold mapped at hne ⊢
    split at hne
    · rw [if_pos ‹_›]
      exact .inr (hmem _ _ hne)
    · rw [if_neg ‹_›]
      exact .inl (hmem _ _ hne)

/-- What `user_mode_main` skips or replaces is not on the keyboard. -/
theorem typed_plain (h : Typed c) : c ≠ 0xFF ∧ c ≠ 0x0D := by
  have hmem := List.mem_append.mpr (typed_mem h)
  constructor
  · intro he
    subst he
    exact absurd hmem (by decide)
  · intro he
    subst he
    exact absurd hmem (by decide)

/-! The line in the buffer. -/

theorem lineOf_ne_nil (h : input 0 ≠ 0) : lineOf input ≠ [] := by
  have hrange : List.range 1024 = 0 :: (List.range 1023).map Nat.succ := List.range_succ_eq_map
  rw [lineOf, hrange, List.map_cons, List.takeWhile_cons_of_pos (by simpa using h)]
  exact List.cons_ne_nil _ _

/-- The NUL stored behind the characters ends the line. -/
theorem lineOf_update (hn : n < 1024) (hne : ∀ i < n, input i ≠ 0) :
    lineOf (Function.update input n 0) = (List.range n).map input := by
  obtain ⟨m, hm⟩ : ∃ m, 1024 = n + (m + 1) := ⟨1023 - n, by omega⟩
  have hfront : (List.range n).map (Function.update input n 0) = (List.range n).map input := by
    apply List.map_congr_left
    intro i hi
    rw [Function.update_of_ne (Nat.ne_of_lt (List.mem_range.mp hi))]
  rw [lineOf, hm, List.range_add, List.map_append, hfront, List.takeWhile_append_of_pos]
  · rw [List.range_succ_eq_map, List.map_cons, List.map_cons, Nat.add_zero, Function.update_self,
      List.takeWhile_cons_of_neg (by simp), List.append_nil]
  · intro b hb
    obtain ⟨i, hi, rfl⟩ := List.mem_map.mp hb
    simpa using hne i (List.mem_range.mp hi)

theorem storeInput_inside (hn : n < 1024) (c : Byte) :
    storeInput input n c = some (Function.update input n c) := if_pos hn

/-! The turns of the two loops. -/

/-- The line is ended, and the newline echoed. -/
def entered (s : Console ω) : Console ω :=
  ({ s with input := Function.update s.input s.length 0 }).write (puts [0x0A])

def erased (s : Console ω) : Console ω :=
  if 0 < s.length then
    ({ s with length := s.length - 1 }).write (puts [0x08, 0x20, 0x08])
  else s

def inserted (s : Console ω) (c : Byte) : Console ω :=
  if 32 ≤ c.toInt ∧ c.toInt ≤ 126 ∧ s.length < 1023 then
    ({ s with input := Function.update s.input s.length c, length := s.length + 1 }).write
      (puts [c])
  else s

theorem kernelKey_halted (hw : s.world = none) (c : Byte) : s.kernelKey shell c = some s := by
  rw [Console.kernelKey, hw]

theorem kernelKey_enter (hw : s.world = some w) (hlen : s.length ≤ 1023) :
    s.kernelKey shell 0x0A = some (((entered s).shellHandleInput shell w).nextLine prompt) := by
  have hprompt : prompt.takeWhile (· ≠ 0) = prompt := by decide
  rw [Console.kernelKey, hw]
  dsimp only
  rw [if_pos rfl, storeInput_inside (Nat.lt_succ_of_le hlen), hprompt]
  rfl

theorem kernelKey_erase (hw : s.world = some w) : s.kernelKey shell 0x08 = some (erased s) := by
  rw [Console.kernelKey, erased]
  split
  · rename_i hnone
    simp [hnone] at hw
  · rw [if_neg (by decide), if_pos rfl]
    split
    · rfl
    · rfl

theorem kernelKey_insert (hw : s.world = some w) (hn : c ≠ 0x0A) (hb : c ≠ 0x08) :
    s.kernelKey shell c = some (inserted s c) := by
  rw [Console.kernelKey, inserted]
  split
  · rename_i hnone
    simp [hnone] at hw
  · rw [if_neg hn, if_neg hb]
    split
    · rename_i hc
      rw [storeInput_inside (Nat.lt_succ_of_lt hc.2.2)]
      rfl
    · rfl

theorem userKey_halted (hw : s.world = none) (c : Byte) : s.userKey shell c = some s := by
  rw [Console.userKey, hw]

/-- The wide copy of a `char` is not the error code, and narrows to the `char`. -/
theorem widen_char (hc : c ≠ 0xFF) :
    c.signExtend 32 ≠ 0xFFFFFFFF ∧ (c.signExtend 32).setWidth 8 = c := by
  have hnarrow : (c.signExtend 32).setWidth 8 = c := setWidth_signExtend c (by decide)
  refine ⟨?_, hnarrow⟩
  intro he
  rw [he] at hnarrow
  exact hc hnarrow.symm

theorem userKey_enter (hw : s.world = some w) (hlen : s.length ≤ 1023) :
    s.userKey shell 0x0A = some ((if (entered s).input 0 ≠ 0
      then (entered s).shellHandleInput shell w else entered s).nextLine prompt) := by
  have hprompt : prompt.take 3 = prompt := by decide
  rw [Console.userKey]
  split
  · rename_i hnone
    simp [hnone] at hw
  · rename_i w' hw'
    obtain rfl := Option.some.inj (hw'.symm.trans hw)
    dsimp only
    rw [if_neg (by decide), if_pos (by decide), storeInput_inside (Nat.lt_succ_of_le hlen), hprompt]
    rfl

theorem userKey_erase (hw : s.world = some w) : s.userKey shell 0x08 = some (erased s) := by
  rw [Console.userKey, erased]
  split
  · rename_i hnone
    simp [hnone] at hw
  · dsimp only
    rw [if_neg (by decide), if_neg (by decide), if_pos (by decide)]
    split
    · rfl
    · rfl

theorem userKey_insert (hw : s.world = some w) (hplain : c ≠ 0xFF ∧ c ≠ 0x0D) (hn : c ≠ 0x0A)
    (hb : c ≠ 0x08) : s.userKey shell c = some (inserted s c) := by
  obtain ⟨hwide, hnarrow⟩ := widen_char hplain.1
  rw [Console.userKey, inserted]
  split
  · rename_i hnone
    simp [hnone] at hw
  · dsimp only
    rw [if_neg hwide, hnarrow, if_neg hplain.2, if_neg hn, if_neg hb]
    split
    · rename_i hc
      rw [storeInput_inside (Nat.lt_succ_of_lt hc.2.2)]
      rfl
    · rfl

/-! The two loops in step. -/

/-- The loops are at the same point of the same line. -/
structure SameLine (s u : Console ω) : Prop where
  length : u.length = s.length
  limit : s.length ≤ 1023
  input : ∀ i < s.length, u.input i = s.input i
  chars : ∀ i < s.length, s.input i ≠ 0

/-- The loops have done the same, and go on with the same line. -/
structure InStep (s u : Console ω) : Prop where
  world : u.world = s.world
  passed : u.passed = s.passed
  written : u.written = s.written
  line : s.world ≠ none → SameLine s u

theorem sameLine_zero (hs : s.length = 0) (hu : u.length = 0) : SameLine s u := by
  refine ⟨hu.trans hs.symm, hs ▸ Nat.zero_le _, ?_, ?_⟩
  all_goals
    intro i hi
    rw [hs] at hi
    exact absurd hi (Nat.not_lt_zero i)

theorem inStep_start (input input' : Nat → Byte) (w : ω) :
    InStep (Console.start input w) (Console.start input' w) :=
  ⟨rfl, rfl, rfl, fun _ => sameLine_zero rfl rfl⟩

theorem InStep.erased (h : InStep s u) (hline : SameLine s u) : InStep (erased s) (erased u) := by
  unfold Proofs.erased
  rw [hline.length]
  split
  · refine ⟨h.world, h.passed, congrArg (· ++ _) h.written, fun _ => ?_⟩
    refine ⟨rfl, Nat.le_trans (Nat.sub_le _ _) hline.limit, ?_, ?_⟩
    · intro i hi
      exact hline.input i (Nat.lt_of_lt_of_le hi (Nat.sub_le _ _))
    · intro i hi
      exact hline.chars i (Nat.lt_of_lt_of_le hi (Nat.sub_le _ _))
  · exact h

theorem InStep.inserted (h : InStep s u) (hline : SameLine s u) (c : Byte) :
    InStep (inserted s c) (inserted u c) := by
  unfold Proofs.inserted
  rw [hline.length]
  split
  · rename_i hc
    obtain ⟨hlow, -, hroom⟩ := hc
    have hne : c ≠ 0 := by
      intro he
      subst he
      exact absurd hlow (by decide)
    refine ⟨h.world, h.passed, congrArg (· ++ _) h.written, fun _ => ⟨rfl, hroom, ?_, ?_⟩⟩
    · intro i hi
      change Function.update u.input s.length c i = Function.update s.input s.length c i
      cases Nat.lt_succ_iff_lt_or_eq.mp hi with
      | inl hi =>
        rw [Function.update_of_ne (Nat.ne_of_lt hi), Function.update_of_ne (Nat.ne_of_lt hi)]
        exact hline.input i hi
      | inr he =>
        subst he
        rw [Function.update_self, Function.update_self]
    · intro i hi
      change Function.update s.input s.length c i ≠ 0
      cases Nat.lt_succ_iff_lt_or_eq.mp hi with
      | inl hi =>
        rw [Function.update_of_ne (Nat.ne_of_lt hi)]
        exact hline.chars i hi
      | inr he =>
        subst he
        rwa [Function.update_self]
  · exact h

/-- The two buffers hold the same line. -/
theorem SameLine.lineOf (h : SameLine s u) :
    lineOf (entered u).input = lineOf (entered s).input := by
  have hroom : s.length < 1024 := Nat.lt_succ_of_le h.limit
  change Shell.lineOf (Function.update u.input u.length 0) =
    Shell.lineOf (Function.update s.input s.length 0)
  rw [h.length, lineOf_update hroom h.chars, lineOf_update hroom]
  · apply List.map_congr_left
    intro i hi
    exact h.input i (List.mem_range.mp hi)
  · intro i hi
    rw [h.input i hi]
    exact h.chars i hi

/-- After a command both loops write the prompt, or neither does. -/
theorem InStep.nextLine (hworld : u.world = s.world) (hpassed : u.passed = s.passed)
    (hwritten : u.written = s.written) (prompt : List Byte) :
    InStep (s.nextLine prompt) (u.nextLine prompt) := by
  unfold Console.nextLine
  rw [hworld]
  cases hw : s.world with
  | none => exact ⟨hworld, hpassed, hwritten, fun hne => absurd hw hne⟩
  | some w => exact ⟨hworld, hpassed, congrArg (· ++ _) hwritten, fun _ => sameLine_zero rfl rfl⟩

/-- A line that is not empty goes to the shell in both loops. -/
theorem InStep.entered (h : InStep s u) (hline : SameLine s u) (hpos : s.length ≠ 0)
    (shell : ShellInput ω) (w : ω) :
    InStep (((Proofs.entered s).shellHandleInput shell w).nextLine prompt)
      ((if (Proofs.entered u).input 0 ≠ 0 then (Proofs.entered u).shellHandleInput shell w
        else Proofs.entered u).nextLine prompt) := by
  have hfirst : (Proofs.entered u).input 0 ≠ 0 := by
    change Function.update u.input u.length 0 0 ≠ 0
    have hpos := Nat.pos_of_ne_zero hpos
    rw [hline.length, Function.update_of_ne (Nat.ne_of_lt hpos), hline.input 0 hpos]
    exact hline.chars 0 hpos
  rw [if_pos hfirst]
  have hsame := hline.lineOf
  apply InStep.nextLine
  · exact congrArg (fun l => (shell w l).world) hsame
  · change u.passed ++ [_] = s.passed ++ [_]
    rw [hsame, h.passed]
  · change (u.written ++ _) ++ _ = (s.written ++ _) ++ _
    rw [hsame, h.written]

theorem InStep.key (h : InStep s u) (hc : Typed c)
    (hne : c = 0x0A → s.world ≠ none → s.length ≠ 0) :
    ∃ t v, s.kernelKey shell c = some t ∧ u.userKey shell c = some v ∧ InStep t v := by
  cases hw : s.world with
  | none => exact ⟨s, u, kernelKey_halted hw c, userKey_halted (h.world.trans hw) c, h⟩
  | some w =>
    have hwu := h.world.trans hw
    have hline := h.line (by simp [hw])
    by_cases hn : c = 0x0A
    · have hpos := hne hn (by simp [hw])
      rw [hn, kernelKey_enter hw hline.limit, userKey_enter hwu (hline.length ▸ hline.limit)]
      exact ⟨_, _, rfl, rfl, h.entered hline hpos shell w⟩
    by_cases hb : c = 0x08
    · rw [hb, kernelKey_erase hw, userKey_erase hwu]
      exact ⟨_, _, rfl, rfl, h.erased hline⟩
    · rw [kernelKey_insert hw hn hb, userKey_insert hwu (typed_plain hc) hn hb]
      exact ⟨_, _, rfl, rfl, h.inserted hline c⟩

/-- The condition is one on the first key, and one on the others after it. -/
theorem noEmptyLine_cons (h : NoEmptyLine shell s (c :: keys)) :
    (c = 0x0A → s.world ≠ none → s.length ≠ 0) ∧
      ∀ t, s.kernelKey shell c = some t → NoEmptyLine shell t keys := by
  refine ⟨?_, ?_⟩
  · intro he hw
    subst he
    obtain ⟨w, hw⟩ := Option.ne_none_iff_exists'.mp hw
    exact h [] keys rfl s w rfl hw
  · intro t ht before after hkeys t' w ht' hw
    refine h (c :: before) after (by rw [hkeys]; rfl) t' w ?_ hw
    rw [List.foldlM_cons, ht]
    exact ht'

theorem InStep.run (h : InStep s u) (hkeys : ∀ c ∈ keys, Typed c) (hno : NoEmptyLine shell s keys) :
    ∃ t v, keys.foldlM (Console.kernelKey shell) s = some t ∧
      keys.foldlM (Console.userKey shell) u = some v ∧ InStep t v := by
  induction keys generalizing s u with
  | nil => exact ⟨s, u, rfl, rfl, h⟩
  | cons c keys ih =>
    obtain ⟨hfirst, hrest⟩ := noEmptyLine_cons hno
    obtain ⟨t, v, ht, hv, hstep⟩ := h.key (hkeys c (by simp)) hfirst
    obtain ⟨t', v', ht', hv', hstep'⟩ := ih hstep (fun d hd => hkeys d (by simp [hd])) (hrest t ht)
    refine ⟨t', v', ?_, ?_, hstep'⟩
    · rw [List.foldlM_cons, ht]
      exact ht'
    · rw [List.foldlM_cons, hv]
      exact hv'

/-! The two loops out of step. -/

@[simp] theorem nextLine_passed (s : Console ω) (prompt : List Byte) :
    (s.nextLine prompt).passed = s.passed := by
  unfold Console.nextLine
  split
  · rfl
  · rfl

theorem nextLine_length (s : Console ω) (prompt : List Byte) :
    (s.nextLine prompt).length ≤ s.length := by
  unfold Console.nextLine
  split
  · exact Nat.zero_le _
  · exact Nat.le_refl _

theorem erased_keeps (hlen : s.length ≤ 1023) :
    (erased s).length ≤ 1023 ∧ (erased s).passed = s.passed := by
  unfold erased
  split
  · exact ⟨Nat.le_trans (Nat.sub_le _ _) hlen, rfl⟩
  · exact ⟨hlen, rfl⟩

theorem inserted_keeps (hlen : s.length ≤ 1023) (c : Byte) :
    (inserted s c).length ≤ 1023 ∧ (inserted s c).passed = s.passed := by
  unfold inserted
  split
  · rename_i hc
    exact ⟨hc.2.2, rfl⟩
  · exact ⟨hlen, rfl⟩

/-- The kernel's loop goes on with any key, and what it has passed on stays so. -/
theorem kernelKey_keeps (shell : ShellInput ω) (hlen : s.length ≤ 1023) (c : Byte) :
    ∃ t, s.kernelKey shell c = some t ∧ t.length ≤ 1023 ∧ ∀ l ∈ s.passed, l ∈ t.passed := by
  cases hw : s.world with
  | none => exact ⟨s, kernelKey_halted hw c, hlen, fun _ hl => hl⟩
  | some w =>
    by_cases hn : c = 0x0A
    · rw [hn, kernelKey_enter hw hlen]
      refine ⟨_, rfl, Nat.le_trans (nextLine_length _ _) hlen, ?_⟩
      intro l hl
      rw [nextLine_passed]
      exact List.mem_append_left _ hl
    by_cases hb : c = 0x08
    · rw [hb, kernelKey_erase hw]
      obtain ⟨hlen, hpassed⟩ := erased_keeps hlen
      exact ⟨_, rfl, hlen, fun _ hl => hpassed ▸ hl⟩
    · rw [kernelKey_insert hw hn hb]
      obtain ⟨hlen, hpassed⟩ := inserted_keeps hlen c
      exact ⟨_, rfl, hlen, fun _ hl => hpassed ▸ hl⟩

/-- The user's loop goes on with any key typed, and passes on no empty line. -/
theorem userKey_keeps (shell : ShellInput ω) (hlen : u.length ≤ 1023) (hno : [] ∉ u.passed)
    (hc : Typed c) : ∃ v, u.userKey shell c = some v ∧ v.length ≤ 1023 ∧ [] ∉ v.passed := by
  cases hw : u.world with
  | none => exact ⟨u, userKey_halted hw c, hlen, hno⟩
  | some w =>
    by_cases hn : c = 0x0A
    · rw [hn, userKey_enter hw hlen]
      refine ⟨_, rfl, ?_, ?_⟩
      · apply Nat.le_trans (nextLine_length _ _)
        split
        · exact hlen
        · exact hlen
      · rw [nextLine_passed]
        split
        · rename_i hfirst
          intro hmem
          cases List.mem_append.mp hmem with
          | inl hmem => exact hno hmem
          | inr hmem => exact lineOf_ne_nil hfirst (List.mem_singleton.mp hmem).symm
        · exact hno
    by_cases hb : c = 0x08
    · rw [hb, userKey_erase hw]
      obtain ⟨hlen, hpassed⟩ := erased_keeps hlen
      exact ⟨_, rfl, hlen, hpassed ▸ hno⟩
    · rw [userKey_insert hw (typed_plain hc) hn hb]
      obtain ⟨hlen, hpassed⟩ := inserted_keeps hlen c
      exact ⟨_, rfl, hlen, hpassed ▸ hno⟩

theorem kernel_run (shell : ShellInput ω) (hlen : s.length ≤ 1023) (keys : List Byte) :
    ∃ t, keys.foldlM (Console.kernelKey shell) s = some t ∧ t.length ≤ 1023 ∧
      ∀ l ∈ s.passed, l ∈ t.passed := by
  apply foldlM_invariant (fun t : Console ω => t.length ≤ 1023 ∧ ∀ l ∈ s.passed, l ∈ t.passed)
  · exact ⟨hlen, fun _ hl => hl⟩
  · intro c _ t ht
    obtain ⟨u, hu, hlen, hpassed⟩ := kernelKey_keeps shell ht.1 c
    exact ⟨u, hu, hlen, fun l hl => hpassed l (ht.2 l hl)⟩

theorem user_run (shell : ShellInput ω) (hlen : u.length ≤ 1023) (hno : [] ∉ u.passed)
    (hkeys : ∀ c ∈ keys, Typed c) :
    ∃ v, keys.foldlM (Console.userKey shell) u = some v ∧ v.length ≤ 1023 ∧ [] ∉ v.passed := by
  apply foldlM_invariant (fun v : Console ω => v.length ≤ 1023 ∧ [] ∉ v.passed)
  · exact ⟨hlen, hno⟩
  · intro c hc v hv
    exact userKey_keeps shell hv.1 hv.2 (hkeys c hc)

theorem lineOf_empty (input : Nat → Byte) : lineOf (Function.update input 0 0) = [] :=
  lineOf_update (by decide) fun i hi => absurd hi (Nat.not_lt_zero i)

/-- Enter on an empty line passes it on in the kernel's loop, and nothing in the user's. -/
theorem kernelKey_empty (shell : ShellInput ω) (hw : s.world = some w) (hlen : s.length = 0) :
    ∃ t, s.kernelKey shell 0x0A = some t ∧ t.length ≤ 1023 ∧ t.passed = s.passed ++ [[]] := by
  have hlimit : s.length ≤ 1023 := hlen ▸ Nat.zero_le _
  refine ⟨_, kernelKey_enter hw hlimit, Nat.le_trans (nextLine_length _ _) hlimit, ?_⟩
  rw [nextLine_passed]
  change s.passed ++ [lineOf (Function.update s.input s.length 0)] = _
  rw [hlen, lineOf_empty]

theorem userKey_empty (shell : ShellInput ω) (hw : u.world = some w) (hlen : u.length = 0) :
    ∃ v, u.userKey shell 0x0A = some v ∧ v.passed = u.passed := by
  refine ⟨_, userKey_enter hw (hlen ▸ Nat.zero_le _), ?_⟩
  have hfirst : (entered u).input 0 = 0 := by
    change Function.update u.input u.length 0 0 = 0
    rw [hlen, Function.update_self]
  rw [nextLine_passed, if_neg (not_not.mpr hfirst)]
  rfl

/-! The screen of the kernel's loop. -/

theorem puts_apply (cs : List Byte) (v : VGABuffer) :
    (puts cs).foldlM ScreenOp.apply v = cs.foldlM VGABuffer.putchar v := by
  rw [puts, List.foldlM_map]
  rfl

/-- What the shell does to the line that Enter would end. -/
def commandOf (shell : ShellInput ω) (s : Console ω) (w : ω) : Command :=
  let r := shell w (lineOf (entered s).input)
  ⟨r.ops, r.input (entered s).input⟩

/-- Enter, where the command returns. -/
theorem enter_screen (hlen : s.length ≤ 1023) {w' : ω}
    (hreturns : ((entered s).shellHandleInput shell w).world = some w') (v : VGABuffer) :
    ∃ ops, (((entered s).shellHandleInput shell w).nextLine prompt).written = s.written ++ ops ∧
      ShellLoop.key ⟨v, s.input, s.length⟩ 0x0A (commandOf shell s w) =
        (ops.foldlM ScreenOp.apply v).map fun v => ⟨v, (commandOf shell s w).input, 0⟩ := by
  have hprompt : prompt.takeWhile (· ≠ 0) = prompt := by decide
  refine ⟨puts [0x0A] ++ (commandOf shell s w).ops ++ puts prompt, ?_, ?_⟩
  · simp only [Console.nextLine, hreturns]
    rw [List.append_assoc, ← List.append_assoc s.written, ← List.append_assoc]
    rfl
  · rw [ShellLoop.key, if_pos rfl, storeInput_inside (Nat.lt_succ_of_le hlen),
      List.foldlM_append, List.foldlM_append, puts_apply]
    simp only [ksysPrint, hprompt, ksysWrite, Option.bind_eq_bind, Option.bind_some,
      List.foldlM_cons, List.foldlM_nil, Option.map_eq_bind, Option.bind_assoc, Option.pure_def,
      puts_apply, Function.comp_def]

/-- What a turn writes, if it comes to its end, is what it does to the screen. -/
theorem kernelKey_screen (hw : s.world = some w) (hlen : s.length ≤ 1023)
    (ht : s.kernelKey shell c = some t) (hreturns : t.world ≠ none) (v : VGABuffer) :
    ∃ ops, t.written = s.written ++ ops ∧
      ShellLoop.key ⟨v, s.input, s.length⟩ c (commandOf shell s w) =
        (ops.foldlM ScreenOp.apply v).map fun v => ⟨v, t.input, t.length⟩ := by
  by_cases hn : c = 0x0A
  · subst hn
    rw [kernelKey_enter hw hlen] at ht
    obtain rfl := Option.some.inj ht
    cases hworld : ((entered s).shellHandleInput shell w).world with
    | none => exact absurd (by simp only [Console.nextLine, hworld]) hreturns
    | some w' =>
      obtain ⟨ops, hwritten, hkey⟩ := enter_screen hlen hworld v
      refine ⟨ops, hwritten, hkey.trans ?_⟩
      simp only [Console.nextLine, hworld]
      rfl
  by_cases hb : c = 0x08
  · subst hb
    rw [kernelKey_erase hw] at ht
    obtain rfl := Option.some.inj ht
    rw [ShellLoop.key, if_neg hn, if_pos rfl, erased]
    split
    · refine ⟨puts [0x08, 0x20, 0x08], rfl, ?_⟩
      rw [puts_apply]
      simp only [Option.bind_eq_bind, List.foldlM_cons, List.foldlM_nil, Option.map_eq_bind,
        Option.bind_assoc, Option.pure_def, Option.bind_some, Function.comp_def]
      rfl
    · exact ⟨[], (List.append_nil _).symm, rfl⟩
  · rw [kernelKey_insert hw hn hb] at ht
    obtain rfl := Option.some.inj ht
    rw [ShellLoop.key, if_neg hn, if_neg hb, inserted]
    split
    · rename_i hc
      refine ⟨puts [c], rfl, ?_⟩
      rw [puts_apply, storeInput_inside (Nat.lt_succ_of_lt hc.2.2)]
      simp only [Option.bind_eq_bind, Option.bind_some, List.foldlM_cons, List.foldlM_nil,
        Option.map_bind]
      rfl
    · exact ⟨[], (List.append_nil _).symm, rfl⟩

/-- For all that the keyboard can type, the two loops do the same exactly as long as no empty line
is entered. -/
theorem shell_loops_agree (shell : ShellInput ω) (w : ω) (input input' : Nat → Byte)
    (keys : List Byte) (hkeys : ∀ c ∈ keys, Typed c) :
    ∃ k u, keys.foldlM (Console.kernelKey shell) (Console.start input w) = some k ∧
      keys.foldlM (Console.userKey shell) (Console.start input' w) = some u ∧
      (k.passed = u.passed ∧ k.written = u.written ↔
        NoEmptyLine shell (Console.start input w) keys) := by
  obtain ⟨k, hk, -⟩ := kernel_run shell (s := Console.start input w) (Nat.zero_le _) keys
  obtain ⟨u, hu, -, hno⟩ := user_run shell (u := Console.start input' w) (Nat.zero_le _)
    List.not_mem_nil hkeys
  refine ⟨k, u, hk, hu, ?_, ?_⟩
  · intro hsame before after hkeys t w' ht hw hlen
    subst hkeys
    obtain ⟨t', ht', hlimit, hpassed'⟩ := kernelKey_empty shell hw hlen
    have hmem : [] ∈ t'.passed := by
      rw [hpassed']
      exact List.mem_append_right _ (List.mem_singleton_self _)
    obtain ⟨k', hk', -, hkeep⟩ := kernel_run shell hlimit after
    rw [List.foldlM_append, ht] at hk
    change (0x0A :: after).foldlM (Console.kernelKey shell) t = some k at hk
    rw [List.foldlM_cons, ht'] at hk
    obtain rfl := Option.some.inj (hk'.symm.trans hk)
    exact hno (hsame.1 ▸ hkeep [] hmem)
  · intro hempty
    obtain ⟨t, v, ht, hv, hstep⟩ := (inStep_start input input' w).run hkeys hempty
    obtain rfl := Option.some.inj (ht.symm.trans hk)
    obtain rfl := Option.some.inj (hv.symm.trans hu)
    exact ⟨hstep.passed.symm, hstep.written.symm⟩

/-- The shell's answer to a line without a space that is no command. -/
def unknownCommand : ShellInput Unit := fun w line =>
  ⟨puts ("Unknown command: ".toList.map ascii ++ line ++ [0x0A]), id, some w⟩

def emptyBuffer : Nat → Byte := fun _ => 0

/-- Enter is the first key, and the kernel's loop passes on an empty line. -/
theorem shell_loops_agree_empty_line : Typed (ascii '\n') ∧ ∃ k u,
    [ascii '\n'].foldlM (Console.kernelKey unknownCommand) (Console.start emptyBuffer ()) = some k ∧
    [ascii '\n'].foldlM (Console.userKey unknownCommand) (Console.start emptyBuffer ()) = some u ∧
    k.passed = [[]] ∧ u.passed = [] := by
  obtain ⟨k, hk, -, hpassed⟩ := kernelKey_empty unknownCommand
    (s := Console.start emptyBuffer ()) rfl rfl
  obtain ⟨u, hu, hpassed'⟩ := userKey_empty unknownCommand
    (u := Console.start emptyBuffer ()) rfl rfl
  refine ⟨⟨restKeyboard, 0x1C, by decide⟩, k, u, ?_, ?_, hpassed, hpassed'⟩
  · exact (congrArg (· >>= fun t => some t) hk).trans (Option.bind_some k some)
  · exact (congrArg (· >>= fun t => some t) hu).trans (Option.bind_some u some)

theorem shell_loops_agree_one_key :
    ∃ k u, [ascii 'a'].foldlM (Console.kernelKey unknownCommand) (Console.start emptyBuffer ()) =
        some k ∧
      [ascii 'a'].foldlM (Console.userKey unknownCommand) (Console.start emptyBuffer ()) = some u ∧
      (k.passed = u.passed ∧ k.written = u.written ↔
        NoEmptyLine unknownCommand (Console.start emptyBuffer ()) [ascii 'a']) :=
  shell_loops_agree unknownCommand () emptyBuffer emptyBuffer [ascii 'a']
    fun _ hc => List.mem_singleton.mp hc ▸ ⟨restKeyboard, 0x1E, by decide⟩

end Kernix.Proofs
