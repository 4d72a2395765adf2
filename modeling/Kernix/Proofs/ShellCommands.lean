import Kernix.Library.Scan
import Kernix.Proofs.Comparison
import Kernix.Proofs.Syscalls
import Kernix.Shell.Commands

namespace Kernix.Proofs
open Library Strings Calc Shell Interrupts Syscalls

variable {word rest : List Byte} {table : List (List Byte × Branch)} {found : Option Branch}

/-! Which branch of `shell_handle_input` a line comes to. -/

/-- A word before it puts the space farther off. -/
theorem findSpace_append (hnul : (0 : Byte) ∉ word) (hspace : (0x20 : Byte) ∉ word)
    (rest : List Byte) :
    findSpace (word ++ rest) = (findSpace rest).map (·.map (· + word.length)) := by
  induction word with
  | nil => simp
  | cons c word ih =>
    simp only [List.mem_cons, not_or] at hnul hspace
    rw [List.cons_append, findSpace, if_neg (Ne.symm hnul.1), if_neg (Ne.symm hspace.1),
      ih hnul.2 hspace.2]
    simp [Function.comp_def, Nat.add_assoc]

theorem findSpace_space (hnul : (0 : Byte) ∉ word) (hspace : (0x20 : Byte) ∉ word)
    (rest : List Byte) : findSpace (word ++ 0x20 :: rest) = some (some word.length) := by
  rw [findSpace_append hnul hspace]
  simp [findSpace]

theorem findSpace_nul (hnul : (0 : Byte) ∉ word) (hspace : (0x20 : Byte) ∉ word)
    (rest : List Byte) : findSpace (word ++ 0 :: rest) = some none := by
  rw [findSpace_append hnul hspace]
  simp [findSpace]

/-- The first test that is passed is the one for the word, as no two are for one word. -/
theorem findBranch_spec (rest : List Byte) (hword : (0 : Byte) ∉ word)
    (hnames : ∀ e ∈ table, (0 : Byte) ∉ e.1) (hnodup : (table.map Prod.fst).Nodup) :
    ∃ found, findBranch (word ++ 0 :: rest) table = some found ∧
      ∀ branch, found = some branch ↔ (word, branch) ∈ table := by
  induction table with
  | nil => exact ⟨none, rfl, by simp⟩
  | cons e table ih =>
    obtain ⟨name, first⟩ := e
    rw [List.map_cons, List.nodup_cons] at hnodup
    have hname := hnames _ List.mem_cons_self
    obtain ⟨found, hfound, hiff⟩ := ih (fun e he => hnames e (List.mem_cons_of_mem _ he)) hnodup.2
    obtain ⟨r, hr⟩ : ∃ r, strcmp (word ++ 0 :: rest) (name ++ [0]) = some r :=
      ⟨_, strcmp_eq hword hname⟩
    have hzero := strcmp_zero_iff hword hname hr
    rw [findBranch, hr, Option.bind_eq_bind, Option.bind_some]
    by_cases hsame : word = name
    · rw [if_pos (hzero.mpr hsame)]
      refine ⟨some first, rfl, ?_⟩
      intro branch
      rw [Option.some.injEq, List.mem_cons, Prod.mk.injEq]
      constructor
      · exact fun hfirst => .inl ⟨hsame, hfirst.symm⟩
      · rintro (⟨-, hfirst⟩ | htail)
        · exact hfirst.symm
        · exact absurd (List.mem_map_of_mem htail) (hsame ▸ hnodup.1)
    · rw [if_neg (mt hzero.mp hsame)]
      refine ⟨found, hfound, ?_⟩
      intro branch
      rw [hiff, List.mem_cons, Prod.mk.injEq]
      simp [hsame]

theorem tests_nul : ∀ e ∈ tests, (0 : Byte) ∉ e.1 := by decide

theorem tests_nodup : (tests.map Prod.fst).Nodup := by decide

/-- The tests are for the names of their branches. -/
theorem mem_tests_iff (word : List Byte) (branch : Branch) :
    (word, branch) ∈ tests ↔ word ∈ branch.names := by
  cases branch <;> simp [tests, Branch.names]

/-- A line is its first word, or goes on behind a space. -/
theorem firstWord_cases (line : List Byte) : line = firstWord line ∧ textBehind line = none ∨
    ∃ args, line = firstWord line ++ 0x20 :: args ∧ textBehind line = some args := by
  have hsplit := List.takeWhile_append_dropWhile (p := fun c : Byte => c ≠ 0x20) (l := line)
  have hstops := dropWhile_stops (fun c : Byte => c ≠ 0x20) line
  rw [← firstWord] at hsplit
  unfold textBehind
  cases hrest : line.dropWhile (· ≠ 0x20) with
  | nil =>
    left
    rw [hrest, List.append_nil] at hsplit
    exact ⟨hsplit.symm, rfl⟩
  | cons c args =>
    right
    rw [hrest] at hsplit hstops
    have hc : c = 0x20 := by simpa using stops_cons.mp hstops
    exact ⟨args, hc ▸ hsplit.symm, rfl⟩

theorem firstWord_nospace (line : List Byte) : (0x20 : Byte) ∉ firstWord line := by
  intro hmem
  have hne := List.mem_takeWhile_imp hmem
  simp at hne

/-- The line is all one word. -/
theorem read_word (hnul : (0 : Byte) ∉ word) (hspace : (0x20 : Byte) ∉ word)
    (hfound : findBranch (word ++ 0 :: rest) tests = some found) :
    Call.read (word ++ 0 :: rest) = some ⟨word ++ 0 :: rest, none, found⟩ := by
  rw [Call.read, findSpace_nul hnul hspace, Option.bind_eq_bind, Option.bind_some]
  dsimp only
  rw [hfound]
  rfl

/-- The space becomes the NUL behind the first word. -/
theorem read_words (hnul : (0 : Byte) ∉ word) (hspace : (0x20 : Byte) ∉ word)
    (hfound : findBranch (word ++ 0 :: rest) tests = some found) :
    Call.read (word ++ 0x20 :: rest) = some ⟨word ++ 0 :: rest, some word.length, found⟩ := by
  have hset : (word ++ 0x20 :: rest).set word.length 0 = word ++ 0 :: rest := by
    simp
  rw [Call.read, findSpace_space hnul hspace, Option.bind_eq_bind, Option.bind_some]
  dsimp only
  rw [hset, hfound]
  rfl

theorem stringAt_append (hnul : (0 : Byte) ∉ word) : stringAt (word ++ 0 :: rest) = word := by
  apply takeWhile_append_stops
  · intro c hc
    have hne : c ≠ 0 := by
      rintro rfl
      exact hnul hc
    simpa using hne
  · simp [stops_cons]

theorem drop_nul (word rest : List Byte) : (word ++ 0 :: rest).drop (word.length + 1) = rest := by
  simp

/-- A NUL stands behind the first word when the tests are made, and behind the text that the command
is given. -/
theorem read_spec (line : CString) (behind : List Byte) :
    ∃ call, Call.read (line.bytes ++ 0 :: behind) = some call ∧ call.Of line.bytes := by
  have hspace := firstWord_nospace line.bytes
  have hnul : (0 : Byte) ∉ firstWord line.bytes :=
    fun hmem => line.noNul ((List.takeWhile_subset _) hmem)
  rcases firstWord_cases line.bytes with ⟨hline, hbehind⟩ | ⟨args, hline, hbehind⟩
  · obtain ⟨found, hfound, hiff⟩ := findBranch_spec behind hnul tests_nul tests_nodup
    have hread := read_word hnul hspace hfound
    rw [← hline] at hread
    refine ⟨_, hread, ?_, ?_, ?_, fun branch => (hiff branch).trans (mem_tests_iff _ branch)⟩
    · rw [stringAt_append line.noNul, ← hline]
    · rw [hbehind]
      rfl
    · rw [hbehind]
      rfl
  · obtain ⟨found, hfound, hiff⟩ := findBranch_spec (args ++ 0 :: behind) hnul tests_nul tests_nodup
    have hread := read_words hnul hspace hfound
    rw [← List.cons_append, ← List.append_assoc, ← hline] at hread
    have hargs : (0 : Byte) ∉ args := by
      intro hmem
      apply line.noNul
      rw [hline]
      exact List.mem_append_right _ (List.mem_cons_of_mem _ hmem)
    refine ⟨_, hread, ?_, ?_, ?_, fun branch => (hiff branch).trans (mem_tests_iff _ branch)⟩
    · exact stringAt_append hnul
    · rw [hbehind, Call.args, Option.map_some, drop_nul, stringAt_append hargs]
    · rw [hbehind]
      rfl

/-- A call's branch is settled by the names. -/
theorem call_branch_eq {call call' : Call} {line : List Byte} (h : call.Of line)
    (h' : call'.Of line) : call.branch = call'.branch := by
  apply Option.ext
  intro branch
  exact (h.branch branch).trans (h'.branch branch).symm

theorem call_reply_eq {call call' : Call} {line : List Byte} (h : call.Of line)
    (h' : call'.Of line) (k : Kernel) : call.reply k = call'.reply k := by
  have hrun : call.run k = call'.run k := by
    unfold Call.run
    rw [call_branch_eq h h', h.args, h'.args, h.word, h'.word]
  have hstore : call.store = call'.store := by
    unfold Call.store
    rw [h.space, h'.space]
  rw [Call.reply, Call.reply, hrun, hstore]

/-- The two commands that make a system call report what its `int $0x90` leaves in `eax`, wherever it
is made from, and the kernel is left as it was. -/
theorem run_systemCalls {σ : Type} (kernel : KernelCall → σ → U32 × σ) (stub ret : U32) (c : Cpu)
    (s : σ) (k : Kernel) (call : Call) :
    (call.branch = some .systicks → Wrapper.sysGetTicks.Loads c.regs →
      call.run k = (systicksReport (int90 kernel stub ret c s).1.regs.eax, true) ∧
        (int90 kernel stub ret c s).2 = s) ∧
    ∀ buffer size, call.branch = some .syswrite → (Wrapper.sysWrite buffer size).Loads c.regs →
      call.run k = (syswriteReport call.args (int90 kernel stub ret c s).1.regs.eax, true) ∧
        (int90 kernel stub ret c s).2 = s := by
  constructor
  · intro hbranch hloads
    obtain ⟨heax, hsame⟩ := int90_loads hloads kernel stub ret s
    rw [Call.run, hbranch, heax]
    exact ⟨rfl, hsame⟩
  · intro buffer size hbranch hloads
    obtain ⟨heax, hsame⟩ := int90_loads hloads kernel stub ret s
    rw [Call.run, hbranch, heax]
    exact ⟨rfl, hsame⟩

/-- The shell does what the line asks for, whatever is left behind its NUL of longer lines. -/
theorem shellHandleInput_eq (k : Kernel) (line : CString) (behind : List Byte) :
    shellHandleInput k (line.bytes ++ 0 :: behind) = some (kernelShell k line.bytes) := by
  obtain ⟨call, hread, hof⟩ := read_spec line behind
  obtain ⟨call', hread', hof'⟩ := read_spec line []
  rw [kernelShell, shellHandleInput, shellHandleInput, hread, hread']
  exact congrArg some (call_reply_eq hof hof' k)

/-- `strcmp` gives the lexicographic order of the bytes without a sign and reads nothing behind the
first NULs, and `shell_handle_input` comes to a branch just if the text before the first space of
the line is one of its names. -/
theorem strcmp_lexicographic :
    (∀ a b : CString, ∃ r r' : U32,
      (∀ behind behind', strcmp (a.bytes ++ 0 :: behind) (b.bytes ++ 0 :: behind') = some r ∧
        strcmp (b.bytes ++ 0 :: behind') (a.bytes ++ 0 :: behind) = some r') ∧
      (r = 0 ↔ a.bytes = b.bytes) ∧ (r.toInt < 0 ↔ List.Lex ByteLt a.bytes b.bytes) ∧
      r.toInt.sign = -r'.toInt.sign) ∧
    ∀ (k : Kernel) (line : CString) (behind : List Byte), ∃ call,
      Call.read (line.bytes ++ 0 :: behind) = some call ∧
      shellHandleInput k (line.bytes ++ 0 :: behind) = some (call.reply k) ∧
      ∀ branch : Branch, call.branch = some branch ↔ firstWord line.bytes ∈ branch.names := by
  constructor
  · intro a b
    obtain ⟨r, hr⟩ := strcmp_some a b
    obtain ⟨r', hr'⟩ := strcmp_some b a
    refine ⟨r, r', fun behind behind' => ⟨hr behind behind', hr' behind' behind⟩,
      strcmp_zero_iff a.noNul b.noNul (hr [] []), strcmp_neg_iff a.noNul b.noNul (hr [] []), ?_⟩
    rw [strcmp_toInt a.noNul b.noNul (hr [] []), strcmp_toInt b.noNul a.noNul (hr' [] []),
      firstDifference_swap, ← Int.sign_neg]
    simp
  · intro k line behind
    obtain ⟨call, hread, hof⟩ := read_spec line behind
    refine ⟨call, hread, ?_, hof.branch⟩
    rw [shellHandleInput, hread]
    rfl

end Kernix.Proofs
