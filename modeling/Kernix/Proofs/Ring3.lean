import Kernix.Proofs.Rings

namespace Kernix.Proofs
open Library Gdt Interrupts Processor Boot

variable {L : Tables} {m m' : Mem} {a x top top' : U32} {p q r : Processor} {s : Selector}
  {st : Stubs} {d : Descriptor} {v : Byte} {error : Option U32} {ws : List U32}

/-! Loads that go through. -/

theorem fetch_of (h : Installed L st top p) (ok : Descriptor → Bool)
    (hok : ∀ d, ok d.touched = ok d) {s : Selector} {i : Nat} (hlocal : s.isLocal = false)
    (hindex : s.index = i) (hi : i < 6) (hd : (segmentOf L i).touched = d) (hlet : ok d = true) :
    p.fetch s ok = some (d, marked L p.mem i) := by
  have htouched := (h.gdt i hi).trans hd
  have hlets : ok (p.mem.descriptor (slotOf L i)) = true := by rw [← hok, htouched, hlet]
  rw [fetch_eq h.gdtr, hindex, if_pos ⟨hlocal, hi, hlets⟩, htouched]

theorem loadUserData (h : Installed L st top p) (hcpl : p.cpl = 0) (reg : DataRegister) :
    p.loadData reg userDsSelector = some { p with
      data := Function.update p.data reg userData
      mem := marked L p.mem 4 } := by
  have hfetch := fetch_of h (·.loadsData p.cpl userDsSelector.rpl) (i := 4) (d := flatSegment 0xF3)
    (fun d => loadsData_touched d _ _) (s := userDsSelector) (by decide) (by decide) (by decide)
    touched_userData (by rw [hcpl]; decide)
  rw [Processor.loadData, if_neg (by decide), hfetch]
  rfl

theorem loadUserStack (h : Installed L st top p) (hcpl : p.cpl = 3) :
    p.loadStack userDsSelector = some { p with ss := userData, mem := marked L p.mem 4 } := by
  have hfetch := fetch_of h (·.loadsStack p.cpl userDsSelector.rpl) (i := 4) (d := flatSegment 0xF3)
    (fun d => loadsStack_touched d _ _) (s := userDsSelector) (by decide) (by decide) (by decide)
    touched_userData (by rw [hcpl]; decide)
  rw [Processor.loadStack, if_neg (by decide), hfetch]
  rfl

theorem flat_stack (hss : p.ss = kernelData ∨ p.ss = userData) :
    ∃ d, p.ss.descriptor = some d ∧ ∀ x n, d.linear x n =
      if x.toNat + n ≤ 2 ^ 32 then some x else none := by
  rcases hss with hss | hss
  · exact ⟨_, by rw [hss], flat_linear (.inr (by decide))⟩
  · exact ⟨_, by rw [hss], flat_linear (.inr (by decide))⟩

theorem push_of (hss : p.ss = kernelData ∨ p.ss = userData) (hesp : 4 ≤ p.esp.toNat) (w : U32) :
    p.push w = some { p with esp := p.esp - 4, mem := p.mem.write32 (p.esp - 4) w } := by
  obtain ⟨d, hd, hlinear⟩ := flat_stack hss
  have hroom : (p.esp - 4).toNat + 4 ≤ 2 ^ 32 := by bv_omega
  rw [Processor.push, hd]
  simp only [Option.bind_eq_bind, Option.bind_some, hlinear, if_pos hroom]
  rfl

theorem pushes_of (p : Processor) (ws : List U32) (hss : p.ss = kernelData ∨ p.ss = userData)
    (hesp : 4 * ws.length ≤ p.esp.toNat) : p.pushes ws = some { p with
      esp := p.esp - BitVec.ofNat 32 (4 * ws.length)
      mem := p.mem.pushWords p.esp ws } := by
  induction ws generalizing p with
  | nil => simp [Processor.pushes, Mem.pushWords]
  | cons w ws ih =>
    rw [List.length_cons] at hesp
    have hlt := p.esp.isLt
    have hrest := ih { p with esp := p.esp - 4, mem := p.mem.write32 (p.esp - 4) w } hss
      (by change 4 * ws.length ≤ (p.esp - 4).toNat; bv_omega)
    have hesp' : p.esp - 4 - BitVec.ofNat 32 (4 * ws.length) =
        p.esp - BitVec.ofNat 32 (4 * (w :: ws).length) := by
      rw [List.length_cons]
      bv_omega
    rw [Processor.pushes, List.foldlM_cons, push_of hss (by omega)]
    rw [← hesp']
    exact hrest

theorem slot_of (hss : p.ss = kernelData ∨ p.ss = userData) (hw : p.mem.Words p.esp ws)
    (hesp : p.esp.toNat + 4 * ws.length ≤ 2 ^ 32) {i : Nat} (hi : i < ws.length) :
    p.slot i = some ws[i] := by
  obtain ⟨d, hd, hlinear⟩ := flat_stack hss
  have hroom : (p.esp + BitVec.ofNat 32 (4 * i)).toNat + 4 ≤ 2 ^ 32 := by bv_omega
  rw [Processor.slot, Processor.stackAt, hd]
  simp only [Option.bind_eq_bind, Option.bind_some, hlinear, if_pos hroom, Option.map_some,
    hw.get hi]

/-- A return to user code, over the frame of one. -/
theorem iret_of (h : Installed L st top p) (hcpl : p.cpl = 0)
    (hss : p.ss = kernelData ∨ p.ss = userData) {eip eflags esp : U32}
    (hframe : p.mem.Words p.esp [eip, userCsSelector.setWidth 32, eflags, esp,
      userDsSelector.setWidth 32]) (hesp : p.esp.toNat + 20 ≤ 2 ^ 32) :
    p.iret = some { p with
      eip := eip
      esp := esp
      eflags := eflags
      cs := userCode
      ss := userData
      data := fun r => outerData 3 (p.data r)
      mem := marked L (marked L p.mem 3) 4 } := by
  have hslot : ∀ i (hi : i < 5), p.slot i = some ([eip, userCsSelector.setWidth 32, eflags, esp,
      userDsSelector.setWidth 32].get ⟨i, hi⟩) := fun i hi => slot_of hss hframe hesp hi
  have hflags : p.restoredFlags eflags = eflags := by
    have hle : ∀ l : BitVec 2, 0 ≤ l := by decide
    have hall : ~~~((0 : U32) ||| 0) = BitVec.allOnes 32 := by decide
    simp only [Processor.restoredFlags, hcpl, if_true, if_pos (hle _)]
    rw [hall, BitVec.and_allOnes]
    simp
  have hfetch := fetch_of h (·.returnsTo p.cpl userCsSelector.rpl) (i := 3) (d := flatSegment 0xFB)
    (fun d => returnsTo_touched d _ _) (s := userCsSelector) (by decide) (by decide) (by decide)
    touched_userCode (by rw [hcpl]; decide)
  have hkept : Installed L st top { p with
      cs := userCode
      eip := eip
      eflags := p.restoredFlags eflags
      mem := marked L p.mem 3
      esp := esp
      data := fun r => outerData 3 (p.data r) } :=
    Installed.keep h (SameTables.marked L p.mem (by decide)) rfl rfl rfl
  have hsel : ∀ s : Selector, (s.setWidth 32).setWidth 16 = s := by
    intro s
    simp
  have hlevel : userCsSelector.rpl ≠ p.cpl := by
    rw [hcpl]
    decide
  rw [Processor.iret, hslot 0 (by decide), hslot 1 (by decide), hslot 2 (by decide),
    hslot 3 (by decide), hslot 4 (by decide)]
  simp only [List.get_eq_getElem, List.getElem_cons_zero, List.getElem_cons_succ,
    Option.bind_eq_bind, Option.bind_some, hsel]
  rw [if_neg (by decide), hfetch]
  simp only [Option.bind_some]
  rw [if_neg hlevel, level_userCode, loadUserStack hkept level_userCode, hflags]

/-! Into the kernel and back. -/

/-- The `n` bytes below the stack pointer lie outside of the tables. -/
def StackApart (L : Tables) (esp : U32) (n : Nat) : Prop :=
  ∀ x, (x - (esp - BitVec.ofNat 32 n)).toNat < n →
    48 ≤ (x - L.gGdt).toNat ∧ 104 ≤ (x - L.gTss).toNat ∧ 2048 ≤ (x - L.gIdt).toNat

/-- Stores below the stack pointer leave the tables alone. -/
theorem StackApart.same {esp : U32} {n : Nat} (h : StackApart L esp n)
    (hm : ∀ x, n ≤ (x - (esp - BitVec.ofNat 32 n)).toNat → m' x = m x) : SameTables L m m' := by
  have hgdt := L.gdtEnds
  have hkeep : ∀ x, (x - L.gGdt).toNat < 48 ∨ (x - L.gTss).toNat < 104 ∨
      (x - L.gIdt).toNat < 2048 → m' x = m x := by
    intro x hx
    refine hm x (Nat.le_of_not_lt fun hin => ?_)
    have := h x hin
    omega
  refine ⟨fun i hi => congrArg _ (descriptor_congr fun x hx => hkeep x (.inl ?_)),
    fun x hx => hkeep x (.inr (.inl hx)), fun x hx => hkeep x (.inr (.inr hx))⟩
  unfold slotOf at hx
  bv_omega

theorem switchStack_of (h : Installed L st top p) : p.switchStack = some { p with
    ss := kernelData
    esp := top
    mem := marked L p.mem 2 } := by
  have hfetch := fetch_of h (·.loadsStack 0 kernelDsSelector.rpl) (i := 2) (d := flatSegment 0x93)
    (fun d => loadsStack_touched d _ _) (s := kernelDsSelector) (by decide) (by decide) (by decide)
    touched_kernelData (by decide)
  rw [Processor.switchStack, Segmented.innerStack h.toSegmented]
  simp only [Option.bind_eq_bind, Option.bind_some]
  rw [if_neg (by decide), hfetch]
  rfl

theorem gate_ok (stub : U32) : ∀ access ∈ [(0xEF : Byte), interruptGate],
    ((⟨stub, 0x08, access⟩ : GateEntry).valid && (⟨stub, 0x08, access⟩ : GateEntry).present &&
      !(⟨stub, 0x08, access⟩ : GateEntry).selector.isNull) = true := by
  intro access haccess
  simp only [List.mem_cons, List.not_mem_nil, or_false] at haccess
  rcases haccess with rfl | rfl
  · exact (by decide : ((0xEF : Byte).extractLsb' 1 4 == 0x7#4 && (0xEF : Byte).getLsbD 7 &&
      !Selector.isNull 0x08) = true)
  · exact (by decide : ((0x8E : Byte).extractLsb' 1 4 == 0x7#4 && (0x8E : Byte).getLsbD 7 &&
      !Selector.isNull 0x08) = true)

/-- User code is taken to a handler whenever the kernel's stack has room. -/
theorem deliver_user {stub : U32} (h : Guarding L st top p) (huser : p.cpl = 3)
    (hroom : 24 ≤ top.toNat) (hv : handlerOf st v = some stub) (error : Option U32) :
    ∃ q, p.deliver v error = some q ∧ (StackApart L top 24 → SameTables L p.mem q.mem) := by
  have haccess : (if v = syscallVector then (0xEF : Byte) else interruptGate) ∈
      [(0xEF : Byte), interruptGate] := by split <;> simp
  have hfetch := fetch_of h.installed (·.enters p.cpl) (i := 1) (d := flatSegment 0x9B)
    (fun d => enters_touched d _) (s := 0x08) (by decide) (by decide) (by decide)
    touched_kernelCode (by rw [huser]; decide)
  have hmarked := SameTables.marked L p.mem (show 1 < 6 by decide)
  have hkept : Installed L st top { p with mem := marked L p.mem 1 } :=
    Installed.keep h.installed hmarked rfl rfl rfl
  obtain ⟨words, hwords⟩ : ∃ words, words = [p.eflags, p.cs.selector.setWidth 32, p.eip] ++
    error.toList := ⟨_, rfl⟩
  have hshort : words.length ≤ 4 := by
    rw [hwords]
    cases error <;> simp
  have hfits : 4 * ([p.ss.selector.setWidth 32, p.esp] ++ words).length ≤ top.toNat := by
    simp only [List.length_append, List.length_cons, List.length_nil]
    omega
  have hpushes := pushes_of
    { p with ss := kernelData, esp := top, mem := marked L (marked L p.mem 1) 2 }
    ([p.ss.selector.setWidth 32, p.esp] ++ words) (.inl rfl) hfits
  have hinner : ¬((flatSegment 0x9B).conforming || (flatSegment 0x9B).dpl == p.cpl) = true := by
    rw [huser]
    decide
  have henter : { p with mem := marked L p.mem 1 }.enter (flatSegment 0x9B) words = some ({ p with
      ss := kernelData
      esp := top - BitVec.ofNat 32 (4 * ([p.ss.selector.setWidth 32, p.esp] ++ words).length)
      mem := (marked L (marked L p.mem 1) 2).pushWords top
        ([p.ss.selector.setWidth 32, p.esp] ++ words) }, 0) := by
    rw [Processor.enter]
    change (if ((flatSegment 0x9B).conforming || (flatSegment 0x9B).dpl == p.cpl) = true then _
      else _) = some _
    rw [if_neg hinner, if_pos (by decide), switchStack_of hkept]
    simp only [Option.bind_eq_bind, Option.bind_some]
    rw [hpushes]
    rfl
  rw [Processor.deliver, gate_entry h.installed]
  simp only [Option.bind_eq_bind, Option.bind_some, h.installed.idt]
  rw [gateOf_handled hv, if_pos (gate_ok stub _ haccess)]
  simp only
  rw [hfetch]
  simp only [Option.bind_some]
  rw [← hwords, henter]
  refine ⟨_, rfl, fun hstack => ?_⟩
  refine SameTables.trans hmarked (SameTables.trans (SameTables.marked L _ (show 2 < 6 by decide)) ?_)
  apply hstack.same
  intro x hx
  have hcount : ([p.ss.selector.setWidth 32, p.esp] ++ words).length ≤ 6 := by
    simp only [List.length_append, List.length_cons, List.length_nil]
    omega
  exact Mem.pushWords_outside (by omega) (by bv_omega)

theorem outerData_user (h : FlatData p) (huser : p.cpl = 3) (reg : DataRegister) :
    outerData 3 (p.data reg) = p.data reg := by
  unfold outerData
  cases hd : (p.data reg).descriptor with
  | none => rfl
  | some d =>
    have hdpl := (h reg d hd).2
    rw [huser] at hdpl
    have hnot : ∀ l : BitVec 2, 3 ≤ l → ¬l < 3 := by decide
    simp only [decide_eq_false (hnot _ hdpl), Bool.and_false, Bool.false_eq_true, if_false]

/-- A register that the kernel has left with its own segment is lost on the way out. -/
theorem outerData_kernel {reg : SegmentRegister} (h : reg = kernelData) :
    outerData 3 reg = ⟨0, none⟩ := by
  rw [h]
  decide

/-- User code is taken to the handler, and goes on as it was where the kernel returns in its own
segments over the words of the frame, wherever they are: but for the data registers, which keep what
the kernel has left in them, if it is no segment of its own. -/
theorem interrupt_resumes_user {stub : U32} (h : Guarding L st top p) (huser : p.cpl = 3)
    (hroom : 24 ≤ top.toNat) (hv : handlerOf st v = some stub) (error : Option U32) :
    (∃ q, p.deliver v error = some q ∧ Entered st top p v error q) ∧
    ∀ r top', Installed L st top' r → r.cs = kernelCode → r.ss = kernelData →
      r.esp.toNat + 20 ≤ 2 ^ 32 → r.mem.Words r.esp (userFrame p none) →
      ∃ u, r.iret = some u ∧ u.eip = p.eip ∧ u.esp = p.esp ∧ u.eflags = p.eflags ∧
        u.cs = p.cs ∧ u.ss = p.ss ∧
        ∀ reg, (r.data reg = p.data reg → u.data reg = p.data reg) ∧
          (r.data reg = kernelData → u.data reg = ⟨0, none⟩) := by
  constructor
  · obtain ⟨q, hdeliver, -⟩ := deliver_user h huser hroom hv error
    obtain ⟨stub', esp, m, hhandler, hq, hframe⟩ := deliver_cases h.installed h.level hdeliver
    obtain ⟨hesp, hwords⟩ := hframe huser
    refine ⟨q, hdeliver, ?_⟩
    rw [hq]
    exact ⟨hhandler, rfl, rfl, rfl, hesp, hwords⟩
  · intro r top' hr hcs hss hresp hback
    obtain ⟨hcode, hstack⟩ : p.cs = userCode ∧ p.ss = userData := by
      rcases AtLevel.cpl_cases h.level with ⟨hzero, -⟩ | ⟨-, hsegments⟩
      · rw [huser] at hzero
        exact absurd hzero (by decide)
      · exact hsegments
    have hlevel : r.cpl = 0 := by
      rw [Processor.cpl, hcs]
      exact level_kernelCode
    have hback' : r.mem.Words r.esp [p.eip, userCsSelector.setWidth 32, p.eflags, p.esp,
        userDsSelector.setWidth 32] := by
      rw [userFrame, hcode, hstack] at hback
      exact hback
    have hret := iret_of hr hlevel (.inl hss) hback' hresp
    refine ⟨_, hret, rfl, rfl, rfl, hcode.symm, hstack.symm, fun reg => ⟨?_, outerData_kernel⟩⟩
    intro hsame
    change outerData 3 (r.data reg) = p.data reg
    rw [hsame, outerData_user h.data huser]

/-! `enter_ring3`. -/

/-- What the pushes leave alone. -/
structure SameSegments (p q : Processor) : Prop where
  cs : q.cs = p.cs
  ss : q.ss = p.ss
  data : q.data = p.data
  tr : q.tr = p.tr
  gdtr : q.gdtr = p.gdtr
  idtr : q.idtr = p.idtr
  eflags : q.eflags = p.eflags

theorem SameSegments.trans (h : SameSegments p q) (h' : SameSegments q r) : SameSegments p r :=
  ⟨h'.cs.trans h.cs, h'.ss.trans h.ss, h'.data.trans h.data, h'.tr.trans h.tr,
    h'.gdtr.trans h.gdtr, h'.idtr.trans h.idtr, h'.eflags.trans h.eflags⟩

theorem push_step (hss : p.ss = kernelData) (hesp : 4 ≤ p.esp.toNat) (hw : p.mem.Words p.esp ws)
    (hlen : ws.length < 10) (w : U32) : ∃ q, p.push w = some q ∧ SameSegments p q ∧
      q.esp = p.esp - 4 ∧ q.mem.Words q.esp (w :: ws) ∧
      ∀ x, 4 ≤ (x - (p.esp - 4)).toNat → q.mem x = p.mem x :=
  ⟨_, push_of (.inl hss) hesp w, ⟨rfl, rfl, rfl, rfl, rfl, rfl, rfl⟩, rfl,
    Mem.words_push hw (by omega) w, fun _ hx => Mem.write32_outside hx⟩

theorem userData_step (h : Installed L st top p) (hcpl : p.cpl = 0) (reg : DataRegister) :
    ∃ q, p.loadData reg userDsSelector = some q ∧ Installed L st top q ∧ q.cpl = 0 ∧
      q.ss = p.ss ∧ q.esp = p.esp ∧ q.data = Function.update p.data reg userData :=
  ⟨_, loadUserData h hcpl reg,
    Installed.keep h (SameTables.marked L p.mem (by decide)) rfl rfl rfl, hcpl, rfl, rfl, rfl⟩

theorem or_and_self (x y : U32) : (x ||| y) &&& y = y := by
  apply BitVec.eq_of_getLsbD_eq
  intro i _
  rw [BitVec.getLsbD_and, BitVec.getLsbD_or]
  cases x.getLsbD i <;> cases y.getLsbD i <;> rfl

/-- The pushes of `enter_ring3`, and the frame that they leave. -/
theorem ring3_pushes (hss : p.ss = kernelData) (hesp : 20 ≤ p.esp.toNat)
    (hstack : StackApart L p.esp 20) (entry userStackTop : U32) :
    ∃ p₁ p₂ p₃ p₄ p₅ q, p.push (userDsSelector.setWidth 32) = some p₁ ∧
      p₁.push userStackTop = some p₂ ∧ p₂.push p₂.eflags = some p₃ ∧
      p₃.slot 0 = some p.eflags ∧
      { p₃ with esp := p₃.esp + 4 }.push (p.eflags ||| 0x200) = some p₄ ∧
      p₄.push (userCsSelector.setWidth 32) = some p₅ ∧ p₅.push entry = some q ∧
      SameSegments p q ∧ SameTables L p.mem q.mem ∧ q.esp.toNat + 20 ≤ 2 ^ 32 ∧
      q.mem.Words q.esp [entry, userCsSelector.setWidth 32, p.eflags ||| 0x200, userStackTop,
        userDsSelector.setWidth 32] := by
  have hlt := p.esp.isLt
  obtain ⟨p₁, hp₁, hsame₁, he₁, hw₁, hm₁⟩ := push_step hss (by omega)
    (show p.mem.Words p.esp [] from trivial) (by decide) (userDsSelector.setWidth 32)
  obtain ⟨p₂, hp₂, hsame₂, he₂, hw₂, hm₂⟩ := push_step (hsame₁.ss.trans hss)
    (by rw [he₁]; bv_omega) hw₁ (by simp) userStackTop
  rw [he₁] at he₂ hm₂
  have hto₂ := hsame₁.trans hsame₂
  obtain ⟨p₃, hp₃, hsame₃, he₃, hw₃, hm₃⟩ := push_step (hto₂.ss.trans hss)
    (by rw [he₂]; bv_omega) hw₂ (by simp) p₂.eflags
  rw [he₂] at he₃ hm₃
  have hto₃ := hto₂.trans hsame₃
  have hslot : p₃.slot 0 = some p.eflags := by
    rw [← hto₂.eflags]
    exact slot_of (.inl (hto₃.ss.trans hss)) hw₃ (by rw [he₃]; simp; bv_omega) (i := 0) (by simp)
  -- The word of `pushfl` is popped again: the next push goes in its place.
  have hback : p₃.esp + 4 = p.esp - 4 - 4 := by
    rw [he₃]
    bv_omega
  obtain ⟨p₄, hp₄, hsame₄, he₄, hw₄, hm₄⟩ := push_step (p := { p₃ with esp := p.esp - 4 - 4 })
    (hto₃.ss.trans hss) (by change 4 ≤ (p.esp - 4 - 4).toNat; bv_omega)
    (by rw [← hback]; exact hw₃.2) (by simp) (p.eflags ||| 0x200)
  have hto₄ : SameSegments p p₄ := hto₃.trans ⟨hsame₄.cs, hsame₄.ss, hsame₄.data, hsame₄.tr,
    hsame₄.gdtr, hsame₄.idtr, hsame₄.eflags⟩
  obtain ⟨p₅, hp₅, hsame₅, he₅, hw₅, hm₅⟩ := push_step (hto₄.ss.trans hss)
    (by rw [he₄]; bv_omega) hw₄ (by simp) (userCsSelector.setWidth 32)
  rw [he₄] at he₅ hm₅
  have hto₅ := hto₄.trans hsame₅
  obtain ⟨q, hq, hsame₆, he₆, hw₆, hm₆⟩ := push_step (hto₅.ss.trans hss)
    (by rw [he₅]; bv_omega) hw₅ (by simp) entry
  rw [he₅] at he₆ hm₆
  refine ⟨p₁, p₂, p₃, p₄, p₅, q, hp₁, hp₂, hp₃, hslot, by rw [hback]; exact hp₄, hp₅, hq,
    hto₅.trans hsame₆, ?_, by rw [he₆]; bv_omega, hw₆⟩
  apply hstack.same
  intro x hx
  rw [hm₆ x (by bv_omega), hm₅ x (by bv_omega), hm₄ x (by bv_omega)]
  change p₃.mem x = p.mem x
  rw [hm₃ x (by bv_omega), hm₂ x (by bv_omega), hm₁ x (by bv_omega)]

/-- `enter_ring3` reaches user code: at the entry, on its stack, with interrupts on, in the segments
for user code. -/
theorem enterRing3_reaches (h : Guarding L st top p) (hcpl : p.cpl = 0) (hesp : 20 ≤ p.esp.toNat)
    (hstack : StackApart L p.esp 20) (entry userStackTop : U32) :
    ∃ q, enterRing3 p entry userStackTop = some q ∧ Guarding L st top q ∧ q.cpl = 3 ∧
      q.eip = entry ∧ q.esp = userStackTop ∧ q.eflags &&& flagIf = flagIf ∧
      ∀ reg, q.data reg = userData := by
  have hss : p.ss = kernelData := by
    rcases AtLevel.cpl_cases h.level with ⟨-, -, hss⟩ | ⟨hthree, -⟩
    · exact hss
    · rw [hcpl] at hthree
      exact absurd hthree (by decide)
  have h₀ : Installed L st top { p with eflags := p.eflags &&& ~~~flagIf } :=
    Installed.keep h.installed (SameTables.refl L p.mem) rfl rfl rfl
  obtain ⟨p₁, hl₁, h₁, hc₁, hs₁, he₁, hd₁⟩ := userData_step h₀ hcpl .ds
  obtain ⟨p₂, hl₂, h₂, hc₂, hs₂, he₂, hd₂⟩ := userData_step h₁ hc₁ .es
  obtain ⟨p₃, hl₃, h₃, hc₃, hs₃, he₃, hd₃⟩ := userData_step h₂ hc₂ .fs
  obtain ⟨p₄, hl₄, h₄, hc₄, hs₄, he₄, hd₄⟩ := userData_step h₃ hc₃ .gs
  have hesp₄ : p₄.esp = p.esp := he₄.trans (he₃.trans (he₂.trans he₁))
  have hdata₄ : ∀ reg, p₄.data reg = userData := by
    intro reg
    rw [hd₄, hd₃, hd₂, hd₁]
    cases reg <;> rfl
  obtain ⟨q₁, q₂, q₃, q₄, q₅, q₆, hq₁, hq₂, hq₃, hslot, hq₄, hq₅, hq₆, hsame, hmem, hroom, hframe⟩ :=
    ring3_pushes (L := L) (hs₄.trans (hs₃.trans (hs₂.trans (hs₁.trans hss)))) (by rw [hesp₄]; exact hesp)
      (by rw [hesp₄]; exact hstack) entry userStackTop
  have hinstalled : Installed L st top q₆ :=
    Installed.keep h₄ hmem hsame.gdtr hsame.tr hsame.idtr
  have hcpl₆ : q₆.cpl = 0 := by rw [Processor.cpl, hsame.cs, ← Processor.cpl, hc₄]
  have hdata₆ : ∀ reg, q₆.data reg = userData := by
    intro reg
    rw [hsame.data, hdata₄]
  have hret := iret_of hinstalled hcpl₆ (.inl (hsame.ss.trans (hs₄.trans (hs₃.trans (hs₂.trans
    (hs₁.trans hss)))))) hframe hroom
  have hall : enterRing3 p entry userStackTop = q₆.iret := by
    simp only [enterRing3, Option.bind_eq_bind]
    rw [hl₁, Option.bind_some, hl₂, Option.bind_some, hl₃, Option.bind_some, hl₄, Option.bind_some,
      hq₁, Option.bind_some, hq₂, Option.bind_some, hq₃, Option.bind_some, hslot, Option.bind_some,
      hq₄, Option.bind_some, hq₅, Option.bind_some, hq₆, Option.bind_some]
  have houter : ∀ reg, outerData 3 (q₆.data reg) = userData := by
    intro reg
    rw [hdata₆]
    decide
  refine ⟨_, hall.trans hret, ⟨?_, .inr ⟨rfl, rfl⟩, ?_⟩, level_userCode, rfl, rfl, or_and_self _ _,
    houter⟩
  · have hmarked := SameTables.trans (SameTables.marked L q₆.mem (show 3 < 6 by decide))
      (SameTables.marked L _ (show 4 < 6 by decide))
    exact Installed.keep hinstalled hmarked rfl rfl rfl
  · intro reg d hd
    change (outerData 3 (q₆.data reg)).descriptor = some d at hd
    rw [houter] at hd
    obtain rfl := Option.some.inj hd
    exact ⟨by simp, by change userCsSelector.rpl ≤ (flatSegment 0xF3).dpl; decide⟩

/-! What code at either level can use. -/

theorem linear_of_flats {d : Descriptor} (hd : d ∈ flats) (x : U32) (n : Nat) :
    d.linear x n = if x.toNat + n ≤ 2 ^ 32 then some x else none := by
  have hup := flat_conforming d hd
  simp only [List.mem_cons, List.not_mem_nil, or_false] at hd
  rcases hd with rfl | rfl | rfl | rfl <;> exact flat_linear (.inr hup) x n

theorem portMapped_false (h : Installed L st top p) (port : BitVec 16) :
    p.portMapped port = false := by
  have hgranular : (segmentOf L 5).granular = false := (by decide : (0 : BitVec 4).getLsbD 3 = false)
  have hlast : (segmentOf L 5).lastOffset = 103 := by
    rw [Descriptor.lastOffset, if_neg (by simp [hgranular])]
    rfl
  have hiomap : (p.mem.read16 (L.gTss + 102)).toNat = 104 := congrArg BitVec.toNat h.iomap
  rw [Processor.portMapped, h.tr]
  simp only [tss_linear L (show (102 : U32).toNat + 2 ≤ 104 by decide), hlast, hiomap]
  rw [if_neg (by omega)]

/-- Where IOPL is 0 the ports are the kernel's. -/
theorem portAllowed_iff (h : Installed L st top p) (hiopl : p.iopl = 0) (port : BitVec 16) :
    p.portAllowed port = true ↔ p.cpl = 0 := by
  have hle : ∀ l : BitVec 2, l ≤ 0 ↔ l = 0 := by decide
  rw [Processor.portAllowed, portMapped_false h, hiopl, Bool.or_false, decide_eq_true_iff, hle]

theorem flat_loads : ∀ cpl rpl : BitVec 2,
    ((flatSegment 0x9B).loadsData cpl rpl = true ↔ cpl = 0 ∧ rpl = 0) ∧
      ((flatSegment 0x93).loadsData cpl rpl = true ↔ cpl = 0 ∧ rpl = 0) ∧
      (flatSegment 0xFB).loadsData cpl rpl = true ∧
      (flatSegment 0xF3).loadsData cpl rpl = true := by
  decide

theorem segment_loads (L : Tables) {i : Nat} (hi : i < 6) (cpl rpl : BitVec 2) :
    (segmentOf L i).touched.loadsData cpl rpl = true ↔
      (i = 3 ∨ i = 4 ∨ (i = 1 ∨ i = 2) ∧ cpl = 0 ∧ rpl = 0) := by
  obtain ⟨hcode, hdata, hcode', hdata'⟩ := flat_loads cpl rpl
  by_cases hord : (segmentOf L i).touched.ordinary = true
  · rcases ordinary_cases hi hord with ⟨rfl, hd⟩ | ⟨rfl, hd⟩ | ⟨rfl, hd⟩ | ⟨rfl, hd⟩
    · simpa [hd] using hcode
    · simpa [hd] using hdata
    · simpa [hd] using hcode'
    · simpa [hd] using hdata'
  · have hend : i = 0 ∨ i = 5 := by
      have hsegments : ∀ k ∈ [1, 2, 3, 4], (segmentOf L k).touched.ordinary = true := by
        intro k hk
        rw [ordinary_touched]
        simp only [List.mem_cons, List.not_mem_nil, or_false] at hk
        rcases hk with rfl | rfl | rfl | rfl
        · exact (by decide : (flatSegment 0x9A).ordinary = true)
        · exact (by decide : (flatSegment 0x92).ordinary = true)
        · exact (by decide : (flatSegment 0xFA).ordinary = true)
        · exact (by decide : (flatSegment 0xF2).ordinary = true)
      by_contra hmid
      refine hord (hsegments i ?_)
      simp only [List.mem_cons, List.not_mem_nil, or_false]
      omega
    constructor
    · intro hloads
      exact absurd (loadsData_ordinary hloads) hord
    · rintro (h | h | ⟨h, -⟩) <;> omega

/-- Which segments a data register can be loaded with. -/
theorem loadData_isSome (h : Installed L st top p) (reg : DataRegister) (s : Selector) :
    (p.loadData reg s).isSome = true ↔ s.isNull = true ∨ s.isLocal = false ∧
      (s.index = 3 ∨ s.index = 4 ∨ (s.index = 1 ∨ s.index = 2) ∧ p.cpl = 0 ∧ s.rpl = 0) := by
  rw [Processor.loadData]
  cases hnull : s.isNull with
  | true => simp
  | false =>
    have hok : s.index < 6 →
        ((p.mem.descriptor (slotOf L s.index)).loadsData p.cpl s.rpl = true ↔
          (s.index = 3 ∨ s.index = 4 ∨ (s.index = 1 ∨ s.index = 2) ∧ p.cpl = 0 ∧ s.rpl = 0)) := by
      intro hindex
      rw [← loadsData_touched, h.gdt _ hindex]
      exact segment_loads L hindex p.cpl s.rpl
    rw [fetch_eq h.gdtr]
    simp only [Bool.false_eq_true, if_false, false_or]
    by_cases hall : s.isLocal = false ∧ s.index < 6 ∧
        (p.mem.descriptor (slotOf L s.index)).loadsData p.cpl s.rpl = true
    · rw [if_pos hall]
      exact ⟨fun _ => ⟨hall.1, (hok hall.2.1).mp hall.2.2⟩, fun _ => rfl⟩
    · rw [if_neg hall]
      constructor
      · intro hsome
        cases hsome
      · intro hlets
        obtain ⟨hlocal, hindex⟩ := hlets
        have hlt : s.index < 6 := by omega
        exact absurd ⟨hlocal, hlt, (hok hlt).mpr hindex⟩ hall

/-- In every run of the kernel and user code trusted with the tables all segments are the whole address
space, so that addresses are those of the memory; the stack for level 0 is the one that the kernel has
set last; the ports are the kernel's alone, and the data segments user code can load are its own. -/
theorem segments_stay_flat {p₀ p₁ : Processor} {top₀ : U32} {es : List CpuEvent}
    (hboot : (gdtTssInit L top₀ p₀).bind (idtInit L st) = some p₁) (hiopl : p₀.iopl = 0)
    (hrun : Run (TrustedStep L) (top₀, p₁) es (top, p)) :
    (∀ d, p.cs.descriptor = some d ∨ p.ss.descriptor = some d ∨
        (∃ reg, (p.data reg).descriptor = some d) →
      ∀ x n, d.linear x n = if x.toNat + n ≤ 2 ^ 32 then some x else none) ∧
    p.innerStack = some (kernelDsSelector, top) ∧
    (∀ port, p.portAllowed port = true ↔ p.cpl = 0) ∧
    ∀ reg s, (p.loadData reg s).isSome = true ↔ s.isNull = true ∨ s.isLocal = false ∧
      (s.index = 3 ∨ s.index = 4 ∨ (s.index = 1 ∨ s.index = 2) ∧ p.cpl = 0 ∧ s.rpl = 0) := by
  obtain ⟨hguarding, -, hsame⟩ := booted hboot
  have h := run_guarding hguarding hrun
  refine ⟨?_, Segmented.innerStack h.installed.toSegmented, ?_, loadData_isSome h.installed⟩
  swap
  · exact portAllowed_iff h.installed ((run_iopl hrun).trans (hsame.trans hiopl))
  intro d hd
  have hmem : d ∈ flats := by
    rcases hd with hcs | hss | ⟨reg, hdata⟩
    · rcases AtLevel.cpl_cases h.level with ⟨-, hseg, -⟩ | ⟨-, hseg, -⟩
      · rw [hseg] at hcs
        simp [← Option.some.inj hcs]
      · rw [hseg] at hcs
        simp [← Option.some.inj hcs]
    · rcases AtLevel.cpl_cases h.level with ⟨-, -, hseg⟩ | ⟨-, -, hseg⟩
      · rw [hseg] at hss
        simp [← Option.some.inj hss]
      · rw [hseg] at hss
        simp [← Option.some.inj hss]
    · exact (h.data reg d hdata).1
  exact linear_of_flats hmem

/-! The tables at one place, and user code there. -/

def bootStubs : Stubs := ⟨0x110000, 0x110010, 0x110020, 0x110030, 0x110040, 0x110050⟩

/-- At level 0, with the segments of a boot loader. -/
def bootProcessor : Processor where
  eip := 0x120000
  esp := 0x80000
  eflags := 2
  cs := ⟨0x08, none⟩
  ss := ⟨0x10, none⟩
  data := fun _ => ⟨0x10, none⟩
  tr := ⟨0, none⟩
  gdtr := ⟨0, 0⟩
  idtr := ⟨0, 0⟩
  mem := fun _ => 0

theorem boot_stackApart : StackApart bootTables 0x80000 20 ∧ StackApart bootTables 0x90000 24 := by
  simp only [StackApart, bootTables]
  refine ⟨fun x hx => ?_, fun x hx => ?_⟩
  · bv_omega
  · bv_omega

/-- Of the kernel at the stack of the boot loader, with a frame for user code on it. -/
theorem boot_user : ∃ p₁ es p,
    (gdtTssInit bootTables 0x90000 bootProcessor).bind (idtInit bootTables bootStubs) = some p₁ ∧
      Run (TrustedStep bootTables) (0x90000, p₁) es (0x90000, p) ∧ p.cpl = 3 := by
  obtain ⟨p₁, hboot, h, hcpl⟩ := boot_guarding bootTables bootStubs 0x90000 (p := bootProcessor)
    (by decide)
  have hiopl : p₁.iopl = 0 := (booted hboot).2.2
  obtain ⟨ws, hws⟩ : ∃ ws : List U32, ws = [userDsSelector.setWidth 32, 0x90000, 0x202,
    userCsSelector.setWidth 32, 0x120000] := ⟨_, rfl⟩
  have hlen : ws.length = 5 := by rw [hws]; rfl
  have hwords := Mem.words_pushWords (show p₁.mem.Words 0x80000 [] from trivial) ws
    (by rw [hlen]; decide)
  have hsame : SameTables bootTables p₁.mem (p₁.mem.pushWords 0x80000 ws) :=
    boot_stackApart.1.same fun x hx => Mem.pushWords_outside (by omega) (by rw [hlen]; exact hx)
  have hcompute : CpuStep bootTables (0x90000, p₁) .compute (0x90000, { p₁ with
      eip := 0x120000
      esp := 0x80000 - BitVec.ofNat 32 (4 * ws.length)
      eflags := 2
      mem := p₁.mem.pushWords 0x80000 ws }) := .compute fun hkernel => absurd hcpl hkernel
  have hinstalled : Installed bootTables bootStubs 0x90000 { p₁ with
      eip := 0x120000
      esp := 0x80000 - BitVec.ofNat 32 (4 * ws.length)
      eflags := 2
      mem := p₁.mem.pushWords 0x80000 ws } := Installed.keep h.installed hsame rfl rfl rfl
  have hss : p₁.ss = kernelData := by
    rcases AtLevel.cpl_cases h.level with ⟨-, -, hss⟩ | ⟨hthree, -⟩
    · exact hss
    · rw [hcpl] at hthree
      exact absurd hthree (by decide)
  have hframe : (p₁.mem.pushWords 0x80000 ws).Words (0x80000 - BitVec.ofNat 32 (4 * ws.length))
      [0x120000, userCsSelector.setWidth 32, 0x202, 0x90000, userDsSelector.setWidth 32] := by
    simpa [hws] using hwords
  have hroom : (0x80000 - BitVec.ofNat 32 (4 * ws.length) : U32).toNat + 20 ≤ 2 ^ 32 := by
    rw [hlen]
    decide
  have hret := iret_of hinstalled hcpl (.inl hss) hframe hroom
  have hmarked := SameTables.trans
    (SameTables.marked bootTables (p₁.mem.pushWords 0x80000 ws) (show 3 < 6 by decide))
    (SameTables.marked bootTables _ (show 4 < 6 by decide))
  have hpushed : TrustedStep bootTables _ _ _ := ⟨hcompute, fun _ => hsame,
    fun _ => (by decide : (2 : U32).extractLsb' 12 2 = 0).trans hiopl.symm⟩
  exact ⟨p₁, _, _, hboot, (Run.single hpushed).snoc ⟨.iret hret, fun _ => hmarked,
    fun _ => (by decide : (0x202 : U32).extractLsb' 12 2 = (2 : U32).extractLsb' 12 2)⟩,
    level_userCode⟩

theorem segments_stay_flat_boot : ∃ p : Processor, p.cpl = 3 ∧
    p.innerStack = some (kernelDsSelector, 0x90000) ∧ (∀ port, p.portAllowed port = false) ∧
    (p.loadData .ds kernelDsSelector).isSome = false := by
  obtain ⟨p₁, es, p, hboot, hrun, hcpl⟩ := boot_user
  obtain ⟨-, hinner, hports, hloads⟩ := segments_stay_flat hboot (by decide) hrun
  refine ⟨p, hcpl, hinner, fun port => Bool.eq_false_iff.mpr fun hopen => ?_,
    Bool.eq_false_iff.mpr fun hsome => ?_⟩
  · rw [(hports port).mp hopen] at hcpl
    exact absurd hcpl (by decide)
  have hload := (hloads .ds kernelDsSelector).mp hsome
  rw [hcpl] at hload
  exact absurd hload (by decide)

/-- The instruction for a system call, where user code runs. -/
theorem int_syscall (h : Installed L st top p) : p.int syscallVector = p.deliver syscallVector none := by
  have hgate : gateOf st syscallVector = ⟨st.syscallStub, 0x08, 0xEF⟩ := rfl
  have hdpl : (⟨st.syscallStub, 0x08, 0xEF⟩ : GateEntry).dpl = 3 :=
    (by decide : (0xEF : Byte).extractLsb' 5 2 = 3)
  have hmax : ∀ l : BitVec 2, l ≤ 3 := by decide
  rw [Processor.int, gate_entry h]
  simp only [Option.bind_eq_bind, Option.bind_some, h.idt, hgate, hdpl, if_pos (hmax _)]

theorem ring3_enters_at_gates_boot : ∃ p q : Processor, p.cpl = 3 ∧ p.int syscallVector = some q ∧
    (q.cpl = 3 ∨ ∃ v error, (CpuEvent.int syscallVector = .int syscallVector ∧ v = syscallVector ∧
      error = none ∨ CpuEvent.int syscallVector = .interrupt v error) ∧
      Entered bootStubs 0x90000 p v error q) := by
  obtain ⟨p₁, es, p, hboot, hrun, hcpl⟩ := boot_user
  have h := run_guarding (booted hboot).1 hrun
  obtain ⟨q, hdeliver, -⟩ := deliver_user h hcpl (by decide) (show handlerOf bootStubs syscallVector =
    some bootStubs.syscallStub from rfl) none
  have hint := (int_syscall h.installed).trans hdeliver
  exact ⟨p, q, hcpl, hint, ring3_enters_at_gates hboot hrun hcpl (.int hint)⟩

/-- The handler returns at once. -/
theorem interrupt_resumes_user_boot : ∃ p q u : Processor, p.cpl = 3 ∧
    p.deliver irq1Vector none = some q ∧ Entered bootStubs 0x90000 p irq1Vector none q ∧
    q.iret = some u ∧ u.eip = p.eip ∧ u.esp = p.esp ∧ u.eflags = p.eflags ∧
    ∀ reg, u.data reg = p.data reg := by
  obtain ⟨p₁, es, p, hboot, hrun, hcpl⟩ := boot_user
  have h := run_guarding (booted hboot).1 hrun
  have hhandler : handlerOf bootStubs irq1Vector = some bootStubs.irq1Stub := rfl
  obtain ⟨⟨q, hdeliver, hentered⟩, hresumes⟩ :=
    interrupt_resumes_user h hcpl (by decide) hhandler none
  obtain ⟨q', hdeliver', hsame⟩ := deliver_user h hcpl (by decide) hhandler none
  obtain rfl := Option.some.inj (hdeliver'.symm.trans hdeliver)
  have hq := deliver_guarding h hdeliver (hsame boot_stackApart.2)
  have hesp : q'.esp.toNat + 20 ≤ 2 ^ 32 := by
    rw [hentered.esp]
    exact (by decide : (0x90000 - BitVec.ofNat 32 (4 * 5) : U32).toNat + 20 ≤ 2 ^ 32)
  obtain ⟨u, hret, heip, huesp, hflags, -, -, hdata⟩ :=
    hresumes q' 0x90000 hq.installed hentered.cs hentered.ss hesp hentered.frame
  refine ⟨p, q', u, hcpl, hdeliver, hentered, hret, heip, huesp, hflags, fun reg => ?_⟩
  exact (hdata reg).1 (congrFun hentered.data reg)

theorem enterRing3_reaches_boot : ∃ p q : Processor,
    enterRing3 p 0x120000 0x70000 = some q ∧ q.cpl = 3 ∧ q.eip = 0x120000 ∧ q.esp = 0x70000 := by
  obtain ⟨p₁, hboot, h, hcpl⟩ := boot_guarding bootTables bootStubs 0x90000 (p := bootProcessor)
    (by decide)
  have hkernel : Guarding bootTables bootStubs 0x90000 { p₁ with esp := 0x80000 } :=
    ⟨Installed.keep h.installed (SameTables.refl _ _) rfl rfl rfl, h.level, h.data⟩
  obtain ⟨q, hq, -, hlevel, heip, hesp, -⟩ := enterRing3_reaches hkernel hcpl
    (show 20 ≤ (0x80000 : U32).toNat by decide) boot_stackApart.1 0x120000 0x70000
  exact ⟨_, q, hq, hlevel, heip, hesp⟩

end Kernix.Proofs
