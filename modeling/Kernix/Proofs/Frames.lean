import Kernix.Interrupts.Stubs

namespace Kernix.Proofs
open Library Interrupts Interrupts.Cpu

variable {c c' : Cpu} {ws : List U32} {ret : U32} {g : Gate}

/-- The words on top of the stack. -/
def Stacked (c : Cpu) (ws : List U32) : Prop := c.mem.Words c.regs.esp ws

theorem Stacked.pushes (h : Stacked c ws) (vs : List U32)
    (hlen : 4 * (ws.length + vs.length) ≤ 2 ^ 32) : Stacked (c.pushes vs) (vs.reverse ++ ws) :=
  Mem.words_pushWords h vs hlen

theorem Stacked.push (h : Stacked c ws) (v : U32) (hlen : ws.length < 2 ^ 20) :
    Stacked (c.push v) (v :: ws) :=
  h.pushes [v] (by rw [List.length_singleton]; omega)

theorem Stacked.pushad (h : Stacked c ws) (hlen : ws.length < 2 ^ 20) :
    Stacked c.pushad (c.regs.edi :: c.regs.esi :: c.regs.ebp :: c.regs.esp :: c.regs.ebx ::
      c.regs.edx :: c.regs.ecx :: c.regs.eax :: ws) :=
  h.pushes [_, _, _, _, _, _, _, _] (by simp only [List.length_cons, List.length_nil]; omega)

theorem Stacked.slot (h : Stacked c ws) {i : Nat} (hi : i < ws.length) : c.slot i = ws[i] := h.get hi

theorem Stacked.drop {vs : List U32} (h : Stacked c (vs ++ ws))
    (hlen : 4 * (vs.length + ws.length) ≤ 2 ^ 32) : Stacked (c.drop vs.length) ws :=
  ((Mem.words_append hlen).mp h).2

/-- What a called function keeps of the stack. -/
theorem Stacked.returned {args saved : Nat} {vs : List U32} (h : Stacked c (vs ++ ws))
    (hr : Returned args saved c c') (hargs : vs.length = args + 1) (hsaved : ws.length = saved)
    (hlen : vs.length + ws.length < 2 ^ 20) : Stacked (c'.drop args) ws := by
  have htail := ((Mem.words_append (by omega)).mp h).2
  have hesp : (c'.drop args).regs.esp = c.regs.esp + BitVec.ofNat 32 (4 * vs.length) := by
    change c'.regs.esp + _ = _
    rw [hr.esp, hargs]
    bv_omega
  rw [Stacked, hesp]
  refine htail.congr (by omega) fun x hx => hr.frame x ?_
  rwa [← hargs, ← hsaved]

theorem interrupt_stacked (c : Cpu) (g : Gate) :
    Stacked (c.interrupt g) [c.regs.eip, c.regs.cs.setWidth 32, c.regs.eflags] :=
  Stacked.pushes (show Stacked c [] from trivial)
    [c.regs.eflags, c.regs.cs.setWidth 32, c.regs.eip]
    (by simp only [List.length_cons, List.length_nil]; omega)

/-! The pushes of `syscall_stub`. -/

/-- The words that `saveRegisters` pushes. -/
def savedWords (r : Regs) (s : Segments) : List U32 :=
  [s.gs.setWidth 32, s.fs.setWidth 32, s.es.setWidth 32, s.ds.setWidth 32, r.edi, r.esi, r.ebp,
    r.esp, r.ebx, r.edx, r.ecx, r.eax]

theorem saveRegisters_stacked (h : Stacked c ws) (hlen : ws.length < 2 ^ 10) :
    Stacked (saveRegisters c) (savedWords c.regs c.segs ++ ws) := by
  have hregs := h.pushad (by omega)
  exact hregs.pushes [c.segs.ds.setWidth 32, c.segs.es.setWidth 32, c.segs.fs.setWidth 32,
    c.segs.gs.setWidth 32] (by simp only [List.length_cons, List.length_nil]; omega)

theorem loadKernelSegments_stacked (h : Stacked c ws) : Stacked (loadKernelSegments c) ws := h

/-- The stack of the system call handler at its first instruction. -/
theorem syscallEntry_stacked (c : Cpu) (g : Gate) (ret : U32) :
    Stacked (syscallEntry ret (c.interrupt g))
      ([ret, c.regs.eax.extractLsb' 16 16 ++ 0x10#16, c.regs.ebx, c.regs.ecx, c.regs.edx] ++
        (savedWords { c.regs with esp := c.regs.esp - 12 } c.segs ++
          [c.regs.eip, c.regs.cs.setWidth 32, c.regs.eflags])) := by
  have hsaved := loadKernelSegments_stacked
    (saveRegisters_stacked (interrupt_stacked c g) (by simp))
  have hregs : (loadKernelSegments (saveRegisters (c.interrupt g))).regs =
      { (c.interrupt g).regs with
        eax := c.regs.eax.extractLsb' 16 16 ++ 0x10#16, esp := c.regs.esp - 12 - 32 - 16 } := rfl
  have hwords : savedWords (c.interrupt g).regs (c.interrupt g).segs =
      savedWords { c.regs with esp := c.regs.esp - 12 } c.segs := rfl
  rw [hwords] at hsaved
  rw [syscallEntry]
  generalize loadKernelSegments (saveRegisters (c.interrupt g)) = d at *
  have hargs := (hsaved.pushes [d.regs.edx, d.regs.ecx, d.regs.ebx, d.regs.eax]
    (by simp [savedWords])).push ret (by simp [savedWords])
  rw [hregs] at hargs
  rw [hregs]
  exact hargs

theorem syscallEntry_esp (c : Cpu) (g : Gate) (ret : U32) :
    (syscallEntry ret (c.interrupt g)).regs.esp = c.regs.esp - 80 := by
  change c.regs.esp - 12 - 32 - 16 - 16 - 4 = c.regs.esp - 80
  rw [sub_sub, sub_sub, sub_sub, sub_sub]
  rfl

/-! What the closing pops read. -/

theorem popSegments_esp (c : Cpu) : (c.drop 4).popSegments.regs.esp = c.regs.esp + 16 + 16 := rfl

theorem Stacked.popSegments {s : Segments} (h : Stacked c
    ([s.gs.setWidth 32, s.fs.setWidth 32, s.es.setWidth 32, s.ds.setWidth 32] ++ ws))
    (hlen : ws.length < 2 ^ 10) : c.popSegments.segs = s ∧ Stacked c.popSegments ws := by
  refine ⟨?_, h.drop (by simp only [List.length_cons, List.length_nil]; omega)⟩
  simp only [Cpu.popSegments, h.slot (i := 0) (by simp), h.slot (i := 1) (by simp),
    h.slot (i := 2) (by simp), h.slot (i := 3) (by simp)]
  ext1 <;> simp

/-- `pushad`'s words and an interrupt's, as `popad` and `iretd` read them; the word for the stack
pointer may be any. -/
def frame (r : Regs) (word : U32) : List U32 :=
  [r.edi, r.esi, r.ebp, word, r.ebx, r.edx, r.ecx, r.eax, r.eip, r.cs.setWidth 32, r.eflags]

/-- `popad` and `iretd` resume at the registers of the frame. -/
theorem Stacked.resume {r : Regs} {word : U32} (h : Stacked c (frame r word))
    (hesp : r.esp = c.regs.esp + 44) : c.popad.iretd.regs = r ∧ c.popad.iretd.segs = c.segs := by
  have hparts : Stacked c ([r.edi, r.esi, r.ebp, word, r.ebx, r.edx, r.ecx, r.eax] ++
      [r.eip, r.cs.setWidth 32, r.eflags]) := h
  have htop : Stacked c.popad [r.eip, r.cs.setWidth 32, r.eflags] := hparts.drop (by simp)
  refine ⟨?_, rfl⟩
  simp only [iretd, htop.slot (i := 0) (by simp), htop.slot (i := 1) (by simp),
    htop.slot (i := 2) (by simp)]
  simp only [popad, h.slot (i := 0) (by simp [frame]), h.slot (i := 1) (by simp [frame]),
    h.slot (i := 2) (by simp [frame]), h.slot (i := 4) (by simp [frame]),
    h.slot (i := 5) (by simp [frame]), h.slot (i := 6) (by simp [frame]),
    h.slot (i := 7) (by simp [frame])]
  ext1 <;> simp [frame, hesp, BitVec.add_assoc]

end Kernix.Proofs
