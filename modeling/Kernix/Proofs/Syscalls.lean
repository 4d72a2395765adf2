import Kernix.Proofs.Frames
import Kernix.Syscalls.Dispatch

namespace Kernix.Proofs
open Library Interrupts Interrupts.Cpu Syscalls

variable {c d : Cpu} {stub ret r : U32}

/-! The arguments of the handler. -/

theorem movAx_eq_iff (x : U32) : x.extractLsb' 16 16 ++ 0x10#16 = x ↔ x.setWidth 16 = 0x10#16 := by
  have hsplit : x.extractLsb' 16 16 ++ x.setWidth 16 = x := by
    apply BitVec.eq_of_getLsbD_eq
    intro i hi
    simp only [BitVec.getLsbD_append, BitVec.getLsbD_extractLsb', BitVec.getLsbD_setWidth]
    grind
  have hlow : (x.extractLsb' 16 16 ++ 0x10#16).setWidth 16 = 0x10#16 := by
    rw [BitVec.setWidth_append]
    simp
  constructor
  · intro h
    rw [← h]
    exact hlow
  · intro h
    rw [← h]
    exact hsplit

/-- The handler gets the interrupted code's registers, but the low half of `eax`. -/
theorem syscall_gets (c : Cpu) (stub ret : U32) :
    let e := syscallEntry ret (c.interrupt (syscallGate stub))
    e.argument 0 = c.regs.eax.extractLsb' 16 16 ++ 0x10#16 ∧ e.argument 1 = c.regs.ebx ∧
      e.argument 2 = c.regs.ecx ∧ e.argument 3 = c.regs.edx := by
  have hstack := syscallEntry_stacked c (syscallGate stub) ret
  exact ⟨hstack.slot (i := 1) (by simp), hstack.slot (i := 2) (by simp),
    hstack.slot (i := 3) (by simp), hstack.slot (i := 4) (by simp)⟩

theorem high_of_number (w : Wrapper) : w.number.extractLsb' 16 16 = 0#16 := by
  cases w <;> simp [Wrapper.number]

/-- A wrapper's call number becomes 16, which the handler refuses. -/
theorem syscall_refused {w : Wrapper} (hw : w.Loads c.regs) (stub ret : U32) :
    let e := syscallEntry ret (c.interrupt (syscallGate stub))
    handlerCall e = none ∧ ∀ {σ : Type} (kernel : KernelCall → σ → U32 × σ) (s : σ),
      syscallHandler kernel (e.argument 0) (e.argument 1) (e.argument 2) (e.argument 3) s =
        (0xFFFFFFFF, s) := by
  intro e
  have hnumber : e.argument 0 = 0x10 := by
    rw [(syscall_gets c stub ret).1, hw.1, high_of_number]
    rfl
  rw [handlerCall, hnumber]
  exact ⟨rfl, fun _ _ => rfl⟩

/-- The stub passes on exactly the registers of the interrupted code where the low half of `eax`
is the kernel's data selector, which is no call number: every wrapper's call is refused. -/
theorem syscall_arguments (c : Cpu) (stub ret : U32) :
    let e := syscallEntry ret (c.interrupt (syscallGate stub))
    ((e.argument 0 = c.regs.eax ∧ e.argument 1 = c.regs.ebx ∧ e.argument 2 = c.regs.ecx ∧
        e.argument 3 = c.regs.edx) ↔ c.ax = 0x10) ∧
      ∀ w : Wrapper, w.Loads c.regs → handlerCall e = none ∧
        ∀ {σ : Type} (kernel : KernelCall → σ → U32 × σ) (s : σ),
          syscallHandler kernel (e.argument 0) (e.argument 1) (e.argument 2) (e.argument 3) s =
            (0xFFFFFFFF, s) := by
  intro e
  obtain ⟨heax, hebx, hecx, hedx⟩ := syscall_gets c stub ret
  refine ⟨⟨?_, ?_⟩, ?_⟩
  · intro h
    exact (movAx_eq_iff _).mp (heax.symm.trans h.1)
  · intro h
    exact ⟨heax.trans ((movAx_eq_iff _).mpr h), hebx, hecx, hedx⟩
  · intro w hw
    exact syscall_refused hw stub ret

/-! The way back. -/

/-- The interrupted code goes on with all its registers, `eax` among them. -/
theorem syscall_resumes (hd : Returned 4 15 (syscallEntry ret (c.interrupt (syscallGate stub))) d) :
    (syscallExit d).regs = c.regs ∧ (syscallExit d).segs = c.segs := by
  have hstack := syscallEntry_stacked c (syscallGate stub) ret
  have hback := hstack.returned hd rfl rfl (by simp [savedWords])
  obtain ⟨hsegs, hframe⟩ := Stacked.popSegments (s := c.segs) hback (by simp)
  have hesp : c.regs.esp = (d.drop 4).popSegments.regs.esp + 44 := by
    rw [popSegments_esp, hd.esp, syscallEntry_esp]
    bv_omega
  obtain ⟨hregs, hkeep⟩ := Stacked.resume (r := c.regs) hframe hesp
  exact ⟨hregs, hkeep.trans hsegs⟩

/-- What comes of a wrapper's `int $0x90`: its own call number, and nothing done. -/
theorem int90_loads {σ : Type} {w : Wrapper} (hw : w.Loads c.regs)
    (kernel : KernelCall → σ → U32 × σ) (stub ret : U32) (s : σ) :
    (int90 kernel stub ret c s).1.regs.eax = w.number ∧ (int90 kernel stub ret c s).2 = s := by
  have hrefused := (syscall_refused hw stub ret).2 kernel s
  have hback := (syscall_resumes (returned_ret 4 15 (syscallEntry ret
    (c.interrupt (syscallGate stub))) 0xFFFFFFFF)).1
  rw [int90, hrefused]
  exact ⟨(congrArg Regs.eax hback).trans hw.1, rfl⟩

/-- The interrupted code finds the handler's result in `eax`, and the rest as it was, where the
result is what `eax` was before; a wrapper so returns its own call number. -/
theorem syscall_return (c : Cpu) (stub ret : U32) {d : Cpu}
    (hd : Returned 4 15 (syscallEntry ret (c.interrupt (syscallGate stub))) d) :
    (((syscallExit d).regs = { c.regs with eax := d.regs.eax } ∧ (syscallExit d).segs = c.segs) ↔
        d.regs.eax = c.regs.eax) ∧
      ∀ w : Wrapper, w.Loads c.regs → (syscallExit d).regs.eax = w.number := by
  obtain ⟨hregs, hsegs⟩ := syscall_resumes hd
  refine ⟨⟨?_, ?_⟩, ?_⟩
  · intro h
    rw [hregs] at h
    exact (congrArg Regs.eax h.1).symm
  · intro h
    rw [h]
    exact ⟨hregs, hsegs⟩
  · intro w hw
    rw [hregs]
    exact hw.1

/-! A call of `sys_get_ticks`. -/

def callingCpu : Cpu where
  regs := ⟨0, 0, 0, 0, 0x90000, 0, 0, 0, 0x100000, 0x202, 0x08⟩
  segs := ⟨0x10, 0x10, 0x10, 0x10⟩
  mem := fun _ => 0

/-- `syscall_handler` at its first instruction. -/
def calledCpu : Cpu := syscallEntry 0x101000 (callingCpu.interrupt (syscallGate 0x102000))

theorem callingCpu_loads : Wrapper.sysGetTicks.Loads callingCpu.regs := ⟨rfl, trivial⟩

theorem syscall_arguments_getTicks : handlerCall calledCpu = none :=
  ((syscall_arguments callingCpu 0x102000 0x101000).2 .sysGetTicks callingCpu_loads).1

/-- The handler is given 16 for the call number 0, and refuses the call. -/
theorem getTicks_refused : Wrapper.sysGetTicks.Loads callingCpu.regs ∧
    calledCpu.argument 0 = 16 ∧ callingCpu.regs.eax = 0 ∧
    handlerCall calledCpu ≠ some Wrapper.sysGetTicks.call := by
  have hgets := (syscall_gets callingCpu 0x102000 0x101000).1
  refine ⟨callingCpu_loads, hgets, rfl, ?_⟩
  have hnone : handlerCall calledCpu = none := by
    change dispatch (calledCpu.argument 0) _ _ = none
    rw [show calledCpu.argument 0 = 0x10 from hgets]
    rfl
  rw [hnone]
  exact nofun

theorem syscall_return_getTicks : (syscallExit (calledCpu.ret 7)).regs.eax = 0 :=
  (syscall_return callingCpu 0x102000 0x101000 (returned_ret 4 15 calledCpu 7)).2 .sysGetTicks
    callingCpu_loads

/-- The handler returns 7 and `sys_get_ticks` 0. -/
theorem getTicks_result_lost : Returned 4 15 calledCpu (calledCpu.ret 7) ∧
    (calledCpu.ret 7).regs.eax = 7 ∧ (syscallExit (calledCpu.ret 7)).regs.eax ≠ 7 := by
  have hret := returned_ret 4 15 calledCpu 7
  refine ⟨hret, rfl, ?_⟩
  rw [(syscall_resumes (c := callingCpu) hret).1]
  decide

end Kernix.Proofs
