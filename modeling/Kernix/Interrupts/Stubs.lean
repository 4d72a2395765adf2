import Kernix.Interrupts.Cpu

namespace Kernix.Interrupts
open Library Cpu

/-- The gates of `interrupts_init`: type 0x8E for the interrupts, 0xEF for `int 0x90`. -/
def irqGate (stub : U32) : Gate := ⟨stub, 0x08, true⟩

def syscallGate (stub : U32) : Gate := ⟨stub, 0x08, false⟩

/-- The first pushes of `syscall_stub`. -/
def saveRegisters (c : Cpu) : Cpu :=
  let c := c.pushad
  c.pushes [c.segs.ds.setWidth 32, c.segs.es.setWidth 32, c.segs.fs.setWidth 32,
    c.segs.gs.setWidth 32]

/-- The kernel's data selector goes through `ax` into the segment registers. -/
def loadKernelSegments (c : Cpu) : Cpu :=
  let c := c.movAx 0x10
  { c with segs := ⟨c.ax, c.ax, c.ax, c.ax⟩ }

/-- `syscall_stub` as far as its call; the handler returns to `ret`. -/
def syscallEntry (ret : U32) (c : Cpu) : Cpu :=
  let c := loadKernelSegments (saveRegisters c)
  let c := c.pushes [c.regs.edx, c.regs.ecx, c.regs.ebx, c.regs.eax]
  c.push ret

/-- `syscall_stub` from the return of the handler on. -/
def syscallExit (c : Cpu) : Cpu :=
  (c.drop 4).popSegments.popad.iretd

/-- `irq0_stub` as far as its call. -/
def irq0Entry (ret : U32) (c : Cpu) : Cpu :=
  let c := c.pushad
  let c := c.withEax c.regs.esp
  let c := c.push c.regs.eax
  c.push ret

/-- `irq0_stub` from the return of the handler on. -/
def irq0Exit (c : Cpu) : Cpu :=
  let c := c.drop 1
  let c := c.withEsp c.regs.eax
  c.popad.iretd

end Kernix.Interrupts
