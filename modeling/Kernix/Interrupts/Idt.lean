import Kernix.Gdt.Gdt

namespace Kernix.Interrupts
open Library Gdt

def idtEntries : Nat := 256

def irq0Vector : Byte := 32
def irq1Vector : Byte := 33
def syscallVector : Byte := 0x90
def excDivideByZeroVector : Byte := 0
def excGeneralProtectionVector : Byte := 13
def excPageFaultVector : Byte := 14

/-- Where the stubs of `interrupts_entry.asm` lie. -/
structure Stubs where
  isr0Stub : U32
  isr13Stub : U32
  isr14Stub : U32
  irq0Stub : U32
  irq1Stub : U32
  syscallStub : U32

/-- The fields of one entry. -/
def storeGate (L : Tables) (m : Mem) (i : U32) (low selector : BitVec 16) (zero typeAttr : Byte)
    (high : BitVec 16) : Mem :=
  let e := L.gIdt + 8 * i
  let m := m.write16 e low
  let m := m.write16 (e + 2) selector
  let m := m.write8 (e + 4) zero
  let m := m.write8 (e + 5) typeAttr
  m.write16 (e + 6) high

def idtSetGate (L : Tables) (m : Mem) (vector : Byte) (handler : U32) (typeAttr : Byte) : Mem :=
  storeGate L m (vector.setWidth 32) ((handler &&& 0xFFFF).setWidth 16) 0x08 0 typeAttr
    (((handler >>> 16) &&& 0xFFFF).setWidth 16)

/-- The type where a caller gives none. -/
def interruptGate : Byte := 0x8E

/-- The loop of `interrupts_init`. -/
def clearIdt (L : Tables) (m : Mem) : Nat → Mem
  | 0 => m
  | n + 1 => storeGate L (clearIdt L m n) (BitVec.ofNat 32 n) 0 0 0 0 0

/-- What `interrupts_init` stores. -/
def idtTable (L : Tables) (s : Stubs) (m : Mem) : Mem :=
  let m := clearIdt L m idtEntries
  let m := idtSetGate L m excDivideByZeroVector s.isr0Stub interruptGate
  let m := idtSetGate L m excGeneralProtectionVector s.isr13Stub interruptGate
  let m := idtSetGate L m excPageFaultVector s.isr14Stub interruptGate
  let m := idtSetGate L m irq0Vector s.irq0Stub interruptGate
  let m := idtSetGate L m irq1Vector s.irq1Stub interruptGate
  idtSetGate L m syscallVector s.syscallStub 0xEF

/-- `interrupts_init`, less the ports. -/
def idtInit (L : Tables) (s : Stubs) (p : Processor) : Option Processor :=
  { p with mem := idtTable L s p.mem }.lidt ⟨L.gIdt, 8 * 256 - 1⟩

end Kernix.Interrupts
