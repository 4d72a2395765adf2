import Kernix.Library.Runs
import Kernix.Interrupts.Idt

namespace Kernix.Gdt
open Library Processor Interrupts

/-! What the tables are for: the kernel and user code in flat segments, and user code that comes to
the kernel at its handlers only. -/

/-- All of the address space. -/
def flatSegment (access : Byte) : Descriptor := ⟨0, 0xFFFFF, access, 0xC⟩

/-- The segments of the table, apart from the marks of the processor. -/
def segmentOf (L : Tables) : Nat → Descriptor
  | 1 => flatSegment 0x9A
  | 2 => flatSegment 0x92
  | 3 => flatSegment 0xFA
  | 4 => flatSegment 0xF2
  | 5 => ⟨L.gTss, 103, 0x8B, 0⟩
  | _ => ⟨0, 0, 0, 0⟩

def slotOf (L : Tables) (i : Nat) : U32 := L.gGdt + BitVec.ofNat 32 (8 * i)

def gateSlot (L : Tables) (v : Nat) : U32 := L.gIdt + BitVec.ofNat 32 (8 * v)

/-- The stub that a vector goes to, if it has one. -/
def handlerOf (s : Stubs) (v : Byte) : Option U32 :=
  if v = excDivideByZeroVector then some s.isr0Stub
  else if v = excGeneralProtectionVector then some s.isr13Stub
  else if v = excPageFaultVector then some s.isr14Stub
  else if v = irq0Vector then some s.irq0Stub
  else if v = irq1Vector then some s.irq1Stub
  else if v = syscallVector then some s.syscallStub
  else none

/-- The gate of a vector. -/
def gateOf (s : Stubs) (v : Byte) : GateEntry :=
  match handlerOf s v with
  | some stub => ⟨stub, 0x08, if v = syscallVector then 0xEF else interruptGate⟩
  | none => ⟨0, 0, 0⟩

/-- The tables of `m` are those of `m'`, but for the marks that a load leaves. -/
structure SameTables (L : Tables) (m m' : Mem) : Prop where
  gdt : ∀ i < 6, (m'.descriptor (slotOf L i)).touched = (m.descriptor (slotOf L i)).touched
  tss : ∀ x, (x - L.gTss).toNat < 104 → m' x = m x
  idt : ∀ x, (x - L.gIdt).toNat < 2048 → m' x = m x

/-- The segments as the kernel has set them up, with `top` the stack for level 0. -/
structure Segmented (L : Tables) (top : U32) (p : Processor) : Prop where
  gdtr : p.gdtr = ⟨L.gGdt, 47⟩
  tr : p.tr = ⟨tssSelector, some (segmentOf L 5)⟩
  gdt : ∀ i < 6, (p.mem.descriptor (slotOf L i)).touched = (segmentOf L i).touched
  esp0 : p.mem.read32 (L.gTss + tssEsp0) = top
  ss0 : p.mem.read16 (L.gTss + tssSs0) = kernelDsSelector
  iomap : p.mem.read16 (L.gTss + tssIomapBase) = BitVec.ofNat 16 tssSize

/-- And the gates. -/
structure Installed (L : Tables) (s : Stubs) (top : U32) (p : Processor) : Prop
    extends Segmented L top p where
  idtr : p.idtr = ⟨L.gIdt, 2047⟩
  idt : ∀ v : Byte, p.mem.gateEntry (gateSlot L v.toNat) = gateOf s v

/-- The code and stack segments are those of one level. -/
def AtLevel (p : Processor) : Prop :=
  (p.cs = ⟨kernelCsSelector, some (flatSegment 0x9B)⟩ ∧
    p.ss = ⟨kernelDsSelector, some (flatSegment 0x93)⟩) ∨
  (p.cs = ⟨userCsSelector, some (flatSegment 0xFB)⟩ ∧
    p.ss = ⟨userDsSelector, some (flatSegment 0xF3)⟩)

/-- Each data register that is not null holds a segment of the table, and user code none of the
kernel's. -/
def FlatData (p : Processor) : Prop :=
  ∀ r d, (p.data r).descriptor = some d →
    d ∈ [flatSegment 0x9B, flatSegment 0x93, flatSegment 0xFB, flatSegment 0xF3] ∧ p.cpl ≤ d.dpl

/-- What code at either level does, and what comes in from outside. -/
inductive CpuEvent where
  | compute
  | loadData (r : DataRegister) (s : Selector)
  | loadStack (s : Selector)
  | jump (s : Selector) (eip : U32)
  | int (v : Byte)
  | interrupt (v : Byte) (error : Option U32)
  | iret
  | setKernelStack (top : U32)

/-- The steps that do not fault, with the stack that the kernel has set for level 0. Outside of level
0 the processor keeps IOPL. -/
inductive CpuStep (L : Tables) : U32 × Processor → CpuEvent → U32 × Processor → Prop
  | compute {top : U32} {p : Processor} {eip esp eflags : U32} {m : Mem} :
      (p.cpl ≠ 0 → eflags.extractLsb' 12 2 = p.iopl) →
      CpuStep L (top, p) .compute (top, { p with eip := eip, esp := esp, eflags := eflags, mem := m })
  | loadData {top : U32} {p q : Processor} {r : DataRegister} {s : Selector} :
      p.loadData r s = some q → CpuStep L (top, p) (.loadData r s) (top, q)
  | loadStack {top : U32} {p q : Processor} {s : Selector} :
      p.loadStack s = some q → CpuStep L (top, p) (.loadStack s) (top, q)
  | jump {top : U32} {p q : Processor} {s : Selector} {eip : U32} :
      p.jump s eip = some q → CpuStep L (top, p) (.jump s eip) (top, q)
  | int {top : U32} {p q : Processor} {v : Byte} :
      p.int v = some q → CpuStep L (top, p) (.int v) (top, q)
  | interrupt {top : U32} {p q : Processor} {v : Byte} {error : Option U32} :
      p.deliver v error = some q → CpuStep L (top, p) (.interrupt v error) (top, q)
  | iret {top : U32} {p q : Processor} :
      p.iret = some q → CpuStep L (top, p) .iret (top, q)
  | setKernelStack {top top' : U32} {p : Processor} :
      p.cpl = 0 → CpuStep L (top, p) (.setKernelStack top')
        (top', { p with mem := tssSetKernelStack L p.mem top' })

/-- What the code is trusted with, as nothing keeps it from doing otherwise: the tables, which
`paging_init` maps for user code too, are stored into by `tss_set_kernel_stack` alone, and the kernel
does not change IOPL, nor in a frame it returns over. -/
structure Trusted (L : Tables) (k : U32 × Processor) (e : CpuEvent) (k' : U32 × Processor) : Prop where
  tables : (∀ top, e ≠ .setKernelStack top) → SameTables L k.2.mem k'.2.mem
  iopl : k.2.cpl = 0 → k'.2.iopl = k.2.iopl

def TrustedStep (L : Tables) (k : U32 × Processor) (e : CpuEvent) (k' : U32 × Processor) : Prop :=
  CpuStep L k e k' ∧ Trusted L k e k'

/-- The words of an interrupt of user code, last word first. -/
def userFrame (p : Processor) (error : Option U32) : List U32 :=
  error.toList ++ [p.eip, p.cs.selector.setWidth 32, p.eflags, p.esp, p.ss.selector.setWidth 32]

/-- The kernel is where a vector takes it from `p`: at its handler, on the stack for level 0, with
what it needs to go back. -/
structure Entered (s : Stubs) (top : U32) (p : Processor) (v : Byte) (error : Option U32)
    (q : Processor) : Prop where
  handler : handlerOf s v = some q.eip
  cs : q.cs = ⟨kernelCsSelector, some (flatSegment 0x9B)⟩
  ss : q.ss = ⟨kernelDsSelector, some (flatSegment 0x93)⟩
  data : q.data = p.data
  esp : q.esp = top - BitVec.ofNat 32 (4 * (userFrame p error).length)
  frame : q.mem.Words q.esp (userFrame p error)

end Kernix.Gdt
