import Kernix.Library.Stack

namespace Library

/-! Segments and privilege levels of an x86 in protected mode, without a local descriptor table, task
switches and virtual 8086 mode. Linear addresses are those of the memory. -/

abbrev Selector := BitVec 16

namespace Selector

/-- The privilege level that is asked for. -/
def rpl (s : Selector) : BitVec 2 := s.setWidth 2

def index (s : Selector) : Nat := s.toNat / 8

def isLocal (s : Selector) : Bool := s.getLsbD 2

def isNull (s : Selector) : Bool := s.index = 0 && !s.isLocal

def withRpl (s : Selector) (l : BitVec 2) : Selector := s.extractLsb' 2 14 ++ l

end Selector

/-- What the processor takes from the eight bytes of an entry. -/
@[ext] structure Descriptor where
  base : U32
  limit : BitVec 20
  access : Byte
  flags : BitVec 4
deriving DecidableEq

namespace Descriptor

def present (d : Descriptor) : Bool := d.access.getLsbD 7

def dpl (d : Descriptor) : BitVec 2 := d.access.extractLsb' 5 2

/-- A segment of code or data, and not one of the system's. -/
def ordinary (d : Descriptor) : Bool := d.access.getLsbD 4

def executable (d : Descriptor) : Bool := d.access.getLsbD 3

/-- Of code; of data, that the segment expands down. -/
def conforming (d : Descriptor) : Bool := d.access.getLsbD 2

/-- Of code, that it can be read; of data, that it can be written. -/
def permits (d : Descriptor) : Bool := d.access.getLsbD 1

def big (d : Descriptor) : Bool := d.flags.getLsbD 2

def granular (d : Descriptor) : Bool := d.flags.getLsbD 3

def lastOffset (d : Descriptor) : Nat :=
  if d.granular then d.limit.toNat * 4096 + 4095 else d.limit.toNat

/-- The `n` bytes at an offset lie in the segment. -/
def Within (d : Descriptor) (offset : U32) (n : Nat) : Prop :=
  if d.executable = false ∧ d.conforming = true then
    d.lastOffset < offset.toNat ∧ offset.toNat + n ≤ if d.big then 2 ^ 32 else 2 ^ 16
  else offset.toNat + n ≤ d.lastOffset + 1

instance (d : Descriptor) (offset : U32) (n : Nat) : Decidable (d.Within offset n) := by
  unfold Within
  infer_instance

/-- Where the `n` bytes at an offset are; `none` is a fault. -/
def linear (d : Descriptor) (offset : U32) (n : Nat) : Option U32 :=
  if d.Within offset n then some (d.base + offset) else none

/-- A load marks the segment as accessed. -/
def touched (d : Descriptor) : Descriptor := { d with access := d.access ||| 1 }

/-! What each kind of load asks of the descriptor. -/

def loadsData (d : Descriptor) (cpl rpl : BitVec 2) : Bool :=
  d.ordinary && d.present && (!d.executable || d.permits) &&
    (d.executable && d.conforming || decide (cpl ≤ d.dpl) && decide (rpl ≤ d.dpl))

def loadsStack (d : Descriptor) (cpl rpl : BitVec 2) : Bool :=
  d.ordinary && d.present && !d.executable && d.permits && d.dpl == cpl && rpl == cpl

def jumpsTo (d : Descriptor) (cpl rpl : BitVec 2) : Bool :=
  d.ordinary && d.present && d.executable &&
    if d.conforming then decide (d.dpl ≤ cpl) else d.dpl == cpl && decide (rpl ≤ cpl)

/-- A return goes to the level of the selector, and never inwards. -/
def returnsTo (d : Descriptor) (cpl rpl : BitVec 2) : Bool :=
  decide (cpl ≤ rpl) && d.ordinary && d.present && d.executable &&
    if d.conforming then decide (d.dpl ≤ rpl) else d.dpl == rpl

/-- The code of a gate runs at its own level, or at the present one where it conforms. -/
def enters (d : Descriptor) (cpl : BitVec 2) : Bool :=
  d.ordinary && d.present && d.executable && decide (d.dpl ≤ cpl)

/-- A 32-bit task state segment that is not in use. -/
def availableTask (d : Descriptor) : Bool := d.present && d.access.setWidth 5 == 0x09#5

def busy (d : Descriptor) : Descriptor := { d with access := d.access ||| 2 }

end Descriptor

/-- An entry of the interrupt table. -/
@[ext] structure GateEntry where
  offset : U32
  selector : Selector
  access : Byte
deriving DecidableEq

namespace GateEntry

def present (g : GateEntry) : Bool := g.access.getLsbD 7

def dpl (g : GateEntry) : BitVec 2 := g.access.extractLsb' 5 2

/-- A 32-bit interrupt gate or trap gate. -/
def valid (g : GateEntry) : Bool := g.access.extractLsb' 1 4 == 0x7#4

/-- An interrupt gate and not a trap gate. -/
def clearsIf (g : GateEntry) : Bool := !g.access.getLsbD 0

end GateEntry

namespace Mem

def read16 (m : Mem) (a : U32) : BitVec 16 := m (a + 1) ++ m a

def write16 (m : Mem) (a : U32) (v : BitVec 16) : Mem :=
  (m.write8 a (v.setWidth 8)).write8 (a + 1) (v.extractLsb' 8 8)

def descriptor (m : Mem) (a : U32) : Descriptor :=
  { base := m (a + 7) ++ m (a + 4) ++ m (a + 3) ++ m (a + 2)
    limit := (m (a + 6)).setWidth 4 ++ m (a + 1) ++ m a
    access := m (a + 5)
    flags := (m (a + 6)).extractLsb' 4 4 }

def gateEntry (m : Mem) (a : U32) : GateEntry :=
  { offset := m.read16 (a + 6) ++ m.read16 a
    selector := m.read16 (a + 2)
    access := m (a + 5) }

end Mem

structure Table where
  base : U32
  limit : BitVec 16

namespace Table

/-- Where entry `i` is; `none` is a fault. -/
def entry (t : Table) (i : Nat) : Option U32 :=
  if 8 * i + 7 ≤ t.limit.toNat then some (t.base + BitVec.ofNat 32 (8 * i)) else none

/-- Where the entry of a selector is. There is no local table. -/
def find (t : Table) (s : Selector) : Option U32 := if s.isLocal then none else t.entry s.index

end Table

/-- The selector and what was loaded with it; `none` is a null selector's. -/
structure SegmentRegister where
  selector : Selector
  descriptor : Option Descriptor
deriving DecidableEq

inductive DataRegister where
  | ds
  | es
  | fs
  | gs
deriving DecidableEq

/-- The processor, less the registers that segments have no part in. -/
structure Processor where
  eip : U32
  esp : U32
  eflags : U32
  cs : SegmentRegister
  ss : SegmentRegister
  data : DataRegister → SegmentRegister
  tr : SegmentRegister
  gdtr : Table
  idtr : Table
  mem : Mem

namespace Processor

/-- The privilege level. -/
def cpl (p : Processor) : BitVec 2 := p.cs.selector.rpl

/-- The levels up to this one can use the ports. -/
def iopl (p : Processor) : BitVec 2 := p.eflags.extractLsb' 12 2

/-- A load of the entry of `s`, where `ok` lets it through. -/
def fetch (p : Processor) (s : Selector) (ok : Descriptor → Bool) : Option (Descriptor × Mem) := do
  let a ← p.gdtr.find s
  let d := p.mem.descriptor a
  if ok d then some (d.touched, p.mem.write8 (a + 5) d.touched.access) else none

def loadData (p : Processor) (r : DataRegister) (s : Selector) : Option Processor :=
  if s.isNull then some { p with data := Function.update p.data r ⟨s, none⟩ }
  else do
    let (d, mem) ← p.fetch s (·.loadsData p.cpl s.rpl)
    return { p with data := Function.update p.data r ⟨s, some d⟩, mem := mem }

def loadStack (p : Processor) (s : Selector) : Option Processor :=
  if s.isNull then none
  else do
    let (d, mem) ← p.fetch s (·.loadsStack p.cpl s.rpl)
    return { p with ss := ⟨s, some d⟩, mem := mem }

/-- A far jump or call to a segment of code. -/
def jump (p : Processor) (s : Selector) (eip : U32) : Option Processor :=
  if s.isNull then none
  else do
    let (d, mem) ← p.fetch s (·.jumpsTo p.cpl s.rpl)
    return { p with cs := ⟨s.withRpl p.cpl, some d⟩, eip := eip, mem := mem }

def lgdt (p : Processor) (t : Table) : Option Processor :=
  if p.cpl = 0 then some { p with gdtr := t } else none

def lidt (p : Processor) (t : Table) : Option Processor :=
  if p.cpl = 0 then some { p with idtr := t } else none

def ltr (p : Processor) (s : Selector) : Option Processor :=
  if p.cpl ≠ 0 ∨ s.isNull then none
  else do
    let a ← p.gdtr.find s
    let d := p.mem.descriptor a
    if d.availableTask then
      return { p with tr := ⟨s, some d.busy⟩, mem := p.mem.write8 (a + 5) d.busy.access }
    else none

/-- Where the word `i` words above the stack pointer is. -/
def stackAt (p : Processor) (i : Nat) : Option U32 := do
  let d ← p.ss.descriptor
  d.linear (p.esp + BitVec.ofNat 32 (4 * i)) 4

def slot (p : Processor) (i : Nat) : Option U32 := (p.stackAt i).map p.mem.read32

def push (p : Processor) (v : U32) : Option Processor := do
  let d ← p.ss.descriptor
  let a ← d.linear (p.esp - 4) 4
  return { p with esp := p.esp - 4, mem := p.mem.write32 a v }

def pushes (p : Processor) (ws : List U32) : Option Processor := ws.foldlM push p

/-- The stack that the task state segment has for level 0. -/
def innerStack (p : Processor) : Option (Selector × U32) := do
  let d ← p.tr.descriptor
  let esp0 ← d.linear 4 4
  let ss0 ← d.linear 8 2
  return (p.mem.read16 ss0, p.mem.read32 esp0)

/-- The stack of level 0 is switched to. -/
def switchStack (p : Processor) : Option Processor := do
  let (s, esp) ← p.innerStack
  if s.isNull then none
  else
    let (d, mem) ← p.fetch s (·.loadsStack 0 s.rpl)
    return { p with ss := ⟨s, some d⟩, esp := esp, mem := mem }

/-- TF, NT, RF and VM, which every gate clears. -/
def gateFlags : U32 := 0x00034100

def flagIf : U32 := 0x00000200

def flagIopl : U32 := 0x00003000

/-- The pushes of an interrupt, and the level it goes on at. Code at neither level 0 nor the present
one is left out. -/
def enter (p : Processor) (d : Descriptor) (words : List U32) : Option (Processor × BitVec 2) :=
  if d.conforming || d.dpl == p.cpl then (p.pushes words).map (·, p.cpl)
  else if d.dpl == 0 then do
    let inner ← p.switchStack
    (inner.pushes ([p.ss.selector.setWidth 32, p.esp] ++ words)).map (·, 0)
  else none

/-- An interrupt or an exception, with its error code if it has one. -/
def deliver (p : Processor) (v : Byte) (error : Option U32) : Option Processor := do
  let a ← p.idtr.entry v.toNat
  let g := p.mem.gateEntry a
  if g.valid && g.present && !g.selector.isNull then
    let (d, mem) ← p.fetch g.selector (·.enters p.cpl)
    let (p', level) ← { p with mem := mem }.enter d
      ([p.eflags, p.cs.selector.setWidth 32, p.eip] ++ error.toList)
    let cleared := if g.clearsIf then gateFlags ||| flagIf else gateFlags
    return { p' with
      cs := ⟨g.selector.withRpl level, some d⟩
      eip := g.offset
      eflags := p.eflags &&& ~~~cleared }
  else none

/-- `int v`: the gate has to admit the present level. -/
def int (p : Processor) (v : Byte) : Option Processor := do
  let a ← p.idtr.entry v.toNat
  if p.cpl ≤ (p.mem.gateEntry a).dpl then p.deliver v none else none

/-- The flags a return at the present level puts back. -/
def restoredFlags (p : Processor) (eflags : U32) : U32 :=
  let kept := (if p.cpl = 0 then 0 else flagIopl) |||
    if p.cpl ≤ p.iopl then 0 else flagIf
  (eflags &&& ~~~kept) ||| (p.eflags &&& kept)

/-- What a return outwards leaves of a data register. -/
def outerData (cpl : BitVec 2) (r : SegmentRegister) : SegmentRegister :=
  match r.descriptor with
  | some d => if !(d.executable && d.conforming) && decide (d.dpl < cpl) then ⟨0, none⟩ else r
  | none => r

def iret (p : Processor) : Option Processor := do
  let eip ← p.slot 0
  let cs ← p.slot 1
  let eflags ← p.slot 2
  let s : Selector := cs.setWidth 16
  if s.isNull then none
  else
    let (d, mem) ← p.fetch s (·.returnsTo p.cpl s.rpl)
    let p' := { p with cs := ⟨s, some d⟩, eip := eip, eflags := p.restoredFlags eflags, mem := mem }
    if s.rpl = p.cpl then return { p' with esp := p.esp + 12 }
    else
      let esp ← p.slot 3
      let ss ← p.slot 4
      let p' := { p' with esp := esp, data := fun r => outerData s.rpl (p.data r) }
      p'.loadStack (ss.setWidth 16)

/-- Whether the I/O map of the task state segment has a port open. -/
def portMapped (p : Processor) (port : BitVec 16) : Bool :=
  match p.tr.descriptor with
  | some d =>
    match d.linear 102 2 with
    | some a =>
      let offset := (p.mem.read16 a).toNat + port.toNat / 8
      if offset + 1 ≤ d.lastOffset then
        !(p.mem.read16 (d.base + BitVec.ofNat 32 offset)).getLsbD (port.toNat % 8)
      else false
    | none => false
  | none => false

/-- Whether `in` and `out` go through. The map is not asked up to the level of `iopl`. -/
def portAllowed (p : Processor) (port : BitVec 16) : Bool :=
  decide (p.cpl ≤ p.iopl) || p.portMapped port

end Processor

end Library
