import Kernix.Library.Stack

namespace Kernix.Interrupts
open Library

/-- The registers an interrupt and `pushad` save. -/
@[ext] structure Regs where
  eax : U32
  ecx : U32
  edx : U32
  ebx : U32
  esp : U32
  ebp : U32
  esi : U32
  edi : U32
  eip : U32
  eflags : U32
  cs : BitVec 16

@[ext] structure Segments where
  ds : BitVec 16
  es : BitVec 16
  fs : BitVec 16
  gs : BitVec 16

/-- The processor at one privilege level, with the memory. Inside a stub `eip` is not
followed: only an interrupt and `iretd` read it or set it. -/
structure Cpu where
  regs : Regs
  segs : Segments
  mem : Mem

namespace Cpu

def withEsp (c : Cpu) (esp : U32) : Cpu := { c with regs := { c.regs with esp := esp } }

def withEax (c : Cpu) (eax : U32) : Cpu := { c with regs := { c.regs with eax := eax } }

/-- The pushes of `ws`, in order. -/
def pushes (c : Cpu) (ws : List U32) : Cpu :=
  { c.withEsp (c.regs.esp - BitVec.ofNat 32 (4 * ws.length)) with
    mem := c.mem.pushWords c.regs.esp ws }

def push (c : Cpu) (v : U32) : Cpu := c.pushes [v]

/-- The word `i` words above the stack pointer. -/
def slot (c : Cpu) (i : Nat) : U32 := c.mem.read32 (c.regs.esp + BitVec.ofNat 32 (4 * i))

/-- `add esp, 4 * n`. -/
def drop (c : Cpu) (n : Nat) : Cpu := c.withEsp (c.regs.esp + BitVec.ofNat 32 (4 * n))

/-- `pop gs`, `pop fs`, `pop es`, `pop ds`. -/
def popSegments (c : Cpu) : Cpu :=
  { c.drop 4 with
    segs :=
      { gs := (c.slot 0).setWidth 16
        fs := (c.slot 1).setWidth 16
        es := (c.slot 2).setWidth 16
        ds := (c.slot 3).setWidth 16 } }

/-- `mov ax, v`: the upper half of `eax` stays. -/
def movAx (c : Cpu) (v : BitVec 16) : Cpu := c.withEax (c.regs.eax.extractLsb' 16 16 ++ v)

def ax (c : Cpu) : BitVec 16 := c.regs.eax.setWidth 16

/-- `pushad`; the stack pointer it pushes is the one before it. -/
def pushad (c : Cpu) : Cpu :=
  c.pushes [c.regs.eax, c.regs.ecx, c.regs.edx, c.regs.ebx, c.regs.esp, c.regs.ebp, c.regs.esi,
    c.regs.edi]

/-- `popad`; the word for the stack pointer is passed over. -/
def popad (c : Cpu) : Cpu :=
  { c with
    regs :=
      { c.regs with
        edi := c.slot 0
        esi := c.slot 1
        ebp := c.slot 2
        ebx := c.slot 4
        edx := c.slot 5
        ecx := c.slot 6
        eax := c.slot 7
        esp := c.regs.esp + BitVec.ofNat 32 (4 * 8) } }

def iretd (c : Cpu) : Cpu :=
  { c with
    regs :=
      { c.regs with
        eip := c.slot 0
        cs := (c.slot 1).setWidth 16
        eflags := c.slot 2
        esp := c.regs.esp + BitVec.ofNat 32 (4 * 3) } }

/-- A gate of the interrupt table, as `idt_set_gate` fills it. Type 0xE clears IF, type 0xF
leaves it. -/
structure Gate where
  offset : U32
  selector : BitVec 16
  clearsIf : Bool

/-- TF, NT, RF and VM. -/
def gateFlags : U32 := 0x00034100

def flagIf : U32 := 0x00000200

/-- The processor takes an interrupt, without a change of privilege level. -/
def interrupt (c : Cpu) (g : Gate) : Cpu :=
  let c' := c.pushes [c.regs.eflags, c.regs.cs.setWidth 32, c.regs.eip]
  let cleared := if g.clearsIf then gateFlags ||| flagIf else gateFlags
  { c' with
    regs :=
      { c'.regs with eip := g.offset, cs := g.selector, eflags := c.regs.eflags &&& ~~~cleared } }

/-- Argument `i` of a cdecl function that is at its first instruction. -/
def argument (c : Cpu) (i : Nat) : U32 := c.slot (i + 1)

/-- `ret` of a function that returns `r` and changes nothing else. -/
def ret (c : Cpu) (r : U32) : Cpu := (c.drop 1).withEax r

/-- What a cdecl function of `args` arguments, entered at `c`, has kept when it has returned in
`c'`: the callee-saved registers, and the `saved` words above its arguments. -/
structure Returned (args saved : Nat) (c c' : Cpu) : Prop where
  esp : c'.regs.esp = c.regs.esp + 4
  ebx : c'.regs.ebx = c.regs.ebx
  ebp : c'.regs.ebp = c.regs.ebp
  esi : c'.regs.esi = c.regs.esi
  edi : c'.regs.edi = c.regs.edi
  segs : c'.segs = c.segs
  frame : ∀ x, (x - (c.regs.esp + BitVec.ofNat 32 (4 * (args + 1)))).toNat < 4 * saved →
    c'.mem x = c.mem x

theorem returned_ret (args saved : Nat) (c : Cpu) (r : U32) : Returned args saved c (c.ret r) :=
  ⟨rfl, rfl, rfl, rfl, rfl, rfl, fun _ _ => rfl⟩

end Cpu
end Kernix.Interrupts
