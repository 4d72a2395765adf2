import Mathlib.Data.Fin.Basic
import Mathlib.Data.List.FinRange
import Mathlib.Logic.Function.Basic
import Kernix.Library.Memory

namespace Library

abbrev Port := BitVec 16

/-- The lowest bit that is set: the line that goes first. -/
def firstLine (b : Byte) : Option (Fin 8) := (List.finRange 8).find? fun i => b.getLsbD i

def lineBit (i : Fin 8) : Byte := 1 <<< i.val

/-- The word that an initialisation takes next. -/
inductive InitWord where
  | icw2
  | icw3
  | icw4
deriving DecidableEq

/-- An 8259 interrupt controller, with lines that are triggered by edges and keep their priorities.
A request stays until it is acknowledged. -/
structure Pic where
  irr : Byte
  isr : Byte
  imr : Byte
  base : Byte
  cascade : Byte
  icw4 : Byte
  single : Bool
  needsIcw4 : Bool
  waits : Option InitWord

namespace Pic

def raise (p : Pic) (i : Fin 8) : Pic := { p with irr := p.irr ||| lineBit i }

/-- The first word of an initialisation. A line that is up now has to come up again. -/
def init (p : Pic) (v : Byte) : Pic :=
  { p with
    irr := 0
    isr := 0
    imr := 0
    icw4 := 0
    single := v.getLsbD 1
    needsIcw4 := v.getLsbD 0
    waits := some .icw2 }

def endOfInterrupt (p : Pic) : Pic :=
  match firstLine p.isr with
  | some i => { p with isr := p.isr &&& ~~~lineBit i }
  | none => p

/-- A byte at the command port. Apart from an initialisation, only the end of interrupt that names
no line is modelled. -/
def command (p : Pic) (v : Byte) : Pic :=
  if v.getLsbD 4 then p.init v
  else if v = 0x20 then p.endOfInterrupt
  else p

def afterIcw3 (p : Pic) : Option InitWord := if p.needsIcw4 then some .icw4 else none

/-- A byte at the data port: a word of the initialisation, or the mask. -/
def data (p : Pic) (v : Byte) : Pic :=
  match p.waits with
  | some .icw2 =>
    { p with base := v &&& 0xF8, waits := if p.single then p.afterIcw3 else some .icw3 }
  | some .icw3 => { p with cascade := v, waits := p.afterIcw3 }
  | some .icw4 => { p with icw4 := v, waits := none }
  | none => { p with imr := v }

/-- The line that is to be served: the first that is not masked, if it goes before those in service.
-/
def asks (p : Pic) : Option (Fin 8) :=
  match firstLine (p.irr &&& ~~~p.imr), firstLine p.isr with
  | some i, none => some i
  | some i, some j => if i < j then some i else none
  | none, _ => none

/-- The acknowledgement of line `i`; in the automatic mode it also ends the interrupt. -/
def serve (p : Pic) (i : Fin 8) : Pic :=
  { p with
    irr := p.irr &&& ~~~lineBit i
    isr := if p.icw4.getLsbD 1 then p.isr else p.isr ||| lineBit i }

def vector (p : Pic) (i : Fin 8) : Byte := p.base ||| BitVec.ofNat 8 i

end Pic

/-- Two controllers, the second one behind line 2 of the first. -/
structure Pics where
  master : Pic
  slave : Pic

namespace Pics

def edge (p : Pics) (line : Fin 16) : Pics :=
  if h : line.val < 8 then { p with master := p.master.raise ⟨line, h⟩ }
  else { p with slave := p.slave.raise ⟨line - 8, by omega⟩ }

/-- The first controller, with what the second one asks for. -/
def cascaded (p : Pics) : Pic := if p.slave.asks.isSome then p.master.raise 2 else p.master

/-- Both are told that the second answers for line 2. -/
def chained (p : Pics) : Bool := p.master.cascade.getLsbD 2 && p.slave.cascade.setWidth 3 == 2#3

/-- The processor's acknowledgement, with the vector it gets. Only the mode for this processor is
modelled. -/
def acknowledge (p : Pics) : Option (Byte × Pics) :=
  if p.master.waits.isSome || !p.master.icw4.getLsbD 0 then none
  else
    match p.cascaded.asks with
    | none => none
    | some i =>
      let master := p.cascaded.serve i
      if i = 2 && p.chained then
        match p.slave.asks with
        | some j => some (p.slave.vector j, ⟨master, p.slave.serve j⟩)
        | none => some (p.slave.vector 7, { p with master := master })
      else some (p.master.vector i, { p with master := master })

end Pics

/-- Channel 0 of an 8254 timer that counts in binary. -/
structure Pit where
  mode : BitVec 3
  access : BitVec 2
  low : Option Byte
  count : BitVec 16

namespace Pit

/-- A byte at the control port; one for another channel, or one that latches, sets nothing here. -/
def control (p : Pit) (v : Byte) : Pit :=
  if v.extractLsb' 6 2 = 0 ∧ v.extractLsb' 4 2 ≠ 0 then
    { p with mode := v.extractLsb' 1 3, access := v.extractLsb' 4 2, low := none }
  else p

/-- A byte at the channel's port: the low byte, the high byte, or the one and then the other. -/
def write (p : Pit) (v : Byte) : Pit :=
  if p.access = 1 then { p with count := 0#8 ++ v }
  else if p.access = 2 then { p with count := v ++ 0#8 }
  else
    match p.low with
    | none => { p with low := some v }
    | some low => { p with low := none, count := v ++ low }

/-- The clocks from one tick to the next; a count of 0 is the longest. `none` is a channel that does
not go on ticking: modes 2 and 3 alone do (6 and 7 are the same two), and not with a count of 1. -/
def period (p : Pit) : Option Nat :=
  if p.mode.getLsbD 1 = false ∨ p.count = 1 then none
  else if p.count = 0 then some 65536
  else some p.count.toNat

end Pit

/-- The output buffer of a keyboard controller. -/
structure KeyController where
  data : Byte
  full : Bool

def KeyController.read (k : KeyController) : Byte × KeyController := (k.data, { k with full := false })

/-- Registers behind an index: one port selects, the other reads and writes. -/
structure Indexed where
  index : Byte
  regs : Byte → Byte

namespace Indexed

def select (r : Indexed) (i : Byte) : Indexed := { r with index := i }

def read (r : Indexed) : Byte := r.regs r.index

def write (r : Indexed) (v : Byte) : Indexed := { r with regs := Function.update r.regs r.index v }

end Indexed

end Library
