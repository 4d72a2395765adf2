import Kernix.Tasking.Ticks

namespace Kernix.Tasking
open Library Memory

/-! What `task_create` relies on, and what it owes for it. -/

/-- The `bytes` bytes from `base` on. -/
structure Extent where
  base : U32
  bytes : Nat

def Extent.Apart (e f : Extent) : Prop :=
  ∀ x : U32, (x - e.base).toNat < e.bytes → ¬ (x - f.base).toNat < f.bytes

/-- An answer of `kmalloc` to its clients: null, or an aligned block that meets no live one. -/
def Promised (live : List Extent) (size : U32) (block : Extent) (q : U32) : Prop :=
  q = nullptr ∨ q = block.base ∧ q.toNat % 8 = 0 ∧ size.toNat ≤ block.bytes ∧
    ∀ e ∈ live, block.Apart e

/-- A call of `task_create` on the heap as it is by then, with the blocks that others hold, the
block `kmalloc` takes for it and its result. -/
structure StackCall where
  heap : State
  others : List Extent
  block : Extent
  entry : U32
  stackSize : U32
  ok : Bool

/-- The call keeps the block it is given. -/
def StackStep (L : Layout) (k : Scheduler × List Extent) (e : StackCall)
    (k' : Scheduler × List Extent) : Prop :=
  (∀ q s, kmalloc L e.heap (alignedStackSize e.stackSize) = some (q, s) →
    Promised (e.others ++ k.2) (alignedStackSize e.stackSize) e.block q) ∧
  (∃ s, taskCreate L e.heap k.1 e.entry e.stackSize = some (e.ok, s, k'.1)) ∧
  k'.2 = if e.ok then e.block :: k.2 else k.2

/-- A stack of the size asked for, with the frame of its start inside. -/
structure Task.Bounded (k : Task) (requested : U32) : Prop where
  frame : ∀ x, (x - k.esp).toNat < 44 → k.InStack x
  aligned : (k.esp + 44).toNat % 16 = 0
  size : max 1024 requested.toNat ≤ k.stackSize.toNat

end Kernix.Tasking
