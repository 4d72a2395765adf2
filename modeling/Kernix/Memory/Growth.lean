import Mathlib.Data.Finset.Card
import Mathlib.Data.Finset.Image
import Kernix.Memory.Client

namespace Kernix.Memory
open Library

/-- The pages `kmalloc` asks `extend_heap_to_fit` for. -/
def kmallocPages (s : State) (size : U32) : Nat :=
  let r := alignUp size allocAlign
  if size = 0 ∨ s.gHeapHead = nullptr ∨ findFreeBlock s r ≠ some nullptr then 0
  else
    match lastBlock s with
    | some tail =>
      if tail = nullptr ∨
          ((HeapBlock.load s.mem tail).free ≠ 0 ∧ r ≤ (HeapBlock.load s.mem tail).size) then 0
      else (pagesNeeded (HeapBlock.load s.mem tail) r).toNat
    | none => 0

def Request.pages (s : State) : Request → Nat
  | .kmalloc size => kmallocPages s size
  | .kcalloc count size =>
    if 2 ^ 32 ≤ count.toNat * size.toNat then 0 else kmallocPages s (count * size)
  | .krealloc ptr newSize =>
    if ptr = nullptr then kmallocPages s newSize
    else if newSize = 0 ∨ blockFromPtr s ptr = nullptr ∨
        (HeapBlock.load s.mem (blockFromPtr s ptr)).free ≠ 0 ∨ FitsInPlace s ptr newSize then 0
    else kmallocPages s (alignUp newSize allocAlign)
  | .kfree _ | .write _ _ => 0

/-- The loop of `extend_heap_to_fit` without its test: `n` pages mapped and counted. -/
def growPages (L : Layout) : Nat → State → State
  | 0, s => s
  | n + 1, s =>
    growPages L n
      { s with
        paging := mapPage L s.paging s.gHeapMappedEnd s.gNextFreePhys pageFlagRw
        gHeapMappedEnd := s.gHeapMappedEnd + pageSize
        gNextFreePhys := s.gNextFreePhys + pageSize }

/-- How many of `n` pages fit below the limit. -/
def pagesBelowLimit (s : State) (n : Nat) : Nat :=
  min n ((2 ^ 26 - s.gHeapMappedEnd.toNat) / 4096)

def unusedTables (pg : Paging) : Finset Nat :=
  (Finset.range pageTablePoolCount).filter fun i => pg.pageTableUsed i = false

/-- The directory slots without a table that the `n` pages from page `first` on fall into. -/
def newSlots (L : Layout) (pg : Paging) (first n : Nat) : Finset Nat :=
  ((Finset.range n).image fun k => (first + k) / 1024).filter
    fun d => getPageTable L pg (BitVec.ofNat 32 d) = nullptr

/-- The pool has a table for every directory slot the growth needs one for. -/
def PoolSuffices (L : Layout) (s : State) (n : Nat) : Prop :=
  (newSlots L s.paging (s.gHeapMappedEnd.toNat / 4096) (pagesBelowLimit s n)).card ≤
    (unusedTables s.paging).card

/-- What `kmalloc` counts on once `extend_heap_to_fit` has returned true: the last block is free and
holds `requiredSize` bytes, mapped to the last one. -/
def TailHolds (s : State) (requiredSize : U32) : Prop :=
  ∃ tail, lastBlock s = some tail ∧ tail ≠ nullptr ∧
    (HeapBlock.load s.mem tail).free ≠ 0 ∧ requiredSize ≤ (HeapBlock.load s.mem tail).size ∧
    tail < s.gHeapMappedEnd ∧
    tail.toNat + 24 + (HeapBlock.load s.mem tail).size.toNat ≤ s.gHeapMappedEnd.toNat

/-- The bytes a growth asks for round up to a page below 2^32, or no page is left for it. -/
def RoundsUp (s : State) (requiredSize : U32) : Prop :=
  ∀ tail, lastBlock s = some tail →
    if (HeapBlock.load s.mem tail).free ≠ 0 then
      requiredSize - (HeapBlock.load s.mem tail).size ≤ 0xFFFFF000
    else
      requiredSize.toNat + 24 ≤ 0xFFFFF000 ∨
        0xFFFFFFF0 ≤ requiredSize ∧ s.gHeapMappedEnd = heapVirtLimit

/-- A request with any arguments, and the pointer it returned. -/
def HeapStep (L : Layout) (s : State) (e : Event) (s' : State) : Prop :=
  serve L s e.1 = some (e.2, s')

/-- A heap request with the pointer it returned, or a call of the paging interface by other code. -/
inductive SystemEvent where
  | heap (e : Event)
  | mapPage (virt phys flags : U32)
  | unmapPage (virt : U32)

def SystemStep (L : Layout) (s : State) : SystemEvent → State → Prop
  | .heap e, s' => HeapStep L s e s'
  | .mapPage virt phys flags, s' =>
    heapVirtLimit ≤ virt ∧ s' = { s with paging := Memory.mapPage L s.paging virt phys flags }
  | .unmapPage virt, s' =>
    heapVirtLimit ≤ virt ∧ s' = { s with paging := Memory.unmapPage L s.paging virt }

def SystemEvent.PoolSuffices (L : Layout) (s : State) : SystemEvent → Prop
  | .heap e => Memory.PoolSuffices L s (e.1.pages s)
  | .mapPage _ _ _ | .unmapPage _ => True

end Kernix.Memory
