import Kernix.Memory.Paging

namespace Kernix.Memory
open Library

def identityMapLimit : U32 := 0x00400000
def physAllocStart : U32 := identityMapLimit
def heapVirtLimit : U32 := 0x04000000

def allocAlign : U32 := 8
def blockMagic : U32 := 0x4B484541

/-- `struct HeapBlock` as the bytes at a block's address spell it. -/
structure HeapBlock where
  magic : U32
  size : U32
  free : U32
  prev : U32
  next : U32

namespace HeapBlock

def load (m : Mem) (block : U32) : HeapBlock where
  magic := m.read32 block
  size := m.read32 (block + 4)
  free := m.read32 (block + 8)
  prev := m.read32 (block + 12)
  next := m.read32 (block + 16)

/-- The twenty bytes of a header, padding left out. -/
def InHeader (a x : U32) : Prop := (x - a).toNat < 20

def setMagic (m : Mem) (block v : U32) : Mem := m.write32 block v
def setSize (m : Mem) (block v : U32) : Mem := m.write32 (block + 4) v
def setFree (m : Mem) (block v : U32) : Mem := m.write32 (block + 8) v
def setPrev (m : Mem) (block v : U32) : Mem := m.write32 (block + 12) v
def setNext (m : Mem) (block v : U32) : Mem := m.write32 (block + 16) v

end HeapBlock

open HeapBlock

/-- The file's globals, with the memory the heap lives in. The paging arrays
are kept apart from it. -/
structure State where
  mem : Mem
  paging : Paging
  gNextFreePhys : U32
  gHeapStart : U32
  gHeapMappedEnd : U32
  gHeapHead : U32

def headerSize : U32 := alignUp 20 allocAlign

def minSplitPayload : U32 := allocAlign

def blockPayload (block : U32) : U32 := block + headerSize

def ptrInHeap (s : State) (ptr : U32) : Bool :=
  decide (s.gHeapStart ≤ ptr) && decide (ptr < s.gHeapMappedEnd)

/-- A list walk that has taken this many steps has met some address twice, and
nothing is written during a walk, so it never ends. Running out of fuel, `none`
below, is exactly the walk that does not return. -/
def walkFuel : Nat := 2 ^ 32 + 1

def lastBlockLoop (m : Mem) : Nat → U32 → Option U32
  | 0, _ => none
  | fuel + 1, block =>
    if (load m block).next ≠ nullptr then lastBlockLoop m fuel (load m block).next
    else some block

def lastBlock (s : State) : Option U32 :=
  if s.gHeapHead = nullptr then some nullptr
  else lastBlockLoop s.mem walkFuel s.gHeapHead

def findFreeBlockLoop (m : Mem) (requiredSize : U32) : Nat → U32 → Option U32
  | 0, _ => none
  | fuel + 1, block =>
    if block = nullptr then some nullptr
    else if (load m block).magic = blockMagic ∧ (load m block).free ≠ 0 ∧
        requiredSize ≤ (load m block).size then some block
    else findFreeBlockLoop m requiredSize fuel (load m block).next

def findFreeBlock (s : State) (requiredSize : U32) : Option U32 :=
  findFreeBlockLoop s.mem requiredSize walkFuel s.gHeapHead

def splitBlock (m : Mem) (block requiredSize : U32) : Mem :=
  let hsize := headerSize
  if (load m block).size < requiredSize + hsize + minSplitPayload then m
  else
    let newBlock := blockPayload block + requiredSize
    let m := setMagic m newBlock blockMagic
    let m := setSize m newBlock ((load m block).size - requiredSize - hsize)
    let m := setFree m newBlock 1
    let m := setPrev m newBlock block
    let m := setNext m newBlock (load m block).next
    let m := if (load m newBlock).next ≠ nullptr then setPrev m (load m newBlock).next newBlock
      else m
    let m := setSize m block requiredSize
    setNext m block newBlock

def coalesceWithNext (m : Mem) (block : U32) : Mem :=
  let next := (load m block).next
  if next = nullptr ∨ (load m next).free = 0 ∨ (load m next).magic ≠ blockMagic then m
  else
    let m := setSize m block ((load m block).size + (headerSize + (load m next).size))
    let m := setNext m block (load m next).next
    if (load m block).next ≠ nullptr then setPrev m (load m block).next block else m

def blockFromPtr (s : State) (ptr : U32) : U32 :=
  if ptr = nullptr ∨ ¬ ptrInHeap s ptr then nullptr
  else if ptr < s.gHeapStart + headerSize then nullptr
  else
    let block := ptr - headerSize
    if ¬ ptrInHeap s block ∨ (load s.mem block).magic ≠ blockMagic then nullptr else block

/-- The loop of `extend_heap_to_fit`: one page a turn, `false` when it meets the limit. -/
def extendLoop (L : Layout) : Nat → State → Bool × State
  | 0, s => (true, s)
  | pages + 1, s =>
    if heapVirtLimit ≤ s.gHeapMappedEnd then (false, s)
    else
      extendLoop L pages
        { s with
          paging := mapPage L s.paging s.gHeapMappedEnd s.gNextFreePhys pageFlagRw
          gHeapMappedEnd := s.gHeapMappedEnd + pageSize
          gNextFreePhys := s.gNextFreePhys + pageSize }

/-- `pages_needed` for a heap whose last block is `tail`. -/
def pagesNeeded (tail : HeapBlock) (requiredSize : U32) : U32 :=
  let neededPayload := if tail.free ≠ 0 then requiredSize - tail.size else requiredSize + headerSize
  alignUp neededPayload pageSize / pageSize

/-- What follows the loop of `extend_heap_to_fit`: the last block takes the new pages,
or a new block is made of them. -/
def growTail (m : Mem) (tail addedBytes : U32) : Mem :=
  if (load m tail).free ≠ 0 then setSize m tail ((load m tail).size + addedBytes)
  else
    let newBlock := tail + headerSize + (load m tail).size
    let m := setMagic m newBlock blockMagic
    let m := setSize m newBlock (addedBytes - headerSize)
    let m := setFree m newBlock 1
    let m := setPrev m newBlock tail
    let m := setNext m newBlock nullptr
    setNext m tail newBlock

def extendHeapToFit (L : Layout) (s : State) (requiredSize : U32) : Option (Bool × State) := do
  if s.gHeapHead = nullptr then return (false, s)
  let tail ← lastBlock s
  if tail = nullptr then return (false, s)
  if (load s.mem tail).free ≠ 0 ∧ requiredSize ≤ (load s.mem tail).size then return (true, s)
  let pages := pagesNeeded (load s.mem tail) requiredSize
  match extendLoop L pages.toNat s with
  | (false, s) => return (false, s)
  | (true, s) => return (true, { s with mem := growTail s.mem tail (pages * pageSize) })

/-- `kernel_end` is the address the linker gives that symbol. -/
def kmallocInit (kernelEnd : U32) (s : State) : State :=
  let hsize := headerSize
  let heapStart := alignUp kernelEnd allocAlign
  if identityMapLimit ≤ heapStart + hsize + minSplitPayload then
    { s with gHeapStart := 0, gHeapMappedEnd := 0, gHeapHead := nullptr }
  else
    let head := heapStart
    let m := setMagic s.mem head blockMagic
    let m := setSize m head (identityMapLimit - heapStart - hsize)
    let m := setFree m head 1
    let m := setPrev m head nullptr
    let m := setNext m head nullptr
    { s with
      mem := m
      gNextFreePhys := alignUp physAllocStart pageSize
      gHeapStart := heapStart
      gHeapMappedEnd := identityMapLimit
      gHeapHead := head }

/-- The end of `kmalloc`, once a block is found. -/
def handOut (s : State) (block alignedSize : U32) : U32 × State :=
  (blockPayload block, { s with mem := setFree (splitBlock s.mem block alignedSize) block 0 })

def kmalloc (L : Layout) (s : State) (size : U32) : Option (U32 × State) := do
  if size = 0 ∨ s.gHeapHead = nullptr then return (nullptr, s)
  let alignedSize := alignUp size allocAlign
  let block ← findFreeBlock s alignedSize
  if block ≠ nullptr then return handOut s block alignedSize
  let (fits, s) ← extendHeapToFit L s alignedSize
  if !fits then return (nullptr, s)
  let block ← findFreeBlock s alignedSize
  if block = nullptr then return (nullptr, s)
  return handOut s block alignedSize

def kfree (s : State) (ptr : U32) : State :=
  let block := blockFromPtr s ptr
  if block = nullptr ∨ (load s.mem block).free ≠ 0 then s
  else
    let m := setFree s.mem block 1
    let m := coalesceWithNext m block
    let prev := (load m block).prev
    if prev ≠ nullptr ∧ (load m prev).free ≠ 0 then { s with mem := coalesceWithNext m prev }
    else { s with mem := m }

/-- The 64-bit product of two 32-bit values is their product. -/
def kcalloc (L : Layout) (s : State) (count size : U32) : Option (U32 × State) := do
  if count = 0 ∨ size = 0 then return (nullptr, s)
  let total64 := count.toNat * size.toNat
  if 0xFFFFFFFF < total64 then return (nullptr, s)
  let total := BitVec.ofNat 32 total64
  let (ptr, s) ← kmalloc L s total
  if ptr = nullptr then return (nullptr, s)
  return (ptr, { s with mem := s.mem.storeBytes ptr (fun _ => 0) total.toNat })

def ksize (s : State) (ptr : U32) : U32 :=
  let block := blockFromPtr s ptr
  if block = nullptr ∨ (load s.mem block).free ≠ 0 then 0 else (load s.mem block).size

/-- The copy loop of `krealloc`. It reads `block->size` again at every turn;
`i` stops short of 2^32 whatever that is, so 2^32 turns are enough. -/
def copyLoop (block dst src : U32) : Nat → U32 → Mem → Mem
  | 0, _, m => m
  | fuel + 1, i, m =>
    if i < (load m block).size then
      copyLoop block dst src fuel (i + 1) (m.write8 (dst + i) (m (src + i)))
    else m

def krealloc (L : Layout) (s : State) (ptr newSize : U32) : Option (U32 × State) := do
  if ptr = nullptr then return ← kmalloc L s newSize
  if newSize = 0 then return (nullptr, kfree s ptr)
  let block := blockFromPtr s ptr
  if block = nullptr ∨ (load s.mem block).free ≠ 0 then return (nullptr, s)
  let alignedSize := alignUp newSize allocAlign
  if alignedSize ≤ (load s.mem block).size then
    return (ptr, { s with mem := splitBlock s.mem block alignedSize })
  let next := (load s.mem block).next
  if next ≠ nullptr ∧ (load s.mem next).free ≠ 0 ∧ (load s.mem next).magic = blockMagic ∧
      alignedSize ≤ (load s.mem block).size + headerSize + (load s.mem next).size then
    return (ptr, { s with mem := splitBlock (coalesceWithNext s.mem block) block alignedSize })
  let (newPtr, s) ← kmalloc L s alignedSize
  if newPtr = nullptr then return (nullptr, s)
  let m := copyLoop block newPtr ptr (2 ^ 32) 0 s.mem
  return (newPtr, kfree { s with mem := m } ptr)

/-- The loop of the three counters, over the blocks that `counts` lets through. -/
def sizesLoop (m : Mem) (counts : HeapBlock → Bool) : Nat → U32 → U32 → Option U32
  | 0, _, _ => none
  | fuel + 1, total, block =>
    if block = nullptr ∨ (load m block).magic ≠ blockMagic then some total
    else
      sizesLoop m counts fuel
        (if counts (load m block) then total + (load m block).size else total) (load m block).next

def sizes (s : State) (counts : HeapBlock → Bool) : Option U32 :=
  if s.gHeapHead = nullptr then some 0 else sizesLoop s.mem counts walkFuel 0 s.gHeapHead

def kmallocTotal (s : State) : Option U32 := sizes s fun _ => true

def kmallocRemaining (s : State) : Option U32 := sizes s fun block => block.free ≠ 0

def kmallocUsed (s : State) : Option U32 := sizes s fun block => block.free = 0

end Kernix.Memory
