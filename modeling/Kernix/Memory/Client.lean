import Mathlib.Data.Finset.Basic
import Kernix.Memory.Heap

namespace Kernix.Memory
open Library

/-- What code outside the allocator does to the heap: the four entry points, and a store
of one byte. -/
inductive Request where
  | kmalloc (size : U32)
  | kcalloc (count size : U32)
  | krealloc (ptr newSize : U32)
  | kfree (ptr : U32)
  | write (addr : U32) (value : Byte)

/-- The pointer returned, null for what returns none, and the state left. `none` is a call
that does not return. -/
def serve (L : Layout) (s : State) : Request → Option (U32 × State)
  | .kmalloc size => kmalloc L s size
  | .kcalloc count size => kcalloc L s count size
  | .krealloc ptr newSize => krealloc L s ptr newSize
  | .kfree ptr => some (nullptr, kfree s ptr)
  | .write addr value => some (nullptr, { s with mem := s.mem.write8 addr value })

/-- A request with the pointer it returned. -/
abbrev Event := Request × U32

/-- The machine with the pointers its clients own. -/
structure Client where
  state : State
  live : Finset U32

namespace Client

def start (s : State) : Client := ⟨s, ∅⟩

/-- Clients pass null or what they own, and store into what they own. -/
def Permitted (c : Client) : Request → Prop
  | .kmalloc _ | .kcalloc _ _ => True
  | .krealloc ptr _ | .kfree ptr => ptr = nullptr ∨ ptr ∈ c.live
  | .write addr _ => ∃ p ∈ c.live, (addr - p).toNat < (ksize c.state p).toNat

def own (live : Finset U32) (q : U32) : Finset U32 := if q = nullptr then live else insert q live

/-- Who owns what after `e`. A `krealloc` that fails leaves its argument owned. -/
def liveAfter (live : Finset U32) : Event → Finset U32
  | (.kmalloc _, q) | (.kcalloc _ _, q) => own live q
  | (.krealloc ptr newSize, q) =>
    if newSize = 0 ∨ q ≠ nullptr then own (live.erase ptr) q else live
  | (.kfree ptr, _) => live.erase ptr
  | (.write _ _, _) => live

def Step (L : Layout) (c : Client) (e : Event) (c' : Client) : Prop :=
  c.Permitted e.1 ∧
    ∃ s', serve L c.state e.1 = some (e.2, s') ∧ c' = ⟨s', liveAfter c.live e⟩

/-- What a live pointer stands for. -/
def contents (c : Client) (p : U32) : Option (List Byte) :=
  if p ∈ c.live then some (c.state.mem.bytes p (ksize c.state p).toNat) else none

end Client

/-- The bytes a request asks for, as a number. -/
def Request.bytes : Request → Nat
  | .kmalloc size => size.toNat
  | .kcalloc count size => count.toNat * size.toNat
  | .krealloc _ newSize => newSize.toNat
  | .kfree _ | .write _ _ => 0

/-- The last block of the heap is handed out. -/
def tailUsed (s : State) : Bool :=
  match lastBlock s with
  | some tail => tail ≠ nullptr && (HeapBlock.load s.mem tail).free = 0
  | none => false

/-- `n` bytes round up to the alignment, and with a header to a page, below 2^32.
From 2^32 on, which only a product reaches, `kcalloc` refuses. -/
def NoWrap (s : State) (n : Nat) : Prop :=
  2 ^ 32 ≤ n ∨
    n ≤ 0xFFFFFFF8 ∧ ¬ (tailUsed s ∧ 0xFFFFEFE9 ≤ n ∧ n ≤ 0xFFFFFFE8)

/-- `kmalloc` of `size` bytes finds a block, or grows by all the pages it asks for and then
finds one, or does not start to grow. -/
def GrowsWhole (s : State) (size : U32) : Prop :=
  let r := alignUp size allocAlign
  size = 0 ∨ findFreeBlock s r ≠ some nullptr ∨ s.gHeapMappedEnd = heapVirtLimit ∨
    ∀ tail, lastBlock s = some tail →
      let pages := (pagesNeeded (HeapBlock.load s.mem tail) r).toNat
      pages = 0 ∨
        s.gHeapMappedEnd.toNat + 4096 * pages ≤ heapVirtLimit.toNat ∧
          (tailUsed s → r.toNat + 24 < 2 ^ 32)

/-- `block_from_ptr` finds nothing, or a block that is free. -/
def Rejected (s : State) (p : U32) : Prop :=
  blockFromPtr s p = nullptr ∨ (HeapBlock.load s.mem (blockFromPtr s p)).free ≠ 0

/-- `krealloc` does not have to move the block. -/
def FitsInPlace (s : State) (ptr newSize : U32) : Prop :=
  let block := HeapBlock.load s.mem (blockFromPtr s ptr)
  let next := HeapBlock.load s.mem block.next
  let r := alignUp newSize allocAlign
  r ≤ block.size ∨
    block.next ≠ nullptr ∧ next.free ≠ 0 ∧ next.magic = blockMagic ∧
      r ≤ block.size + headerSize + next.size

instance (s : State) (ptr newSize : U32) : Decidable (FitsInPlace s ptr newSize) :=
  inferInstanceAs (Decidable (_ ∨ (_ ∧ _ ∧ _ ∧ _)))

/-- No growth for `req` stops midway. -/
def Request.GrowsWhole (s : State) : Request → Prop
  | .kmalloc size => Memory.GrowsWhole s size
  | .kcalloc count size => 2 ^ 32 ≤ count.toNat * size.toNat ∨ Memory.GrowsWhole s (count * size)
  | .krealloc ptr newSize =>
    ptr ≠ nullptr ∧ (Rejected s ptr ∨ FitsInPlace s ptr newSize) ∨ Memory.GrowsWhole s newSize
  | .kfree _ | .write _ _ => True

/-- The requests that fail by returning null. -/
def Request.Allocating : Request → Prop
  | .kmalloc _ | .kcalloc _ _ => True
  | .krealloc _ newSize => newSize ≠ 0
  | .kfree _ | .write _ _ => False

/-! What a heap in order looks like, in its own bytes. -/

/-- The blocks the `next` pointers lead through, from one block to the null pointer. -/
inductive Walk (m : Mem) : U32 → List U32 → Prop
  | nil : Walk m nullptr []
  | cons {block : U32} {rest : List U32} (hne : block ≠ nullptr)
      (h : Walk m (HeapBlock.load m block).next rest) : Walk m block (block :: rest)

/-- `b` follows `a`: the two point at each other, and `a` ends where `b` begins. -/
structure Follows (m : Mem) (a b : U32) : Prop where
  next : (HeapBlock.load m a).next = b
  prev : (HeapBlock.load m b).prev = a
  adjacent : a.toNat + 24 + (HeapBlock.load m a).size.toNat = b.toNat

structure Sound (c : Client) (blocks : List U32) : Prop where
  walk : Walk c.state.mem c.state.gHeapHead blocks
  increasing : blocks.Pairwise (fun a b => a < b)
  magic : ∀ a ∈ blocks, (HeapBlock.load c.state.mem a).magic = blockMagic
  size_pos : ∀ a ∈ blocks, 0 < (HeapBlock.load c.state.mem a).size.toNat
  size_aligned : ∀ a ∈ blocks, (HeapBlock.load c.state.mem a).size.toNat % 8 = 0
  flag : ∀ a ∈ blocks, (HeapBlock.load c.state.mem a).free.toNat ≤ 1
  block_aligned : ∀ a ∈ blocks, a.toNat % 8 = 0
  follows : blocks.IsChain (Follows c.state.mem)
  first : ∀ a ∈ blocks.head?, (HeapBlock.load c.state.mem a).prev = nullptr
  last : ∀ a ∈ blocks.getLast?, (HeapBlock.load c.state.mem a).next = nullptr ∧
    a.toNat + 24 + (HeapBlock.load c.state.mem a).size.toNat ≤ c.state.gHeapMappedEnd.toNat
  limit : c.state.gHeapMappedEnd ≤ heapVirtLimit
  live : ∀ p, p ∈ c.live ↔
    ∃ a ∈ blocks, (HeapBlock.load c.state.mem a).free = 0 ∧ p = blockPayload a
  aligned : ∀ p ∈ c.live, p.toNat % 8 = 0
  inside : ∀ p ∈ c.live, c.state.gHeapStart.toNat ≤ p.toNat ∧
    p.toNat + (ksize c.state p).toNat ≤ c.state.gHeapMappedEnd.toNat
  disjoint : ∀ p ∈ c.live, ∀ q ∈ c.live, p ≠ q →
    p.toNat + (ksize c.state p).toNat ≤ q.toNat ∨ q.toNat + (ksize c.state q).toNat ≤ p.toNat
  headers : ∀ p ∈ c.live, ∀ a ∈ blocks,
    a.toNat + 24 ≤ p.toNat ∨ p.toNat + (ksize c.state p).toNat ≤ a.toNat

/-- What `block_from_ptr` takes for the header of a used block is at `p`. -/
structure HeaderAt (s : State) (p : U32) : Prop where
  block_ne : p - headerSize ≠ nullptr
  inside : ptrInHeap s p ∧ ¬ p < s.gHeapStart + headerSize ∧ ptrInHeap s (p - headerSize)
  magic : (HeapBlock.load s.mem (p - headerSize)).magic = blockMagic
  used : (HeapBlock.load s.mem (p - headerSize)).free = 0

/-! The purpose of the heap, said of a map from live pointers to their bytes. -/

abbrev Store := U32 → Option (List Byte)

inductive StoreStep (σ : Store) : Event → Store → Prop
  | kmallocFails (n : U32) : StoreStep σ (.kmalloc n, nullptr) σ
  | kmalloc {n q : U32} {bytes : List Byte} (hq : q ≠ nullptr) (hnew : σ q = none)
      (hlen : n.toNat ≤ bytes.length) :
      StoreStep σ (.kmalloc n, q) (Function.update σ q (some bytes))
  | kcallocFails (k n : U32) : StoreStep σ (.kcalloc k n, nullptr) σ
  | kcalloc {k n q : U32} {bytes : List Byte} (hq : q ≠ nullptr) (hnew : σ q = none)
      (hlen : k.toNat * n.toNat ≤ bytes.length)
      (hzero : bytes.take (k.toNat * n.toNat) = List.replicate (k.toNat * n.toNat) 0) :
      StoreStep σ (.kcalloc k n, q) (Function.update σ q (some bytes))
  | kreallocNullFails (n : U32) : StoreStep σ (.krealloc nullptr n, nullptr) σ
  | kreallocNull {n q : U32} {bytes : List Byte} (hq : q ≠ nullptr) (hnew : σ q = none)
      (hlen : n.toNat ≤ bytes.length) :
      StoreStep σ (.krealloc nullptr n, q) (Function.update σ q (some bytes))
  | kreallocZero {p : U32} (hp : (σ p).isSome) :
      StoreStep σ (.krealloc p 0, nullptr) (Function.update σ p none)
  | kreallocFails {p n : U32} (hp : (σ p).isSome) (hn : n ≠ 0) :
      StoreStep σ (.krealloc p n, nullptr) σ
  | krealloc {p n q : U32} {old bytes : List Byte} (hp : σ p = some old) (hn : n ≠ 0)
      (hq : q ≠ nullptr) (hnew : q = p ∨ σ q = none) (hlen : n.toNat ≤ bytes.length)
      (hsame : bytes.take (min old.length n.toNat) = old.take (min old.length n.toNat)) :
      StoreStep σ (.krealloc p n, q) (Function.update (Function.update σ p none) q (some bytes))
  | kfreeNull : StoreStep σ (.kfree nullptr, nullptr) σ
  | kfree {p : U32} (hp : (σ p).isSome) :
      StoreStep σ (.kfree p, nullptr) (Function.update σ p none)
  | write {p v : U32} {b : Byte} {old : List Byte} {i : Nat} (hp : σ p = some old)
      (hi : i < old.length) (hv : v = p + BitVec.ofNat 32 i) :
      StoreStep σ (.write v b, nullptr) (Function.update σ p (some (old.set i b)))

end Kernix.Memory
