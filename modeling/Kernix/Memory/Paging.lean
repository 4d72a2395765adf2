import Kernix.Library.Bits

namespace Kernix.Memory
open Library

def pageSize : U32 := 4096
def pageEntries : Nat := 1024
def pageFrameMask : U32 := 0xFFFFF000
def pageFlagMask : U32 := 0x00000FFF
def pageTablePoolCount : Nat := 32

def pageFlagPresent : U32 := 0x001
def pageFlagRw : U32 := 0x002
def pageFlagUser : U32 := 0x004

def nullptr : U32 := 0

def alignUp (value alignment : U32) : U32 := (value + alignment - 1) &&& ~~~(alignment - 1)

def alignDown (value alignment : U32) : U32 := value &&& ~~~(alignment - 1)

/-- Where the linker put `page_directory` and `page_table_pool`. Both are
`alignas(PAGE_SIZE)` objects of the kernel image: not at null, not wrapping
and not overlapping. -/
structure Layout where
  pageDirectory : U32
  pageTablePool : U32
  directory_aligned : pageDirectory.toNat % 4096 = 0
  pool_aligned : pageTablePool.toNat % 4096 = 0
  pool_pos : 0 < pageTablePool.toNat
  directory_end : pageDirectory.toNat + 4096 ≤ 2 ^ 32
  pool_end : pageTablePool.toNat + 32 * 4096 ≤ 2 ^ 32
  disjoint : pageDirectory.toNat + 4096 ≤ pageTablePool.toNat ∨
    pageTablePool.toNat + 32 * 4096 ≤ pageDirectory.toNat

/-- `tables` holds the bytes of the two paging arrays, the only ones these
functions read or write. -/
structure Paging where
  tables : Mem
  pageTableUsed : Nat → Bool

/-- `page_table_pool[i]` as a pointer. -/
def Layout.table (L : Layout) (i : Nat) : U32 := L.pageTablePool + BitVec.ofNat 32 (4096 * i)

/-- Where entry `index` of the table or directory at `table` lies. -/
def entryAt (table index : U32) : U32 := table + 4 * index

/-- The table pointer, `phys_out` and the new state. -/
def allocPageTable (L : Layout) (pg : Paging) : U32 × U32 × Paging :=
  match (List.range pageTablePoolCount).find? (fun i => !pg.pageTableUsed i) with
  | some i =>
    let table := L.table i
    (table, table,
      { tables := pg.tables.storeWords table (fun _ => 0) pageEntries
        pageTableUsed := fun k => if k = i then true else pg.pageTableUsed k })
  | none => (nullptr, 0, pg)

def getPageTable (L : Layout) (pg : Paging) (dirIndex : U32) : U32 :=
  let pde := pg.tables.read32 (entryAt L.pageDirectory dirIndex)
  if pde &&& pageFlagPresent = 0 then nullptr else pde &&& pageFrameMask

def getOrCreatePageTable (L : Layout) (pg : Paging) (dirIndex : U32) : U32 × Paging :=
  let table := getPageTable L pg dirIndex
  if table ≠ nullptr then (table, pg)
  else
    let (table, tablePhys, pg) := allocPageTable L pg
    if table = nullptr then (nullptr, pg)
    else
      let pde := (tablePhys &&& pageFrameMask) ||| pageFlagPresent ||| pageFlagRw
      (table, { pg with tables := pg.tables.write32 (entryAt L.pageDirectory dirIndex) pde })

def dirIndexOf (vaddr : U32) : U32 := (vaddr >>> 22) &&& 0x3FF

def tableIndexOf (vaddr : U32) : U32 := (vaddr >>> 12) &&& 0x3FF

/-- The entry the hardware reaches for `virt`, 0 where the directory has no table for it. -/
def lookup (L : Layout) (pg : Paging) (virt : U32) : U32 :=
  let table := getPageTable L pg (dirIndexOf virt)
  if table = nullptr then 0 else pg.tables.read32 (entryAt table (tableIndexOf virt))

def mapPage (L : Layout) (pg : Paging) (virt phys flags : U32) : Paging :=
  let vaddr := alignDown virt pageSize
  let paddr := alignDown phys pageSize
  let dirIndex := dirIndexOf vaddr
  let tableIndex := tableIndexOf vaddr
  let (table, pg) := getOrCreatePageTable L pg dirIndex
  if table = nullptr then pg
  else
    let pageFlags := (flags &&& pageFlagMask) ||| pageFlagPresent
    let pte := (paddr &&& pageFrameMask) ||| pageFlags
    { pg with tables := pg.tables.write32 (entryAt table tableIndex) pte }

def unmapPage (L : Layout) (pg : Paging) (virt : U32) : Paging :=
  let vaddr := alignDown virt pageSize
  let dirIndex := dirIndexOf vaddr
  let tableIndex := tableIndexOf vaddr
  let table := getPageTable L pg dirIndex
  if table = nullptr then pg
  else { pg with tables := pg.tables.write32 (entryAt table tableIndex) 0 }

/-- Loading CR3 and setting CR0.PG leaves the arrays as they are. -/
def pagingInit (L : Layout) (pg : Paging) : Paging :=
  let pg : Paging :=
    { tables := pg.tables.storeWords L.pageDirectory (fun _ => 0) pageEntries
      pageTableUsed := fun i => if i < pageTablePoolCount then false else pg.pageTableUsed i }
  let (firstTable, firstTablePhys, pg) := allocPageTable L pg
  if firstTable = nullptr then pg
  else
    let identity := fun i =>
      (BitVec.ofNat 32 i * pageSize) ||| pageFlagPresent ||| pageFlagRw ||| pageFlagUser
    let tables := pg.tables.storeWords firstTable identity pageEntries
    let pde := (firstTablePhys &&& pageFrameMask) ||| pageFlagPresent ||| pageFlagRw ||| pageFlagUser
    { pg with tables := tables.write32 (entryAt L.pageDirectory 0) pde }

/-! The purpose of the two levels: one map from addresses to entries, the same all over a page. -/

/-- The entry of every address, 0 where there is none. -/
abbrev FlatMap := U32 → U32

def FlatMap.set (m : FlatMap) (virt entry : U32) : FlatMap :=
  fun w => if virt.toNat / 4096 = w.toNat / 4096 then entry else m w

/-- A call of the paging interface. -/
inductive PagingCall where
  | mapPage (virt phys flags : U32)
  | unmapPage (virt : U32)

def callPaging (L : Layout) (pg : Paging) : PagingCall → Paging
  | .mapPage virt phys flags => mapPage L pg virt phys flags
  | .unmapPage virt => unmapPage L pg virt

/-- The directory slot of `virt` is present. -/
def SlotPresent (L : Layout) (pg : Paging) (virt : U32) : Prop :=
  pg.tables.read32 (entryAt L.pageDirectory (dirIndexOf virt)) &&& pageFlagPresent ≠ 0

/-- What the processor grants at `virt`: the rights that its directory and table entries share. -/
def pageRights (L : Layout) (pg : Paging) (virt : U32) : U32 :=
  pg.tables.read32 (entryAt L.pageDirectory (dirIndexOf virt)) &&& lookup L pg virt &&&
    (pageFlagRw ||| pageFlagUser)

end Kernix.Memory
