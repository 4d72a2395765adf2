import Kernix.Library.Segmentation

namespace Kernix.Gdt
open Library Processor

def kernelCsSelector : Selector := 0x08
def kernelDsSelector : Selector := 0x10
def userCsSelector : Selector := 0x1B
def userDsSelector : Selector := 0x23
def tssSelector : Selector := 0x28

/-- Where the tables that the processor reads lie. -/
structure Tables where
  gGdt : U32
  gTss : U32
  gIdt : U32
  gdtEnds : gGdt.toNat + 48 ≤ 2 ^ 32
  tssEnds : gTss.toNat + 104 ≤ 2 ^ 32
  idtEnds : gIdt.toNat + 2048 ≤ 2 ^ 32
  gdtTss : gGdt.toNat + 48 ≤ gTss.toNat ∨ gTss.toNat + 104 ≤ gGdt.toNat
  gdtIdt : gGdt.toNat + 48 ≤ gIdt.toNat ∨ gIdt.toNat + 2048 ≤ gGdt.toNat
  tssIdt : gTss.toNat + 104 ≤ gIdt.toNat ∨ gIdt.toNat + 2048 ≤ gTss.toNat

def gdtSetEntry (L : Tables) (m : Mem) (index base limit : U32) (access flags : Byte) : Mem :=
  let e := L.gGdt + 8 * index
  let m := m.write16 e ((limit &&& 0xFFFF).setWidth 16)
  let m := m.write16 (e + 2) ((base &&& 0xFFFF).setWidth 16)
  let m := m.write8 (e + 4) (((base >>> 16) &&& 0xFF).setWidth 8)
  let m := m.write8 (e + 5) access
  let m := m.write8 (e + 6)
    ((((limit >>> 16) &&& 0x0F) ||| (flags.setWidth 32 &&& 0xF0)).setWidth 8)
  m.write8 (e + 7) (((base >>> 24) &&& 0xFF).setWidth 8)

/-! The fields of `tss_entry` that are written one by one. -/

def tssSize : Nat := 104
def tssEsp0 : U32 := 4
def tssSs0 : U32 := 8
def tssEs : U32 := 72
def tssCs : U32 := 76
def tssSs : U32 := 80
def tssDs : U32 := 84
def tssFs : U32 := 88
def tssGs : U32 := 92
def tssIomapBase : U32 := 102

def tssSetKernelStack (L : Tables) (m : Mem) (kernelStackTop : U32) : Mem :=
  m.write32 (L.gTss + tssEsp0) kernelStackTop

def writeTss (L : Tables) (m : Mem) (kernelStackTop : U32) : Mem :=
  let m := gdtSetEntry L m 5 L.gTss (BitVec.ofNat 32 (tssSize - 1)) 0x89 0x00
  let m := m.storeBytes L.gTss (fun _ => 0) tssSize
  let m := m.write32 (L.gTss + tssSs0) (kernelDsSelector.setWidth 32)
  let m := m.write32 (L.gTss + tssEsp0) kernelStackTop
  let m := m.write32 (L.gTss + tssCs) (userCsSelector.setWidth 32)
  let m := m.write32 (L.gTss + tssSs) (userDsSelector.setWidth 32)
  let m := m.write32 (L.gTss + tssDs) (userDsSelector.setWidth 32)
  let m := m.write32 (L.gTss + tssEs) (userDsSelector.setWidth 32)
  let m := m.write32 (L.gTss + tssFs) (userDsSelector.setWidth 32)
  let m := m.write32 (L.gTss + tssGs) (userDsSelector.setWidth 32)
  m.write16 (L.gTss + tssIomapBase) (BitVec.ofNat 16 tssSize)

/-- The tables as `gdt_tss_init` leaves them. -/
def gdtTables (L : Tables) (m : Mem) (kernelStackTop : U32) : Mem :=
  let m := gdtSetEntry L m 0 0 0 0 0
  let m := gdtSetEntry L m 1 0 0xFFFFF 0x9A 0xC0
  let m := gdtSetEntry L m 2 0 0xFFFFF 0x92 0xC0
  let m := gdtSetEntry L m 3 0 0xFFFFF 0xFA 0xC0
  let m := gdtSetEntry L m 4 0 0xFFFFF 0xF2 0xC0
  writeTss L m kernelStackTop

/-- `none` is a fault. The far jump goes on behind itself; the place is not followed. -/
def gdtTssInit (L : Tables) (kernelStackTop : U32) (p : Processor) : Option Processor := do
  let p := { p with mem := gdtTables L p.mem kernelStackTop }
  let p ← p.lgdt ⟨L.gGdt, 8 * 6 - 1⟩
  let p ← p.loadData .ds kernelDsSelector
  let p ← p.loadData .es kernelDsSelector
  let p ← p.loadData .fs kernelDsSelector
  let p ← p.loadData .gs kernelDsSelector
  let p ← p.loadStack kernelDsSelector
  let p ← p.jump kernelCsSelector p.eip
  p.ltr tssSelector

end Kernix.Gdt
