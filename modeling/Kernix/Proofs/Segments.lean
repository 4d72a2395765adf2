import Kernix.Proofs.Descriptors

namespace Kernix.Proofs
open Library Gdt Interrupts Processor

variable {L : Tables} {m m' : Mem} {a x top : U32} {i j : Nat} {p q : Processor} {s : Selector}
  {st : Stubs} {d : Descriptor}

/-! The tables in memory. -/

theorem slotOf_apart (hi : i < 6) (hj : j < 6) (hne : j ≠ i) (hx : (x - slotOf L j).toNat < 8) :
    8 ≤ (x - slotOf L i).toNat := by
  have := L.gdtEnds
  unfold slotOf at *
  bv_omega

theorem slotOf_outside (hj : j < 6) (hx : (x - slotOf L j).toNat < 8) :
    104 ≤ (x - L.gTss).toNat ∧ 2048 ≤ (x - L.gIdt).toNat := by
  have := L.gdtEnds
  have := L.tssEnds
  have := L.idtEnds
  unfold slotOf at hx
  constructor
  · rcases L.gdtTss with h | h <;> bv_omega
  · rcases L.gdtIdt with h | h <;> bv_omega

theorem gdtSetEntry_slots (L : Tables) (m : Mem) (k base limit : U32) (access flags : Byte)
    (hk : k.toNat < 6) (hj : j < 6) :
    (gdtSetEntry L m k base limit access flags).descriptor (slotOf L j) =
      if j = k.toNat then ⟨base, limit.setWidth 20, access, flags.extractLsb' 4 4⟩
      else m.descriptor (slotOf L j) := by
  have hslot : L.gGdt + 8 * k = slotOf L k.toNat := by
    unfold slotOf
    bv_omega
  by_cases h : j = k.toNat
  · rw [if_pos h, h, ← hslot, gdtSetEntry_descriptor]
  · rw [if_neg h]
    apply descriptor_congr
    intro x hx
    apply gdtSetEntry_outside
    rw [hslot]
    exact slotOf_apart hk hj h hx

/-- What `gdt_set_entry` and `idt_set_gate` store is what the processor reads of the entry, and every
other entry is as it was. -/
theorem table_entries_read_back (L : Tables) (m : Mem) (k base limit : U32) (access flags : Byte)
    (vector : Byte) (handler : U32) (typeAttr : Byte) (hk : k.toNat < 6) :
    (∀ j < 6, (gdtSetEntry L m k base limit access flags).descriptor (slotOf L j) =
      if j = k.toNat then ⟨base, limit.setWidth 20, access, flags.extractLsb' 4 4⟩
      else m.descriptor (slotOf L j)) ∧
    ∀ v : Byte, (idtSetGate L m vector handler typeAttr).gateEntry (gateSlot L v.toNat) =
      if v = vector then ⟨handler, 0x08, typeAttr⟩ else m.gateEntry (gateSlot L v.toNat) :=
  ⟨fun _ hj => gdtSetEntry_slots L m k base limit access flags hk hj,
    fun v => idtSetGate_gates L m vector v handler typeAttr⟩

def bootTables : Tables where
  gGdt := 0x100000
  gTss := 0x101000
  gIdt := 0x102000
  gdtEnds := by decide
  tssEnds := by decide
  idtEnds := by decide
  gdtTss := by decide
  gdtIdt := by decide
  tssIdt := by decide

theorem table_entries_read_back_code :
    (gdtSetEntry bootTables (fun _ => 0) 1 0 0xFFFFF 0x9A 0xC0).descriptor (slotOf bootTables 1) =
      flatSegment 0x9A := by
  have h := (table_entries_read_back bootTables (fun _ => 0) 1 0 0xFFFFF 0x9A 0xC0 0 0 0
    (by decide)).1 1 (by decide)
  rw [if_pos (by decide)] at h
  exact h.trans (by decide)

/-- Outside of the task state segment only its descriptor is written. -/
theorem writeTss_outside (hx : 104 ≤ (x - L.gTss).toNat) : writeTss L m top x =
    gdtSetEntry L m 5 L.gTss (BitVec.ofNat 32 (tssSize - 1)) 0x89 0x00 x := by
  have hends := L.tssEnds
  simp only [writeTss, tssSs0, tssEsp0, tssCs, tssSs, tssDs, tssEs, tssFs, tssGs, tssIomapBase]
  rw [write16_outside (by bv_omega), Mem.write32_outside (by bv_omega),
    Mem.write32_outside (by bv_omega), Mem.write32_outside (by bv_omega),
    Mem.write32_outside (by bv_omega), Mem.write32_outside (by bv_omega),
    Mem.write32_outside (by bv_omega), Mem.write32_outside (by bv_omega),
    Mem.write32_outside (by bv_omega)]
  exact Mem.storeBytes_outside (n := tssSize) (by decide) hx

/-- The descriptors as `gdt_tss_init` sets them, before the processor has marked any. -/
def freshSegment (L : Tables) (i : Nat) : Descriptor :=
  if i = 5 then ⟨L.gTss, 103, 0x89, 0⟩ else segmentOf L i

theorem gdtTables_slots (L : Tables) (m : Mem) (top : U32) (hi : i < 6) :
    (gdtTables L m top).descriptor (slotOf L i) = freshSegment L i := by
  have htss : ∀ m : Mem, (writeTss L m top).descriptor (slotOf L i) =
      (gdtSetEntry L m 5 L.gTss (BitVec.ofNat 32 (tssSize - 1)) 0x89 0x00).descriptor
        (slotOf L i) :=
    fun m => descriptor_congr fun x hx => writeTss_outside (slotOf_outside hi hx).1
  simp only [gdtTables, htss]
  rw [gdtSetEntry_slots L _ 5 _ _ _ _ (by decide) hi,
    gdtSetEntry_slots L _ 4 _ _ _ _ (by decide) hi, gdtSetEntry_slots L _ 3 _ _ _ _ (by decide) hi,
    gdtSetEntry_slots L _ 2 _ _ _ _ (by decide) hi, gdtSetEntry_slots L _ 1 _ _ _ _ (by decide) hi,
    gdtSetEntry_slots L _ 0 _ _ _ _ (by decide) hi]
  have hcases : i = 0 ∨ i = 1 ∨ i = 2 ∨ i = 3 ∨ i = 4 ∨ i = 5 := by omega
  rcases hcases with rfl | rfl | rfl | rfl | rfl | rfl <;> rfl

/-! The task state segment. -/

theorem read16_eq (m : Mem) (a : U32) : m.read16 a = (m.read32 a).setWidth 16 := by
  apply BitVec.eq_of_getLsbD_eq
  intro i hi
  simp only [Mem.read16, Mem.read32, BitVec.getLsbD_append, BitVec.getLsbD_setWidth]
  grind

theorem tss_apart (L : Tables) {k l : U32} (h : k.toNat + 4 ≤ l.toNat ∨ l.toNat + 4 ≤ k.toNat)
    (hk : k.toNat + 4 ≤ 104) (hl : l.toNat + 4 ≤ 104) : Apart 4 (L.gTss + k) (L.gTss + l) := by
  rcases h with h | h
  · exact apart_same _ _ _ h (by omega)
  · exact (apart_same _ _ _ h (by omega)).symm

theorem read32_write16_apart {m : Mem} {a b : U32} {v : BitVec 16} (h : 4 ≤ (a - b).toNat)
    (h' : 4 ≤ (b - a).toNat) : (m.write16 a v).read32 b = m.read32 b :=
  Mem.read32_congr fun x hx => write16_outside (by bv_omega)

theorem writeTss_fields (L : Tables) (m : Mem) (top : U32) :
    (writeTss L m top).read32 (L.gTss + tssEsp0) = top ∧
      (writeTss L m top).read16 (L.gTss + tssSs0) = kernelDsSelector ∧
      (writeTss L m top).read16 (L.gTss + tssIomapBase) = BitVec.ofNat 16 tssSize := by
  have hpast : ∀ (m : Mem) (k : U32) (v : BitVec 16), k.toNat ≤ 8 →
      (m.write16 (L.gTss + tssIomapBase) v).read32 (L.gTss + k) = m.read32 (L.gTss + k) := by
    intro m k v hk
    unfold tssIomapBase
    exact read32_write16_apart (by bv_omega) (by bv_omega)
  have hkeep : ∀ (m : Mem) (k l v : U32), k.toNat ≤ 8 → 72 ≤ l.toNat ∧ l.toNat ≤ 100 →
      (m.write32 (L.gTss + l) v).read32 (L.gTss + k) = m.read32 (L.gTss + k) :=
    fun m k l v hk hl => Mem.read32_write32_apart (tss_apart L (.inr (by omega)) (by omega) (by omega))
  refine ⟨?_, ?_, read16_write16 ..⟩
  · rw [writeTss, hpast _ _ _ (by decide), hkeep _ _ _ _ (by decide) (by decide),
      hkeep _ _ _ _ (by decide) (by decide), hkeep _ _ _ _ (by decide) (by decide),
      hkeep _ _ _ _ (by decide) (by decide), hkeep _ _ _ _ (by decide) (by decide),
      hkeep _ _ _ _ (by decide) (by decide), Mem.read32_write32_same]
  · rw [read16_eq, writeTss, hpast _ _ _ (by decide), hkeep _ _ _ _ (by decide) (by decide),
      hkeep _ _ _ _ (by decide) (by decide), hkeep _ _ _ _ (by decide) (by decide),
      hkeep _ _ _ _ (by decide) (by decide), hkeep _ _ _ _ (by decide) (by decide),
      hkeep _ _ _ _ (by decide) (by decide),
      Mem.read32_write32_apart (tss_apart L (.inl (by decide)) (by decide) (by decide)),
      Mem.read32_write32_same]
    rfl

/-! Loads. -/

@[simp] theorem present_touched (d : Descriptor) : d.touched.present = d.present := by
  simp [Descriptor.touched, Descriptor.present]

@[simp] theorem dpl_touched (d : Descriptor) : d.touched.dpl = d.dpl := by
  simp [Descriptor.touched, Descriptor.dpl, BitVec.extractLsb'_or]

@[simp] theorem ordinary_touched (d : Descriptor) : d.touched.ordinary = d.ordinary := by
  simp [Descriptor.touched, Descriptor.ordinary]

@[simp] theorem executable_touched (d : Descriptor) : d.touched.executable = d.executable := by
  simp [Descriptor.touched, Descriptor.executable]

@[simp] theorem conforming_touched (d : Descriptor) : d.touched.conforming = d.conforming := by
  simp [Descriptor.touched, Descriptor.conforming]

@[simp] theorem permits_touched (d : Descriptor) : d.touched.permits = d.permits := by
  simp [Descriptor.touched, Descriptor.permits]

@[simp] theorem touched_touched (d : Descriptor) : d.touched.touched = d.touched := by
  simp [Descriptor.touched, BitVec.or_assoc]

/-- The memory once the processor has marked entry `i`. -/
def marked (L : Tables) (m : Mem) (i : Nat) : Mem :=
  m.write8 (slotOf L i + 5) (m.descriptor (slotOf L i)).touched.access

theorem marked_outside (hx : 8 ≤ (x - slotOf L i).toNat) : marked L m i x = m x :=
  write8_outside (by rintro rfl; bv_omega)

theorem write_access (m : Mem) (a : U32) (v : Byte) :
    (m.write8 (a + 5) v).descriptor a = { m.descriptor a with access := v } := by
  simp only [Mem.descriptor, Mem.write8, add_right_inj, left_eq_add, BitVec.reduceEq, ↓reduceIte]

theorem marked_slots (L : Tables) (m : Mem) (hi : i < 6) (hj : j < 6) :
    (marked L m i).descriptor (slotOf L j) =
      if j = i then (m.descriptor (slotOf L j)).touched else m.descriptor (slotOf L j) := by
  by_cases h : j = i
  · rw [if_pos h, h, marked, write_access]
    rfl
  · rw [if_neg h]
    exact descriptor_congr fun x hx => marked_outside (slotOf_apart hi hj h hx)

theorem find_eq (L : Tables) (s : Selector) : Table.find ⟨L.gGdt, 47⟩ s =
    if s.isLocal = false ∧ s.index < 6 then some (slotOf L s.index) else none := by
  have hlimit : 8 * s.index + 7 ≤ (47 : BitVec 16).toNat ↔ s.index < 6 := by
    change 8 * s.index + 7 ≤ 47 ↔ s.index < 6
    omega
  unfold Table.find Table.entry
  simp only [hlimit]
  cases s.isLocal with
  | true => simp
  | false => simp [slotOf]

theorem fetch_eq (hg : p.gdtr = ⟨L.gGdt, 47⟩) (s : Selector) (ok : Descriptor → Bool) :
    p.fetch s ok =
      if s.isLocal = false ∧ s.index < 6 ∧ ok (p.mem.descriptor (slotOf L s.index)) = true then
        some ((p.mem.descriptor (slotOf L s.index)).touched, marked L p.mem s.index)
      else none := by
  rw [Processor.fetch, hg, find_eq]
  by_cases h : s.isLocal = false ∧ s.index < 6
  · simp only [h.1, h.2, true_and]
    rfl
  · rw [if_neg h, if_neg fun hall => h ⟨hall.1, hall.2.1⟩]
    rfl

/-- A selector is its index and its level, where it is not one of a local table. -/
theorem selector_eq (h : s.isLocal = false) :
    s = BitVec.ofNat 16 (8 * s.index + s.rpl.toNat) := by
  have hbit : s.toNat / 4 % 2 = 0 := by
    rw [Selector.isLocal, BitVec.getLsbD, Nat.testBit_eq_decide_div_mod_eq] at h
    have := of_decide_eq_false h
    omega
  have hrpl : s.rpl.toNat = s.toNat % 4 := by simp [Selector.rpl]
  apply BitVec.eq_of_toNat_eq
  have hlt := s.isLt
  rw [BitVec.toNat_ofNat, hrpl, Selector.index]
  omega

/-- What a load of a table's segment gives. -/
theorem fetch_some {ok : Descriptor → Bool} {m : Mem} (hg : p.gdtr = ⟨L.gGdt, 47⟩)
    (h : p.fetch s ok = some (d, m)) :
    s.isLocal = false ∧ s.index < 6 ∧ ok (p.mem.descriptor (slotOf L s.index)) = true ∧
      d = (p.mem.descriptor (slotOf L s.index)).touched ∧ m = marked L p.mem s.index := by
  rw [fetch_eq hg] at h
  split at h
  · rename_i hall
    obtain ⟨hlocal, hindex, hok⟩ := hall
    obtain ⟨rfl, rfl⟩ := Prod.mk.inj (Option.some.inj h)
    exact ⟨hlocal, hindex, hok, rfl, rfl⟩
  · cases h

theorem SameTables.refl (L : Tables) (m : Mem) : SameTables L m m :=
  ⟨fun _ _ => rfl, fun _ _ => rfl, fun _ _ => rfl⟩

theorem SameTables.trans {m'' : Mem} (h : SameTables L m m') (h' : SameTables L m' m'') :
    SameTables L m m'' :=
  ⟨fun i hi => (h'.gdt i hi).trans (h.gdt i hi), fun x hx => (h'.tss x hx).trans (h.tss x hx),
    fun x hx => (h'.idt x hx).trans (h.idt x hx)⟩

theorem SameTables.marked (L : Tables) (m : Mem) (hi : i < 6) :
    SameTables L m (marked L m i) where
  gdt j hj := by
    rw [marked_slots L m hi hj]
    split
    · exact touched_touched _
    · rfl
  tss x hx := marked_outside (by
    have := L.gdtEnds
    have := L.tssEnds
    unfold slotOf
    rcases L.gdtTss with h | h <;> bv_omega)
  idt x hx := marked_outside (by
    have := L.gdtEnds
    have := L.idtEnds
    unfold slotOf
    rcases L.gdtIdt with h | h <;> bv_omega)

/-! `gdt_tss_init`. -/

/-- The processor while `gdt_tss_init` loads its registers. -/
structure Loading (L : Tables) (top : U32) (p : Processor) : Prop where
  gdtr : p.gdtr = ⟨L.gGdt, 47⟩
  level : p.cpl = 0
  gdt : ∀ i < 6, (p.mem.descriptor (slotOf L i)).touched = (freshSegment L i).touched
  task : p.mem.descriptor (slotOf L 5) = freshSegment L 5
  esp0 : p.mem.read32 (L.gTss + tssEsp0) = top
  ss0 : p.mem.read16 (L.gTss + tssSs0) = kernelDsSelector
  iomap : p.mem.read16 (L.gTss + tssIomapBase) = BitVec.ofNat 16 tssSize

theorem SameTables.read32 (h : SameTables L m m') {k : U32} (hk : k.toNat + 4 ≤ 104) :
    m'.read32 (L.gTss + k) = m.read32 (L.gTss + k) :=
  Mem.read32_congr fun x hx => h.tss x (by
    have := L.tssEnds
    bv_omega)

theorem SameTables.read16 (h : SameTables L m m') {k : U32} (hk : k.toNat + 2 ≤ 104) :
    m'.read16 (L.gTss + k) = m.read16 (L.gTss + k) :=
  read16_congr fun x hx => h.tss x (by
    have := L.tssEnds
    bv_omega)

theorem Loading.mark (h : Loading L top p) (hi : i < 5) (hgdtr : q.gdtr = p.gdtr)
    (hlevel : q.cpl = 0) (hmem : q.mem = marked L p.mem i) : Loading L top q := by
  have hsame := SameTables.marked L p.mem (show i < 6 by omega)
  refine ⟨hgdtr.trans h.gdtr, hlevel, ?_, ?_, ?_, ?_, ?_⟩
  · intro j hj
    rw [hmem, hsame.gdt j hj, h.gdt j hj]
  · rw [hmem, marked_slots L _ (by omega) (by decide), if_neg (by omega), h.task]
  · rw [hmem, SameTables.read32 hsame (by decide), h.esp0]
  · rw [hmem, SameTables.read16 hsame (by decide), h.ss0]
  · rw [hmem, SameTables.read16 hsame (by decide), h.iomap]

theorem loadsData_touched (d : Descriptor) (cpl rpl : BitVec 2) :
    d.touched.loadsData cpl rpl = d.loadsData cpl rpl := by
  simp [Descriptor.loadsData]

theorem loadsStack_touched (d : Descriptor) (cpl rpl : BitVec 2) :
    d.touched.loadsStack cpl rpl = d.loadsStack cpl rpl := by
  simp [Descriptor.loadsStack]

theorem jumpsTo_touched (d : Descriptor) (cpl rpl : BitVec 2) :
    d.touched.jumpsTo cpl rpl = d.jumpsTo cpl rpl := by
  simp [Descriptor.jumpsTo]

theorem returnsTo_touched (d : Descriptor) (cpl rpl : BitVec 2) :
    d.touched.returnsTo cpl rpl = d.returnsTo cpl rpl := by
  simp [Descriptor.returnsTo]

theorem enters_touched (d : Descriptor) (cpl : BitVec 2) :
    d.touched.enters cpl = d.enters cpl := by
  simp [Descriptor.enters]

/-! The marks on the flat segments. -/

theorem touched_kernelCode : (flatSegment 0x9A).touched = flatSegment 0x9B := by decide

theorem touched_kernelData : (flatSegment 0x92).touched = flatSegment 0x93 := by decide

theorem touched_userCode : (flatSegment 0xFA).touched = flatSegment 0xFB := by decide

theorem touched_userData : (flatSegment 0xF2).touched = flatSegment 0xF3 := by decide

/-- Where a register of the kernel's data segment is loaded. -/
abbrev kernelData : SegmentRegister := ⟨kernelDsSelector, some (flatSegment 0x93)⟩

abbrev kernelCode : SegmentRegister := ⟨kernelCsSelector, some (flatSegment 0x9B)⟩

theorem Loading.loadData (h : Loading L top p) (r : DataRegister) :
    ∃ q, p.loadData r kernelDsSelector = some q ∧ Loading L top q ∧
      q.data = Function.update p.data r kernelData := by
  have hd : (p.mem.descriptor (slotOf L 2)).touched = flatSegment 0x93 :=
    (h.gdt 2 (by decide)).trans touched_kernelData
  have hok : (p.mem.descriptor (slotOf L 2)).loadsData p.cpl kernelDsSelector.rpl = true := by
    rw [← loadsData_touched, hd, h.level]
    decide
  refine ⟨{ p with data := Function.update p.data r kernelData, mem := marked L p.mem 2 }, ?_,
    h.mark (by decide) rfl h.level rfl, rfl⟩
  rw [Processor.loadData, if_neg (by decide), fetch_eq h.gdtr, if_pos ⟨by decide, by decide, hok⟩]
  change some _ = some _
  rw [kernelData, ← hd]
  rfl

theorem Loading.loadStack (h : Loading L top p) :
    ∃ q, p.loadStack kernelDsSelector = some q ∧ Loading L top q ∧ q.data = p.data ∧
      q.ss = kernelData := by
  have hd : (p.mem.descriptor (slotOf L 2)).touched = flatSegment 0x93 :=
    (h.gdt 2 (by decide)).trans touched_kernelData
  have hok : (p.mem.descriptor (slotOf L 2)).loadsStack p.cpl kernelDsSelector.rpl = true := by
    rw [← loadsStack_touched, hd, h.level]
    decide
  refine ⟨{ p with ss := kernelData, mem := marked L p.mem 2 }, ?_,
    h.mark (by decide) rfl h.level rfl, rfl, rfl⟩
  rw [Processor.loadStack, if_neg (by decide), fetch_eq h.gdtr, if_pos ⟨by decide, by decide, hok⟩]
  change some _ = some _
  rw [kernelData, ← hd]
  rfl

theorem level_kernelCode : kernelCsSelector.rpl = 0 := by decide

theorem Loading.jump (h : Loading L top p) (eip : U32) :
    ∃ q, p.jump kernelCsSelector eip = some q ∧ Loading L top q ∧ q.data = p.data ∧
      q.ss = p.ss ∧ q.cs = kernelCode := by
  have hd : (p.mem.descriptor (slotOf L 1)).touched = flatSegment 0x9B :=
    (h.gdt 1 (by decide)).trans touched_kernelCode
  have hok : (p.mem.descriptor (slotOf L 1)).jumpsTo p.cpl kernelCsSelector.rpl = true := by
    rw [← jumpsTo_touched, hd, h.level]
    decide
  refine ⟨{ p with cs := kernelCode, eip := eip, mem := marked L p.mem 1 }, ?_,
    h.mark (by decide) rfl level_kernelCode rfl, rfl, rfl, rfl⟩
  rw [Processor.jump, if_neg (by decide), fetch_eq h.gdtr, if_pos ⟨by decide, by decide, hok⟩]
  change some _ = some _
  rw [kernelCode, ← hd, h.level]
  rfl

/-- The load of the task register leaves its own mark. -/
theorem Loading.segmented (h : Loading L top p) (hgdtr : q.gdtr = p.gdtr)
    (htr : q.tr = ⟨tssSelector, some (segmentOf L 5)⟩)
    (hmem : q.mem = p.mem.write8 (slotOf L 5 + 5) 0x8B) : Segmented L top q := by
  have houtside : ∀ x, 8 ≤ (x - slotOf L 5).toNat → q.mem x = p.mem x := by
    intro x hx
    rw [hmem, write8_outside (by rintro rfl; bv_omega)]
  have htss : ∀ x, (x - L.gTss).toNat < 104 → q.mem x = p.mem x := by
    intro x hx
    refine houtside x ?_
    by_contra hin
    have := (slotOf_outside (L := L) (x := x) (show 5 < 6 by decide) (by omega)).1
    omega
  have hends := L.tssEnds
  refine ⟨hgdtr.trans h.gdtr, htr, ?_, ?_, ?_, ?_⟩
  · intro i hi
    by_cases hfive : i = 5
    · rw [hfive, hmem, write_access, h.task]
      rfl
    · rw [descriptor_congr fun x hx => houtside x (slotOf_apart (by decide) hi hfive hx), h.gdt i hi,
        freshSegment, if_neg hfive]
  · exact (Mem.read32_congr fun x hx => htss x (by unfold tssEsp0 at hx; bv_omega)).trans h.esp0
  · exact (read16_congr fun x hx => htss x (by unfold tssSs0 at hx; bv_omega)).trans h.ss0
  · exact (read16_congr fun x hx => htss x (by unfold tssIomapBase at hx; bv_omega)).trans h.iomap

theorem Loading.ltr (h : Loading L top p) :
    ∃ q, p.ltr tssSelector = some q ∧ Segmented L top q ∧ q.data = p.data ∧ q.ss = p.ss ∧
      q.cs = p.cs := by
  have hfind : p.gdtr.find tssSelector = some (slotOf L 5) := by
    rw [h.gdtr, find_eq, if_pos ⟨by decide, by decide⟩]
    rfl
  have hcpl : ¬(p.cpl ≠ 0 ∨ tssSelector.isNull = true) := by
    rw [h.level]
    decide
  have havailable : (freshSegment L 5).availableTask = true :=
    (by decide : ((0x89 : Byte).getLsbD 7 && (0x89 : Byte).setWidth 5 == 0x09#5) = true)
  have hbusy : (freshSegment L 5).busy = segmentOf L 5 :=
    congrArg (Descriptor.mk L.gTss 103 · 0) (by decide : (0x89 : Byte) ||| 2 = 0x8B)
  refine ⟨{ p with
    tr := ⟨tssSelector, some (segmentOf L 5)⟩
    mem := p.mem.write8 (slotOf L 5 + 5) 0x8B }, ?_, h.segmented rfl rfl rfl, rfl, rfl, rfl⟩
  rw [Processor.ltr, if_neg hcpl, hfind]
  simp only [Option.bind_eq_bind, Option.bind_some, h.task, havailable, hbusy, if_true]
  rfl

theorem loading_start (L : Tables) (top : U32) (hlevel : p.cpl = 0) :
    Loading L top { p with mem := gdtTables L p.mem top, gdtr := ⟨L.gGdt, 47⟩ } where
  gdtr := rfl
  level := hlevel
  gdt i hi := congrArg Descriptor.touched (gdtTables_slots L p.mem top hi)
  task := gdtTables_slots L p.mem top (by decide)
  esp0 := (writeTss_fields L _ top).1
  ss0 := (writeTss_fields L _ top).2.1
  iomap := (writeTss_fields L _ top).2.2

theorem gdtTssInit_segmented (L : Tables) (top : U32) (hlevel : p.cpl = 0) :
    ∃ q, gdtTssInit L top p = some q ∧ Segmented L top q ∧ q.cs = kernelCode ∧
      q.ss = kernelData ∧ ∀ r, q.data r = kernelData := by
  obtain ⟨p₁, h₁, hl₁, hd₁⟩ := (loading_start L top hlevel).loadData .ds
  obtain ⟨p₂, h₂, hl₂, hd₂⟩ := hl₁.loadData .es
  obtain ⟨p₃, h₃, hl₃, hd₃⟩ := hl₂.loadData .fs
  obtain ⟨p₄, h₄, hl₄, hd₄⟩ := hl₃.loadData .gs
  obtain ⟨p₅, h₅, hl₅, hd₅, hs₅⟩ := hl₄.loadStack
  obtain ⟨p₆, h₆, hl₆, hd₆, hs₆, hc₆⟩ := hl₅.jump p₅.eip
  obtain ⟨q, h₇, hseg, hd₇, hs₇, hc₇⟩ := hl₆.ltr
  refine ⟨q, ?_, hseg, hc₇.trans hc₆, hs₇.trans (hs₆.trans hs₅), ?_⟩
  · have hlgdt : Processor.lgdt { p with mem := gdtTables L p.mem top } ⟨L.gGdt, 47⟩ =
        some { p with mem := gdtTables L p.mem top, gdtr := ⟨L.gGdt, 47⟩ } := if_pos hlevel
    change (Processor.lgdt { p with mem := gdtTables L p.mem top } ⟨L.gGdt, 47⟩).bind _ = _
    rw [hlgdt]
    simp only [Option.bind_some, Option.bind_eq_bind, h₁, h₂, h₃, h₄, h₅, h₆, h₇]
  · intro r
    rw [hd₇, hd₆, hd₅, hd₄, hd₃, hd₂, hd₁]
    cases r <;> rfl

end Kernix.Proofs
