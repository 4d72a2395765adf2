import Kernix.Boot.Ring3
import Kernix.Proofs.Segments

namespace Kernix.Proofs
open Library Gdt Interrupts Processor

variable {L : Tables} {m m' : Mem} {a x top top' : U32} {i j : Nat} {p q r : Processor}
  {s : Selector} {st : Stubs} {d : Descriptor} {v : Byte} {error : Option U32} {ws : List U32}

/-! `interrupts_init`. -/

theorem storeGate_beyond {i : U32} {low selector : BitVec 16} {zero typeAttr : Byte}
    {high : BitVec 16} (hi : i.toNat < 256) (hx : 2048 ≤ (x - L.gIdt).toNat) :
    storeGate L m i low selector zero typeAttr high x = m x := by
  apply storeGate_outside
  have := L.idtEnds
  bv_omega

theorem clearIdt_outside {n : Nat} (hn : n ≤ 256) (hx : 2048 ≤ (x - L.gIdt).toNat) :
    clearIdt L m n x = m x := by
  induction n with
  | zero => rfl
  | succ n ih => rw [clearIdt, storeGate_beyond (by bv_omega) hx, ih (by omega)]

theorem idtTable_outside (hx : 2048 ≤ (x - L.gIdt).toNat) : idtTable L st m x = m x := by
  have hgate : ∀ (m : Mem) (w : Byte) (handler : U32) (typeAttr : Byte),
      idtSetGate L m w handler typeAttr x = m x :=
    fun m w _ _ => storeGate_beyond (by have := w.isLt; simp; omega) hx
  simp only [idtTable, hgate]
  exact clearIdt_outside (le_refl 256) hx

/-- What `Segmented` says is kept where the tables are. -/
theorem Segmented.keep (h : Segmented L top p) (hgdtr : q.gdtr = p.gdtr) (htr : q.tr = p.tr)
    (hgdt : ∀ i < 6, (q.mem.descriptor (slotOf L i)).touched =
      (p.mem.descriptor (slotOf L i)).touched)
    (htss : ∀ x, (x - L.gTss).toNat < 104 → q.mem x = p.mem x) : Segmented L top q where
  gdtr := hgdtr.trans h.gdtr
  tr := htr.trans h.tr
  gdt i hi := (hgdt i hi).trans (h.gdt i hi)
  esp0 := (Mem.read32_congr fun x hx => htss x (by
    have := L.tssEnds
    unfold tssEsp0 at hx
    bv_omega)).trans h.esp0
  ss0 := (read16_congr fun x hx => htss x (by
    have := L.tssEnds
    unfold tssSs0 at hx
    bv_omega)).trans h.ss0
  iomap := (read16_congr fun x hx => htss x (by
    have := L.tssEnds
    unfold tssIomapBase at hx
    bv_omega)).trans h.iomap

theorem Installed.keep (h : Installed L st top p) (hsame : SameTables L p.mem q.mem)
    (hgdtr : q.gdtr = p.gdtr) (htr : q.tr = p.tr) (hidtr : q.idtr = p.idtr) :
    Installed L st top q where
  toSegmented := Segmented.keep h.toSegmented hgdtr htr hsame.gdt hsame.tss
  idtr := hidtr.trans h.idtr
  idt v := (gateEntry_congr fun x hx => hsame.idt x (by
    have := L.idtEnds
    have := v.isLt
    unfold gateSlot at hx
    bv_omega)).trans (h.idt v)

theorem idtInit_installed (st : Stubs) (h : Segmented L top p) (hlevel : p.cpl = 0) :
    ∃ q, idtInit L st p = some q ∧ Installed L st top q ∧ q.cs = p.cs ∧ q.ss = p.ss ∧
      q.data = p.data := by
  refine ⟨{ p with mem := idtTable L st p.mem, idtr := ⟨L.gIdt, 2047⟩ }, if_pos hlevel, ?_, rfl,
    rfl, rfl⟩
  refine ⟨Segmented.keep h rfl rfl ?_ ?_, rfl, fun v => idtTable_gates L st p.mem v⟩
  · intro i hi
    exact congrArg _ (descriptor_congr fun x hx => idtTable_outside (slotOf_outside hi hx).2)
  · intro x hx
    apply idtTable_outside
    have := L.tssEnds
    have := L.idtEnds
    rcases L.tssIdt with h | h <;> bv_omega

/-! The segments of the table. -/

/-- The four that can be loaded. -/
abbrev flats : List Descriptor :=
  [flatSegment 0x9B, flatSegment 0x93, flatSegment 0xFB, flatSegment 0xF3]

theorem ordinary_cases (hi : i < 6) (h : (segmentOf L i).touched.ordinary = true) :
    (i = 1 ∧ (segmentOf L i).touched = flatSegment 0x9B) ∨
      (i = 2 ∧ (segmentOf L i).touched = flatSegment 0x93) ∨
      (i = 3 ∧ (segmentOf L i).touched = flatSegment 0xFB) ∨
      (i = 4 ∧ (segmentOf L i).touched = flatSegment 0xF3) := by
  have hcases : i = 0 ∨ i = 1 ∨ i = 2 ∨ i = 3 ∨ i = 4 ∨ i = 5 := by omega
  rcases hcases with rfl | rfl | rfl | rfl | rfl | rfl
  · have hnull : (segmentOf L 0).touched.ordinary = false :=
      (by decide : ((0 : Byte) ||| 1).getLsbD 4 = false)
    rw [hnull] at h
    cases h
  · exact .inl ⟨rfl, touched_kernelCode⟩
  · exact .inr (.inl ⟨rfl, touched_kernelData⟩)
  · exact .inr (.inr (.inl ⟨rfl, touched_userCode⟩))
  · exact .inr (.inr (.inr ⟨rfl, touched_userData⟩))
  · have htask : (segmentOf L 5).touched.ordinary = false :=
      (by decide : ((0x8B : Byte) ||| 1).getLsbD 4 = false)
    rw [htask] at h
    cases h

theorem stack_segment : ∀ cpl rpl : BitVec 2, ∀ d ∈ flats, d.loadsStack cpl rpl = true →
    cpl = 0 ∧ rpl = 0 ∧ d = flatSegment 0x93 ∨ cpl = 3 ∧ rpl = 3 ∧ d = flatSegment 0xF3 := by
  decide

theorem jump_segment : ∀ cpl rpl : BitVec 2, ∀ d ∈ flats, d.jumpsTo cpl rpl = true →
    cpl = 0 ∧ rpl = 0 ∧ d = flatSegment 0x9B ∨ cpl = 3 ∧ d = flatSegment 0xFB := by
  decide

theorem return_segment : ∀ cpl rpl : BitVec 2, ∀ d ∈ flats, d.returnsTo cpl rpl = true →
    cpl = 0 ∧ rpl = 0 ∧ d = flatSegment 0x9B ∨ rpl = 3 ∧ d = flatSegment 0xFB := by
  decide

theorem data_level : ∀ cpl rpl : BitVec 2, ∀ d ∈ flats, d.loadsData cpl rpl = true →
    cpl ≤ d.dpl := by
  decide

/-- A load that asks for an ordinary segment, and what it finds. -/
theorem Installed.fetched {ok : Descriptor → Bool} (h : Installed L st top p)
    (hok : ∀ d, ok d.touched = ok d) (hord : ∀ d, ok d = true → d.ordinary = true)
    (hfetch : p.fetch s ok = some (d, m)) :
    d ∈ flats ∧ ok d = true ∧ SameTables L p.mem m ∧
      ∃ i, (i = 1 ∧ d = flatSegment 0x9B ∨ i = 2 ∧ d = flatSegment 0x93 ∨
        i = 3 ∧ d = flatSegment 0xFB ∨ i = 4 ∧ d = flatSegment 0xF3) ∧
        s = BitVec.ofNat 16 (8 * i + s.rpl.toNat) := by
  obtain ⟨hlocal, hindex, hlet, hd, rfl⟩ := fetch_some h.gdtr hfetch
  have hsegment : d = (segmentOf L s.index).touched := hd.trans (h.gdt _ hindex)
  have hlets : ok d = true := by rw [hd, hok, hlet]
  have hcases := ordinary_cases (L := L) hindex (hsegment ▸ hord d hlets)
  rw [← hsegment] at hcases
  refine ⟨?_, hlets, SameTables.marked L p.mem hindex, s.index, hcases, selector_eq hlocal⟩
  rcases hcases with ⟨-, h⟩ | ⟨-, h⟩ | ⟨-, h⟩ | ⟨-, h⟩ <;> simp [h]

theorem loadsData_ordinary {cpl rpl : BitVec 2} (h : d.loadsData cpl rpl = true) :
    d.ordinary = true := by
  simp only [Descriptor.loadsData, Bool.and_eq_true] at h
  exact h.1.1.1

theorem loadsStack_ordinary {cpl rpl : BitVec 2} (h : d.loadsStack cpl rpl = true) :
    d.ordinary = true := by
  simp only [Descriptor.loadsStack, Bool.and_eq_true] at h
  exact h.1.1.1.1.1

theorem jumpsTo_ordinary {cpl rpl : BitVec 2} (h : d.jumpsTo cpl rpl = true) :
    d.ordinary = true := by
  simp only [Descriptor.jumpsTo, Bool.and_eq_true] at h
  exact h.1.1.1

theorem returnsTo_ordinary {cpl rpl : BitVec 2} (h : d.returnsTo cpl rpl = true) :
    d.ordinary = true := by
  simp only [Descriptor.returnsTo, Bool.and_eq_true] at h
  exact h.1.1.1.2

theorem enters_ordinary {cpl : BitVec 2} (h : d.enters cpl = true) : d.ordinary = true := by
  simp only [Descriptor.enters, Bool.and_eq_true] at h
  exact h.1.1.1

/-! Each kind of load. -/

/-- The processor where user code runs. -/
abbrev userCode : SegmentRegister := ⟨userCsSelector, some (flatSegment 0xFB)⟩

abbrev userData : SegmentRegister := ⟨userDsSelector, some (flatSegment 0xF3)⟩

theorem AtLevel.cpl_cases (h : AtLevel p) : p.cpl = 0 ∧ p.cs = kernelCode ∧ p.ss = kernelData ∨
    p.cpl = 3 ∧ p.cs = userCode ∧ p.ss = userData := by
  rcases h with ⟨hcs, hss⟩ | ⟨hcs, hss⟩
  · refine .inl ⟨?_, hcs, hss⟩
    rw [Processor.cpl, hcs]
    decide
  · refine .inr ⟨?_, hcs, hss⟩
    rw [Processor.cpl, hcs]
    decide

theorem loadData_cases {reg : DataRegister} (h : Installed L st top p)
    (hload : p.loadData reg s = some q) :
    ∃ seg m, q = { p with data := Function.update p.data reg seg, mem := m } ∧
      SameTables L p.mem m ∧ ∀ d, seg.descriptor = some d → d ∈ flats ∧ p.cpl ≤ d.dpl := by
  rw [Processor.loadData] at hload
  split at hload
  · obtain rfl := Option.some.inj hload
    refine ⟨⟨s, none⟩, p.mem, rfl, SameTables.refl L p.mem, ?_⟩
    intro d hd
    cases hd
  · simp only [Option.bind_eq_bind, Option.bind_eq_some_iff, Prod.exists] at hload
    obtain ⟨d, m, hfetch, hq⟩ := hload
    obtain rfl := Option.some.inj hq
    obtain ⟨hmem, hok, hsame, -⟩ := Installed.fetched h
      (fun d => loadsData_touched d _ _) (fun _ => loadsData_ordinary) hfetch
    refine ⟨_, m, rfl, hsame, ?_⟩
    intro d' hd'
    obtain rfl := Option.some.inj hd'
    exact ⟨hmem, data_level _ _ _ hmem hok⟩

theorem loadStack_cases (h : Installed L st top p) (hload : p.loadStack s = some q) :
    ∃ seg m, q = { p with ss := seg, mem := m } ∧ SameTables L p.mem m ∧
      (p.cpl = 0 ∧ seg = kernelData ∨ p.cpl = 3 ∧ seg = userData) := by
  rw [Processor.loadStack] at hload
  split at hload
  · cases hload
  · simp only [Option.bind_eq_bind, Option.bind_eq_some_iff, Prod.exists] at hload
    obtain ⟨d, m, hfetch, hq⟩ := hload
    obtain rfl := Option.some.inj hq
    obtain ⟨hmem, hok, hsame, i, hi, hs⟩ := Installed.fetched h
      (fun d => loadsStack_touched d _ _) (fun _ => loadsStack_ordinary) hfetch
    refine ⟨_, m, rfl, hsame, ?_⟩
    rcases stack_segment _ _ _ hmem hok with ⟨hcpl, hrpl, rfl⟩ | ⟨hcpl, hrpl, rfl⟩
    · left
      refine ⟨hcpl, ?_⟩
      have : i = 2 := by simpa [flatSegment] using hi
      rw [hs, hrpl, this]
      rfl
    · right
      refine ⟨hcpl, ?_⟩
      have : i = 4 := by simpa [flatSegment] using hi
      rw [hs, hrpl, this]
      rfl

theorem jump_cases {eip : U32} (h : Installed L st top p) (hjump : p.jump s eip = some q) :
    ∃ seg m, q = { p with cs := seg, eip := eip, mem := m } ∧ SameTables L p.mem m ∧
      (p.cpl = 0 ∧ seg = kernelCode ∨ p.cpl = 3 ∧ seg = userCode) := by
  rw [Processor.jump] at hjump
  split at hjump
  · cases hjump
  · simp only [Option.bind_eq_bind, Option.bind_eq_some_iff, Prod.exists] at hjump
    obtain ⟨d, m, hfetch, hq⟩ := hjump
    obtain rfl := Option.some.inj hq
    obtain ⟨hmem, hok, hsame, i, hi, hs⟩ := Installed.fetched h
      (fun d => jumpsTo_touched d _ _) (fun _ => jumpsTo_ordinary) hfetch
    refine ⟨_, m, rfl, hsame, ?_⟩
    rcases jump_segment _ _ _ hmem hok with ⟨hcpl, hrpl, rfl⟩ | ⟨hcpl, rfl⟩
    · left
      refine ⟨hcpl, ?_⟩
      have : i = 1 := by simpa [flatSegment] using hi
      rw [hs, hrpl, this, hcpl]
      rfl
    · right
      refine ⟨hcpl, ?_⟩
      have : i = 3 := by simpa [flatSegment] using hi
      rw [hs, this, hcpl]
      have hwith : ∀ l : BitVec 2,
          Selector.withRpl (BitVec.ofNat 16 (8 * 3 + l.toNat)) 3 = userCsSelector := by decide
      rw [hwith]

/-! The stack. -/

theorem flat_lastOffset (access : Byte) : (flatSegment access).lastOffset + 1 = 2 ^ 32 := by
  have hgranular : (flatSegment access).granular = true :=
    (by decide : (0xC : BitVec 4).getLsbD 3 = true)
  have hlimit : (flatSegment access).limit.toNat = 0xFFFFF := rfl
  rw [Descriptor.lastOffset, if_pos hgranular, hlimit]
  omega

theorem flat_linear {access : Byte} (hup : (flatSegment access).executable = true ∨
    (flatSegment access).conforming = false) (x : U32) (n : Nat) :
    (flatSegment access).linear x n = if x.toNat + n ≤ 2 ^ 32 then some x else none := by
  have hwithin : (flatSegment access).Within x n ↔ x.toNat + n ≤ 2 ^ 32 := by
    have hexpands : ¬((flatSegment access).executable = false ∧
        (flatSegment access).conforming = true) := by
      rintro ⟨hexec, hconf⟩
      rcases hup with h | h
      · rw [h] at hexec
        cases hexec
      · rw [h] at hconf
        cases hconf
    rw [Descriptor.Within, if_neg hexpands, flat_lastOffset]
  simp only [Descriptor.linear, hwithin]
  congr 2
  exact BitVec.zero_add x

theorem push_cases {seg : SegmentRegister} (hss : p.ss = seg)
    (hseg : seg = kernelData ∨ seg = userData) {v : U32} (h : p.push v = some q) :
    q = { p with esp := p.esp - 4, mem := p.mem.write32 (p.esp - 4) v } := by
  have hlinear : ∃ d, p.ss.descriptor = some d ∧ ∀ x n, d.linear x n =
      if x.toNat + n ≤ 2 ^ 32 then some x else none := by
    rw [hss]
    rcases hseg with rfl | rfl
    · exact ⟨_, rfl, flat_linear (.inr (by decide))⟩
    · exact ⟨_, rfl, flat_linear (.inr (by decide))⟩
  obtain ⟨d, hd, hlin⟩ := hlinear
  rw [Processor.push, hd] at h
  simp only [Option.bind_eq_bind, Option.bind_some, hlin, Option.bind_eq_some_iff] at h
  obtain ⟨x, hx, hq⟩ := h
  split at hx
  · obtain rfl := Option.some.inj hx
    exact (Option.some.inj hq).symm
  · cases hx

theorem pushes_cases (hss : p.ss = kernelData ∨ p.ss = userData) (h : p.pushes ws = some q) :
    q = { p with
      esp := p.esp - BitVec.ofNat 32 (4 * ws.length)
      mem := p.mem.pushWords p.esp ws } := by
  induction ws generalizing p with
  | nil =>
    obtain rfl := Option.some.inj h
    simp [Mem.pushWords]
  | cons w ws ih =>
    rw [Processor.pushes, List.foldlM_cons, Option.bind_eq_bind, Option.bind_eq_some_iff] at h
    obtain ⟨p', hpush, hrest⟩ := h
    obtain rfl := push_cases rfl hss hpush
    have hnext := ih (p := { p with esp := p.esp - 4, mem := p.mem.write32 (p.esp - 4) w }) hss hrest
    have hesp : p.esp - 4 - BitVec.ofNat 32 (4 * ws.length) =
        p.esp - BitVec.ofNat 32 (4 * (w :: ws).length) := by
      rw [List.length_cons]
      bv_omega
    rw [hnext, ← hesp]
    rfl

theorem tss_linear (L : Tables) {k : U32} {n : Nat} (hk : k.toNat + n ≤ 104) :
    (segmentOf L 5).linear k n = some (L.gTss + k) := by
  have hexecutable : (segmentOf L 5).executable = true :=
    (by decide : (0x8B : Byte).getLsbD 3 = true)
  have hgranular : (segmentOf L 5).granular = false := (by decide : (0 : BitVec 4).getLsbD 3 = false)
  have hlast : (segmentOf L 5).lastOffset = 103 := by
    rw [Descriptor.lastOffset, if_neg (by simp [hgranular])]
    rfl
  apply if_pos
  rw [Descriptor.Within, if_neg (by simp [hexecutable]), hlast]
  exact hk

theorem Segmented.innerStack (h : Segmented L top p) :
    p.innerStack = some (kernelDsSelector, top) := by
  rw [Processor.innerStack, h.tr]
  simp only [Option.bind_eq_bind, Option.bind_some]
  rw [tss_linear L (by decide), tss_linear L (by decide)]
  have hesp0 : p.mem.read32 (L.gTss + 4) = top := h.esp0
  have hss0 : p.mem.read16 (L.gTss + 8) = kernelDsSelector := h.ss0
  rw [Option.bind_some, Option.bind_some, hesp0, hss0]
  rfl

/-! Interrupts. -/

theorem gate_entry (h : Installed L st top p) (v : Byte) :
    p.idtr.entry v.toNat = some (gateSlot L v.toNat) := by
  have hlimit : 8 * v.toNat + 7 ≤ (2047 : BitVec 16).toNat := by
    change 8 * v.toNat + 7 ≤ 2047
    have := v.isLt
    omega
  rw [h.idtr, Table.entry, if_pos hlimit]
  rfl

theorem gateOf_handled {stub : U32} (h : handlerOf st v = some stub) :
    gateOf st v = ⟨stub, 0x08, if v = syscallVector then 0xEF else interruptGate⟩ := by
  rw [gateOf, h]

theorem gateOf_unhandled (h : handlerOf st v = none) : gateOf st v = ⟨0, 0, 0⟩ := by
  rw [gateOf, h]

/-- The code of the gates is the kernel's. -/
theorem gate_code {cpl : BitVec 2} (h : Installed L st top p)
    (hfetch : p.fetch kernelCsSelector (·.enters cpl) = some (d, m)) :
    d = flatSegment 0x9B ∧ SameTables L p.mem m := by
  obtain ⟨-, -, hsame, i, hi, hs⟩ := Installed.fetched h
    (fun d => enters_touched d _) (fun _ => enters_ordinary) hfetch
  refine ⟨?_, hsame⟩
  rcases hi with ⟨rfl, hd⟩ | ⟨rfl, -⟩ | ⟨rfl, -⟩ | ⟨rfl, -⟩
  · exact hd
  · exact absurd hs (by decide)
  · exact absurd hs (by decide)
  · exact absurd hs (by decide)

/-- The stack for level 0 is switched to. -/
theorem switchStack_cases (h : Installed L st top p) (hswitch : p.switchStack = some q) :
    ∃ m, q = { p with ss := kernelData, esp := top, mem := m } := by
  rw [Processor.switchStack, Segmented.innerStack h.toSegmented] at hswitch
  simp only [Option.bind_eq_bind, Option.bind_some] at hswitch
  rw [if_neg (by decide), Option.bind_eq_some_iff] at hswitch
  obtain ⟨⟨d, m⟩, hfetch, hq⟩ := hswitch
  obtain rfl := Option.some.inj hq
  obtain ⟨hmem, hok, -, -⟩ := Installed.fetched h
    (fun d => loadsStack_touched d _ _) (fun _ => loadsStack_ordinary) hfetch
  refine ⟨m, ?_⟩
  rcases stack_segment _ _ _ hmem hok with ⟨-, -, rfl⟩ | ⟨hzero, -, -⟩
  · rfl
  · exact absurd hzero (by decide)

theorem enter_cases {words : List U32} {level : BitVec 2} (h : Installed L st top p)
    (hlevel : AtLevel p) (hlen : words.length < 2 ^ 10)
    (henter : p.enter (flatSegment 0x9B) words = some (q, level)) :
    level = 0 ∧ ∃ esp m, q = { p with ss := kernelData, esp := esp, mem := m } ∧
      (p.cpl = 3 → esp = top - BitVec.ofNat 32 (4 * (words.length + 2)) ∧
        m.Words esp (words.reverse ++ [p.esp, p.ss.selector.setWidth 32])) := by
  rcases AtLevel.cpl_cases hlevel with ⟨hcpl, -, hss⟩ | ⟨hcpl, -, hss⟩
  · rw [Processor.enter, hcpl, if_pos (by decide), Option.map_eq_some_iff] at henter
    obtain ⟨q', hpushes, hq⟩ := henter
    obtain ⟨rfl, rfl⟩ := Prod.mk.inj hq
    have hkernel : p.cpl ≠ 3 := by
      rw [hcpl]
      decide
    refine ⟨rfl, p.esp - BitVec.ofNat 32 (4 * words.length), p.mem.pushWords p.esp words, ?_,
      fun huser => absurd huser hkernel⟩
    rw [pushes_cases (.inl hss) hpushes, ← hss]
  · rw [Processor.enter, hcpl, if_neg (by decide), if_pos (by decide), Option.bind_eq_bind,
      Option.bind_eq_some_iff] at henter
    obtain ⟨inner, hswitch, hmap⟩ := henter
    obtain ⟨m, rfl⟩ := switchStack_cases h hswitch
    obtain ⟨q', hpushes, hq⟩ := Option.map_eq_some_iff.mp hmap
    obtain ⟨rfl, rfl⟩ := Prod.mk.inj hq
    have hpushed := pushes_cases (.inl rfl) hpushes
    have hcount : ([p.ss.selector.setWidth 32, p.esp] ++ words).length = words.length + 2 := by
      simp only [List.length_append, List.length_cons, List.length_nil]
      omega
    have hwords := Mem.words_pushWords (show m.Words top [] from trivial)
      ([p.ss.selector.setWidth 32, p.esp] ++ words) (by rw [hcount, List.length_nil]; omega)
    refine ⟨rfl, _, _, hpushed, fun _ => ⟨by rw [hcount], ?_⟩⟩
    simpa using hwords

/-- What an interrupt does: on the kernel's stack where it is, and from user code on the stack for
level 0. -/
theorem deliver_cases (h : Installed L st top p) (hlevel : AtLevel p)
    (hdeliver : p.deliver v error = some q) :
    ∃ stub esp m, handlerOf st v = some stub ∧
      q = { p with
        cs := kernelCode
        ss := kernelData
        eip := stub
        esp := esp
        eflags := q.eflags
        mem := m } ∧
      (p.cpl = 3 → esp = top - BitVec.ofNat 32 (4 * (userFrame p error).length) ∧
        m.Words esp (userFrame p error)) := by
  rw [Processor.deliver, gate_entry h] at hdeliver
  simp only [Option.bind_eq_bind, Option.bind_some, h.idt] at hdeliver
  split at hdeliver
  swap
  · cases hdeliver
  rename_i hgate
  cases hhandler : handlerOf st v with
  | none =>
    rw [gateOf_unhandled hhandler] at hgate
    exact absurd hgate (by decide)
  | some stub =>
    rw [gateOf_handled hhandler] at hdeliver
    simp only [Option.bind_eq_some_iff, Prod.exists] at hdeliver
    obtain ⟨d, m, hfetch, p', level, henter, hq⟩ := hdeliver
    obtain ⟨rfl, hsame⟩ := gate_code h hfetch
    have hkept : Installed L st top { p with mem := m } := Installed.keep h hsame rfl rfl rfl
    have hcount : ([p.eflags, p.cs.selector.setWidth 32, p.eip] ++ error.toList).length + 2 =
        (userFrame p error).length := by
      simp only [userFrame, List.length_append, List.length_cons, List.length_nil]
      omega
    have hshort : error.toList.length ≤ 1 := by cases error <;> simp
    obtain ⟨rfl, esp, m', rfl, hframe⟩ := enter_cases hkept hlevel (by simp; omega) henter
    obtain rfl := Option.some.inj hq
    refine ⟨stub, esp, m', rfl, rfl, fun hcpl => ?_⟩
    obtain ⟨hesp, hwords⟩ := hframe hcpl
    refine ⟨by rw [hesp, hcount], ?_⟩
    have hreverse : ([p.eflags, p.cs.selector.setWidth 32, p.eip] ++ error.toList).reverse ++
        [p.esp, p.ss.selector.setWidth 32] = userFrame p error := by
      cases error <;> rfl
    rw [← hreverse]
    exact hwords

/-! Returns. -/

theorem level_userCode : userCsSelector.rpl = 3 := by decide

theorem flat_conforming : ∀ d ∈ flats, d.conforming = false := by decide

/-- Nothing of the kernel's is left in the data registers outside. -/
theorem outerData_flat {reg : SegmentRegister}
    (hreg : ∀ d, reg.descriptor = some d → d ∈ flats)
    (hd : (outerData 3 reg).descriptor = some d) : d ∈ flats ∧ 3 ≤ d.dpl := by
  unfold outerData at hd
  cases hdesc : reg.descriptor with
  | none =>
    rw [hdesc] at hd
    exact absurd (hdesc.symm.trans hd) (by simp)
  | some d' =>
    rw [hdesc] at hd
    simp only at hd
    split at hd
    · cases hd
    · rename_i hkeeps
      obtain rfl := Option.some.inj (hdesc.symm.trans hd)
      have hmem := hreg _ hdesc
      refine ⟨hmem, ?_⟩
      simpa [flat_conforming _ hmem] using hkeeps

/-- A return stays at its level, or goes from the kernel to user code. -/
theorem iret_cases (h : Installed L st top p) (hlevel : AtLevel p) (hdata : FlatData p)
    (hret : p.iret = some q) :
    SameTables L p.mem q.mem ∧ q.gdtr = p.gdtr ∧ q.tr = p.tr ∧ q.idtr = p.idtr ∧ AtLevel q ∧
      p.cpl ≤ q.cpl ∧ FlatData q := by
  rw [Processor.iret] at hret
  simp only [Option.bind_eq_bind, Option.bind_eq_some_iff] at hret
  obtain ⟨eip, -, cs, -, eflags, -, hret⟩ := hret
  split at hret
  · cases hret
  simp only [Option.bind_eq_some_iff, Prod.exists] at hret
  obtain ⟨d, m, hfetch, hret⟩ := hret
  obtain ⟨hmem, hok, hsame, i, hi, hs⟩ := Installed.fetched h
    (fun d => returnsTo_touched d _ _) (fun _ => returnsTo_ordinary) hfetch
  obtain ⟨s, hsel⟩ : ∃ s : Selector, s = cs.setWidth 16 := ⟨_, rfl⟩
  rw [← hsel] at hok hret hs
  have hseg : p.cpl = 0 ∧ s.rpl = 0 ∧ (⟨s, some d⟩ : SegmentRegister) = kernelCode ∨
      s.rpl = 3 ∧ (⟨s, some d⟩ : SegmentRegister) = userCode := by
    rcases return_segment _ _ _ hmem hok with ⟨hcpl, hrpl, rfl⟩ | ⟨hrpl, rfl⟩
    · have hindex : i = 1 := by simpa [flatSegment] using hi
      refine .inl ⟨hcpl, hrpl, ?_⟩
      rw [hs, hrpl, hindex]
      rfl
    · have hindex : i = 3 := by simpa [flatSegment] using hi
      refine .inr ⟨hrpl, ?_⟩
      rw [hs, hrpl, hindex]
      rfl
  split at hret
  · rename_i hrpl
    obtain rfl := Option.some.inj hret
    refine ⟨hsame, rfl, rfl, rfl, ?_, ?_, ?_⟩
    · rcases AtLevel.cpl_cases hlevel with ⟨hcpl, -, hss⟩ | ⟨hcpl, -, hss⟩
      · rcases hseg with ⟨-, -, hcode⟩ | ⟨huser, -⟩
        · exact .inl ⟨hcode, hss⟩
        · rw [huser, hcpl] at hrpl
          exact absurd hrpl (by decide)
      · rcases hseg with ⟨hkernel, -⟩ | ⟨-, hcode⟩
        · rw [hcpl] at hkernel
          exact absurd hkernel (by decide)
        · exact .inr ⟨hcode, hss⟩
    · change p.cpl ≤ s.rpl
      rw [hrpl]
      exact BitVec.le_refl _
    · intro reg d' hd'
      obtain ⟨hflat, hdpl⟩ := hdata reg d' hd'
      exact ⟨hflat, by change s.rpl ≤ _; rwa [hrpl]⟩
  · rename_i hrpl
    rcases hseg with ⟨hcpl, hzero, -⟩ | ⟨hthree, hcode⟩
    · exact absurd (hzero.trans hcpl.symm) hrpl
    simp only [Option.bind_eq_some_iff] at hret
    obtain ⟨esp, -, ss, -, hload⟩ := hret
    have hkept : ∀ flags, Installed L st top { p with
        cs := ⟨s, some d⟩
        eip := eip
        eflags := flags
        mem := m
        esp := esp
        data := fun r => outerData s.rpl (p.data r) } :=
      fun flags => Installed.keep h hsame rfl rfl rfl
    obtain ⟨seg, m', rfl, hsame', hstack⟩ := loadStack_cases (hkept _) hload
    refine ⟨SameTables.trans hsame hsame', rfl, rfl, rfl, ?_, ?_, ?_⟩
    · rcases hstack with ⟨hzero, -⟩ | ⟨-, rfl⟩
      · have : s.rpl = 0 := hzero
        rw [hthree] at this
        exact absurd this (by decide)
      · exact .inr ⟨hcode, rfl⟩
    · change p.cpl ≤ s.rpl
      rw [hthree]
      have hmax : ∀ l : BitVec 2, l ≤ 3 := by decide
      exact hmax _
    · intro reg d' hd'
      change (outerData s.rpl (p.data reg)).descriptor = some d' at hd'
      rw [hthree] at hd'
      obtain ⟨hflat, hdpl⟩ := outerData_flat (fun d hd => (hdata reg d hd).1) hd'
      exact ⟨hflat, by change s.rpl ≤ _; rwa [hthree]⟩

/-! Runs. -/

/-- The tables, and the segments of one level. -/
structure Guarding (L : Tables) (st : Stubs) (top : U32) (p : Processor) : Prop where
  installed : Installed L st top p
  level : AtLevel p
  data : FlatData p

theorem setKernelStack_installed (h : Installed L st top p) (top' : U32) :
    Installed L st top' { p with mem := tssSetKernelStack L p.mem top' } := by
  have htss := L.tssEnds
  have houtside : ∀ x, 4 ≤ (x - (L.gTss + tssEsp0)).toNat → tssSetKernelStack L p.mem top' x = p.mem x :=
    fun x hx => Mem.write32_outside hx
  refine ⟨⟨h.gdtr, h.tr, ?_, Mem.read32_write32_same .., ?_, ?_⟩, h.idtr, ?_⟩
  · intro i hi
    rw [← h.gdt i hi]
    refine congrArg _ (descriptor_congr fun x hx => houtside x ?_)
    have := (slotOf_outside hi hx).1
    unfold tssEsp0
    bv_omega
  · rw [← h.ss0]
    refine read16_congr fun x hx => houtside x ?_
    unfold tssSs0 at hx
    unfold tssEsp0
    bv_omega
  · rw [← h.iomap]
    refine read16_congr fun x hx => houtside x ?_
    unfold tssIomapBase at hx
    unfold tssEsp0
    bv_omega
  · intro v
    rw [← h.idt v]
    refine gateEntry_congr fun x hx => houtside x ?_
    have := L.idtEnds
    have := v.isLt
    unfold gateSlot at hx
    unfold tssEsp0
    rcases L.tssIdt with h | h <;> bv_omega

theorem deliver_guarding (h : Guarding L st top p) (hdeliver : p.deliver v error = some q)
    (hsame : SameTables L p.mem q.mem) : Guarding L st top q := by
  obtain ⟨stub, esp, m, -, hq, -⟩ := deliver_cases h.installed h.level hdeliver
  rw [hq] at hsame ⊢
  refine ⟨Installed.keep h.installed hsame rfl rfl rfl, .inl ⟨rfl, rfl⟩, ?_⟩
  intro reg d hd
  refine ⟨(h.data reg d hd).1, ?_⟩
  change kernelCsSelector.rpl ≤ d.dpl
  rw [level_kernelCode]
  have hmin : ∀ l : BitVec 2, 0 ≤ l := by decide
  exact hmin _

theorem loadData_guarding {reg : DataRegister} (h : Guarding L st top p)
    (hload : p.loadData reg s = some q) : Guarding L st top q := by
  obtain ⟨seg, m, rfl, hsame, hseg⟩ := loadData_cases h.installed hload
  refine ⟨Installed.keep h.installed hsame rfl rfl rfl, h.level, ?_⟩
  intro reg' d hd
  change (Function.update p.data reg seg reg').descriptor = some d at hd
  by_cases hreg : reg' = reg
  · subst hreg
    rw [Function.update_self] at hd
    exact hseg d hd
  · rw [Function.update_of_ne hreg] at hd
    exact h.data reg' d hd

theorem loadStack_guarding (h : Guarding L st top p) (hload : p.loadStack s = some q) :
    Guarding L st top q := by
  obtain ⟨seg, m, rfl, hsame, hseg⟩ := loadStack_cases h.installed hload
  refine ⟨Installed.keep h.installed hsame rfl rfl rfl, ?_, h.data⟩
  rcases AtLevel.cpl_cases h.level with ⟨hcpl, hcs, -⟩ | ⟨hcpl, hcs, -⟩
  · rcases hseg with ⟨-, rfl⟩ | ⟨hthree, -⟩
    · exact .inl ⟨hcs, rfl⟩
    · rw [hcpl] at hthree
      exact absurd hthree (by decide)
  · rcases hseg with ⟨hzero, -⟩ | ⟨-, rfl⟩
    · rw [hcpl] at hzero
      exact absurd hzero (by decide)
    · exact .inr ⟨hcs, rfl⟩

theorem jump_guarding {eip : U32} (h : Guarding L st top p) (hjump : p.jump s eip = some q) :
    Guarding L st top q := by
  obtain ⟨seg, m, rfl, hsame, hseg⟩ := jump_cases h.installed hjump
  have hsame_level : seg.selector.rpl = p.cpl := by
    rcases hseg with ⟨hcpl, rfl⟩ | ⟨hcpl, rfl⟩
    · exact level_kernelCode.trans hcpl.symm
    · exact level_userCode.trans hcpl.symm
  refine ⟨Installed.keep h.installed hsame rfl rfl rfl, ?_, ?_⟩
  · rcases AtLevel.cpl_cases h.level with ⟨hcpl, -, hss⟩ | ⟨hcpl, -, hss⟩
    · rcases hseg with ⟨-, rfl⟩ | ⟨hthree, -⟩
      · exact .inl ⟨rfl, hss⟩
      · rw [hcpl] at hthree
        exact absurd hthree (by decide)
    · rcases hseg with ⟨hzero, -⟩ | ⟨-, rfl⟩
      · rw [hcpl] at hzero
        exact absurd hzero (by decide)
      · exact .inr ⟨rfl, hss⟩
  · intro reg d hd
    refine ⟨(h.data reg d hd).1, ?_⟩
    change seg.selector.rpl ≤ d.dpl
    rw [hsame_level]
    exact (h.data reg d hd).2

theorem int_deliver (h : Installed L st top p) (hint : p.int v = some q) :
    p.cpl ≤ (gateOf st v).dpl ∧ p.deliver v none = some q := by
  rw [Processor.int, gate_entry h] at hint
  simp only [Option.bind_eq_bind, Option.bind_some, h.idt] at hint
  split at hint
  · exact ⟨‹_›, hint⟩
  · cases hint

/-- Only the gate for system calls can be used from outside. -/
theorem gateOf_dpl (h : (3 : BitVec 2) ≤ (gateOf st v).dpl) : v = syscallVector := by
  by_contra hv
  cases hhandler : handlerOf st v with
  | none =>
    rw [gateOf_unhandled hhandler] at h
    exact absurd h (by decide)
  | some stub =>
    rw [gateOf_handled hhandler, if_neg hv] at h
    exact absurd h (by change ¬(3 : BitVec 2) ≤ interruptGate.extractLsb' 5 2; decide)

theorem Guarding.step {e : CpuEvent} (h : Guarding L st top p)
    (hstep : TrustedStep L (top, p) e (top', q)) : Guarding L st top' q := by
  obtain ⟨hstep, htrust, -⟩ := hstep
  cases hstep with
  | compute =>
    exact ⟨Installed.keep h.installed (htrust (by simp)) rfl rfl rfl, h.level, h.data⟩
  | loadData hload => exact loadData_guarding h hload
  | loadStack hload => exact loadStack_guarding h hload
  | jump hjump => exact jump_guarding h hjump
  | int hint => exact deliver_guarding h (int_deliver h.installed hint).2 (htrust (by simp))
  | interrupt hdeliver => exact deliver_guarding h hdeliver (htrust (by simp))
  | iret hret =>
    obtain ⟨hsame, hgdtr, htr, hidtr, hlevel, -, hdata⟩ :=
      iret_cases h.installed h.level h.data hret
    exact ⟨Installed.keep h.installed hsame hgdtr htr hidtr, hlevel, hdata⟩
  | setKernelStack => exact ⟨setKernelStack_installed h.installed _, h.level, h.data⟩

/-- From what the boot sets up on, the tables and the segments of one level. -/
theorem run_guarding {es : List CpuEvent} (h : Guarding L st top p)
    (hrun : Run (TrustedStep L) (top, p) es (top', q)) : Guarding L st top' q :=
  hrun.invariant (I := fun k => Guarding L st k.1 k.2) h fun _ _ _ h hstep => h.step hstep

/-! IOPL. -/

theorem iopl_congr (h : q.eflags = p.eflags) : q.iopl = p.iopl :=
  congrArg (·.extractLsb' 12 2) h

/-- A load of an entry does not touch the flags. -/
theorem fetch_eflags {ok : Descriptor → Bool} {f : Descriptor × Mem → Option Processor}
    (h : p.fetch s ok >>= f = some q) (hf : ∀ d m, ∃ r, f (d, m) = some r ∧ r.eflags = p.eflags) :
    q.eflags = p.eflags := by
  obtain ⟨⟨d, m⟩, -, hq⟩ := Option.bind_eq_some_iff.mp h
  obtain ⟨r, hr, hflags⟩ := hf d m
  obtain rfl := Option.some.inj (hr.symm.trans hq)
  exact hflags

theorem loadData_eflags {reg : DataRegister} (h : p.loadData reg s = some q) :
    q.eflags = p.eflags := by
  rw [Processor.loadData] at h
  split at h
  · obtain rfl := Option.some.inj h
    rfl
  · exact fetch_eflags h fun _ _ => ⟨_, rfl, rfl⟩

theorem loadStack_eflags (h : p.loadStack s = some q) : q.eflags = p.eflags := by
  rw [Processor.loadStack] at h
  split at h
  · cases h
  · exact fetch_eflags h fun _ _ => ⟨_, rfl, rfl⟩

theorem jump_eflags {eip : U32} (h : p.jump s eip = some q) : q.eflags = p.eflags := by
  rw [Processor.jump] at h
  split at h
  · cases h
  · exact fetch_eflags h fun _ _ => ⟨_, rfl, rfl⟩

theorem ltr_eflags (h : p.ltr s = some q) : q.eflags = p.eflags := by
  rw [Processor.ltr] at h
  split at h
  · cases h
  · simp only [Option.bind_eq_bind, Option.bind_eq_some_iff] at h
    obtain ⟨a, -, h⟩ := h
    split at h
    · obtain rfl := Option.some.inj h
      rfl
    · cases h

theorem deliver_iopl (h : p.deliver v error = some q) : q.iopl = p.iopl := by
  have hkeeps : ∀ cleared ∈ [gateFlags ||| flagIf, gateFlags],
      (p.eflags &&& ~~~cleared).extractLsb' 12 2 = p.eflags.extractLsb' 12 2 := by
    intro cleared hcleared
    have hones : (~~~cleared).extractLsb' 12 2 = BitVec.allOnes 2 := by
      simp only [List.mem_cons, List.not_mem_nil, or_false] at hcleared
      rcases hcleared with rfl | rfl <;> decide
    rw [BitVec.extractLsb'_and, hones, BitVec.and_allOnes]
  rw [Processor.deliver] at h
  simp only [Option.bind_eq_bind, Option.bind_eq_some_iff] at h
  obtain ⟨a, -, h⟩ := h
  split at h
  · simp only [Option.bind_eq_some_iff, Prod.exists] at h
    obtain ⟨d, m, -, p', level, -, hq⟩ := h
    obtain rfl := Option.some.inj hq
    apply hkeeps
    split <;> simp
  · cases h

theorem int_iopl (h : p.int v = some q) : q.iopl = p.iopl := by
  rw [Processor.int] at h
  simp only [Option.bind_eq_bind, Option.bind_eq_some_iff] at h
  obtain ⟨a, -, h⟩ := h
  split at h
  · exact deliver_iopl h
  · cases h

/-- Only the kernel can put back another IOPL. -/
theorem restoredFlags_iopl (hcpl : p.cpl ≠ 0) (eflags : U32) :
    (p.restoredFlags eflags).extractLsb' 12 2 = p.iopl := by
  have hkeeps : ∀ kept ∈ [flagIopl ||| 0, flagIopl ||| flagIf],
      ((eflags &&& ~~~kept) ||| (p.eflags &&& kept)).extractLsb' 12 2 = p.iopl := by
    intro kept hkept
    have hones : kept.extractLsb' 12 2 = BitVec.allOnes 2 ∧ (~~~kept).extractLsb' 12 2 = 0 := by
      simp only [List.mem_cons, List.not_mem_nil, or_false] at hkept
      rcases hkept with rfl | rfl <;> decide
    rw [BitVec.extractLsb'_or, BitVec.extractLsb'_and, BitVec.extractLsb'_and, hones.1, hones.2,
      BitVec.and_allOnes]
    simp [iopl]
  rw [Processor.restoredFlags, if_neg hcpl]
  apply hkeeps
  split <;> simp

theorem iret_iopl (hcpl : p.cpl ≠ 0) (h : p.iret = some q) : q.iopl = p.iopl := by
  rw [Processor.iret] at h
  simp only [Option.bind_eq_bind, Option.bind_eq_some_iff] at h
  obtain ⟨eip, -, cs, -, eflags, -, h⟩ := h
  split at h
  · cases h
  simp only [Option.bind_eq_some_iff, Prod.exists] at h
  obtain ⟨d, m, -, h⟩ := h
  split at h
  · obtain rfl := Option.some.inj h
    exact restoredFlags_iopl hcpl eflags
  · simp only [Option.bind_eq_some_iff] at h
    obtain ⟨esp, -, ss, -, hload⟩ := h
    have hflags := loadStack_eflags hload
    rw [iopl, hflags]
    exact restoredFlags_iopl hcpl eflags

theorem trusted_iopl {e : CpuEvent} (h : TrustedStep L (top, p) e (top', q)) :
    q.iopl = p.iopl := by
  obtain ⟨hstep, -, htrust⟩ := h
  by_cases hcpl : p.cpl = 0
  · exact htrust hcpl
  · cases hstep with
    | compute hkeeps => exact hkeeps hcpl
    | loadData hload => exact iopl_congr (loadData_eflags hload)
    | loadStack hload => exact iopl_congr (loadStack_eflags hload)
    | jump hjump => exact iopl_congr (jump_eflags hjump)
    | int hint => exact int_iopl hint
    | interrupt hdeliver => exact deliver_iopl hdeliver
    | iret hret => exact iret_iopl hcpl hret
    | setKernelStack => rfl

theorem run_iopl {es : List CpuEvent} (hrun : Run (TrustedStep L) (top, p) es (top', q)) :
    q.iopl = p.iopl :=
  hrun.invariant (I := fun k => k.2.iopl = p.iopl) rfl fun _ _ _ h hstep => (trusted_iopl hstep).trans h

theorem gdtTssInit_eflags (h : gdtTssInit L top p = some q) : q.eflags = p.eflags := by
  simp only [gdtTssInit, Option.bind_eq_bind, Option.bind_eq_some_iff] at h
  obtain ⟨p₁, hgdt, p₂, hds, p₃, hes, p₄, hfs, p₅, hgs, p₆, hss, p₇, hcs, htr⟩ := h
  have hlgdt : p₁.eflags = p.eflags := by
    rw [lgdt] at hgdt
    split at hgdt
    · obtain rfl := Option.some.inj hgdt
      rfl
    · cases hgdt
  calc q.eflags = p₇.eflags := ltr_eflags htr
    _ = p₆.eflags := jump_eflags hcs
    _ = p₅.eflags := loadStack_eflags hss
    _ = p₄.eflags := loadData_eflags hgs
    _ = p₃.eflags := loadData_eflags hfs
    _ = p₂.eflags := loadData_eflags hes
    _ = p₁.eflags := loadData_eflags hds
    _ = p.eflags := hlgdt

theorem idtInit_eflags (h : idtInit L st p = some q) : q.eflags = p.eflags := by
  rw [idtInit, lidt] at h
  split at h
  · obtain rfl := Option.some.inj h
    rfl
  · cases h

theorem boot_guarding (L : Tables) (st : Stubs) (top : U32) (hlevel : p.cpl = 0) :
    ∃ q, (gdtTssInit L top p).bind (idtInit L st) = some q ∧ Guarding L st top q ∧
      q.cpl = 0 := by
  obtain ⟨p₁, hgdt, hseg, hcs, hss, hdata⟩ := gdtTssInit_segmented L top hlevel
  have hcpl : p₁.cpl = 0 := by
    rw [Processor.cpl, hcs]
    exact level_kernelCode
  obtain ⟨q, hidt, hinstalled, hcs', hss', hdata'⟩ := idtInit_installed st hseg hcpl
  have hcpl' : q.cpl = 0 := by rw [Processor.cpl, hcs', ← Processor.cpl, hcpl]
  refine ⟨q, by rw [hgdt]; exact hidt, ⟨hinstalled, .inl ⟨hcs'.trans hcs, hss'.trans hss⟩, ?_⟩, hcpl'⟩
  intro reg d hd
  rw [hdata', hdata] at hd
  obtain rfl := Option.some.inj hd
  refine ⟨by simp, ?_⟩
  rw [hcpl']
  decide

/-- The boot faults outside of level 0. -/
theorem gdtTssInit_level (h : gdtTssInit L top p = some q) : p.cpl = 0 := by
  by_contra hcpl
  have hlgdt : Processor.lgdt { p with mem := gdtTables L p.mem top } ⟨L.gGdt, 8 * 6 - 1⟩ = none :=
    if_neg hcpl
  simp only [gdtTssInit, hlgdt] at h
  cases h

theorem booted {p₀ : Processor} (hboot : (gdtTssInit L top p₀).bind (idtInit L st) = some p) :
    Guarding L st top p ∧ p.cpl = 0 ∧ p.iopl = p₀.iopl := by
  obtain ⟨p₁, hgdt, hidt⟩ := Option.bind_eq_some_iff.mp hboot
  obtain ⟨q, hq, hguarding, hcpl⟩ := boot_guarding L st top (gdtTssInit_level hgdt)
  obtain rfl := Option.some.inj (hboot.symm.trans hq)
  exact ⟨hguarding, hcpl, iopl_congr ((idtInit_eflags hidt).trans (gdtTssInit_eflags hgdt))⟩

/-- In every run of the kernel and user code trusted with the tables, with interrupts and exceptions
at any time, user code comes to the kernel at a handler that `interrupts_init` has put in, on the
stack that the kernel has set last, and by an instruction of its own only with the vector for system
calls. -/
theorem ring3_enters_at_gates {p₀ p₁ : Processor} {top₀ : U32} {es : List CpuEvent} {e : CpuEvent}
    (hboot : (gdtTssInit L top₀ p₀).bind (idtInit L st) = some p₁)
    (hrun : Run (TrustedStep L) (top₀, p₁) es (top, p)) (huser : p.cpl = 3)
    (hstep : CpuStep L (top, p) e (top', q)) :
    q.cpl = 3 ∨ ∃ v error, (e = .int syscallVector ∧ v = syscallVector ∧ error = none ∨
      e = .interrupt v error) ∧ Entered st top p v error q := by
  have h := run_guarding (booted hboot).1 hrun
  have hentered : ∀ {v error q}, p.deliver v error = some q → Entered st top p v error q := by
    intro v error q hdeliver
    obtain ⟨stub, esp, m, hhandler, hq, hframe⟩ := deliver_cases h.installed h.level hdeliver
    obtain ⟨hesp, hwords⟩ := hframe huser
    rw [hq]
    exact ⟨hhandler, rfl, rfl, rfl, hesp, hwords⟩
  cases hstep with
  | compute => exact .inl huser
  | loadData hload =>
    obtain ⟨seg, m, rfl, -⟩ := loadData_cases h.installed hload
    exact .inl huser
  | loadStack hload =>
    obtain ⟨seg, m, rfl, -⟩ := loadStack_cases h.installed hload
    exact .inl huser
  | jump hjump =>
    obtain ⟨seg, m, rfl, -, hseg⟩ := jump_cases h.installed hjump
    rcases hseg with ⟨hzero, -⟩ | ⟨-, rfl⟩
    · rw [huser] at hzero
      exact absurd hzero (by decide)
    · exact .inl level_userCode
  | int hint =>
    obtain ⟨hdpl, hdeliver⟩ := int_deliver h.installed hint
    rw [huser] at hdpl
    obtain rfl := gateOf_dpl hdpl
    exact .inr ⟨_, _, .inl ⟨rfl, rfl, rfl⟩, hentered hdeliver⟩
  | interrupt hdeliver => exact .inr ⟨_, _, .inr rfl, hentered hdeliver⟩
  | iret hret =>
    obtain ⟨-, -, -, -, -, hcpl, -⟩ := iret_cases h.installed h.level h.data hret
    rw [huser] at hcpl
    have hmax : ∀ l : BitVec 2, 3 ≤ l → l = 3 := by decide
    exact .inl (hmax _ hcpl)
  | setKernelStack hzero =>
    rw [huser] at hzero
    exact absurd hzero (by decide)

end Kernix.Proofs
