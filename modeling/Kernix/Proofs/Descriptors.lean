import Kernix.Gdt.Rings
import Kernix.Library.Bits

namespace Kernix.Proofs
open Library Gdt Interrupts

variable {L : Tables} {m m' : Mem} {a x : U32} {i j : Nat}

/-! What the processor reads of an entry. -/

theorem descriptor_congr (h : ∀ x, (x - a).toNat < 8 → m' x = m x) :
    m'.descriptor a = m.descriptor a := by
  have hbyte : ∀ k : U32, k.toNat < 8 → m' (a + k) = m (a + k) := fun k hk => h _ (by bv_omega)
  have h0 : m' a = m a := h a (by simp)
  simp only [Mem.descriptor, h0, hbyte 1 (by decide), hbyte 2 (by decide), hbyte 3 (by decide),
    hbyte 4 (by decide), hbyte 5 (by decide), hbyte 6 (by decide), hbyte 7 (by decide)]

theorem read16_congr (h : ∀ x, (x - a).toNat < 2 → m' x = m x) : m'.read16 a = m.read16 a := by
  rw [Mem.read16, Mem.read16, h a (by simp), h (a + 1) (by bv_omega)]

theorem gateEntry_congr (h : ∀ x, (x - a).toNat < 8 → m' x = m x) :
    m'.gateEntry a = m.gateEntry a := by
  have hfield : ∀ k : U32, k.toNat < 7 → m'.read16 (a + k) = m.read16 (a + k) :=
    fun k hk => read16_congr fun x hx => h x (by bv_omega)
  have h0 : m'.read16 a = m.read16 a := read16_congr fun x hx => h x (by omega)
  have h5 : m' (a + 5) = m (a + 5) := h _ (by bv_omega)
  simp only [Mem.gateEntry, h0, h5, hfield 2 (by decide), hfield 6 (by decide)]

theorem write8_outside {v : Byte} (h : x ≠ a) : m.write8 a v x = m x := if_neg h

theorem write16_outside {v : BitVec 16} (h : 2 ≤ (x - a).toNat) : m.write16 a v x = m x := by
  rw [Mem.write16, write8_outside (by rintro rfl; bv_omega),
    write8_outside (by rintro rfl; simp at h)]

theorem read16_write16 (m : Mem) (a : U32) (v : BitVec 16) : (m.write16 a v).read16 a = v := by
  have hne : a ≠ a + 1 := by bv_omega
  simp only [Mem.read16, Mem.write16, Mem.write8, if_neg hne, ↓reduceIte]
  apply BitVec.eq_of_getLsbD_eq
  intro i hi
  simp only [BitVec.getLsbD_append, BitVec.getLsbD_extractLsb', BitVec.getLsbD_setWidth]
  grind

/-! The fields of `gdt_set_entry`, put together again. -/

theorem low_half (x : U32) : (x &&& 0xFFFF).setWidth 16 = x.extractLsb' 0 16 := by
  rw [← shift_and_eq_extract, BitVec.ushiftRight_zero]
  rfl

theorem base_fields (base : U32) :
    ((base >>> 24) &&& 0xFF).setWidth 8 ++ ((base >>> 16) &&& 0xFF).setWidth 8 ++
      ((base &&& 0xFFFF).setWidth 16).extractLsb' 8 8 ++
      ((base &&& 0xFFFF).setWidth 16).setWidth 8 = base := by
  have hhigh : ((base >>> 24) &&& 0xFF).setWidth 8 = base.extractLsb' 24 8 :=
    shift_and_eq_extract base 24 8
  have hmid : ((base >>> 16) &&& 0xFF).setWidth 8 = base.extractLsb' 16 8 :=
    shift_and_eq_extract base 16 8
  rw [hhigh, hmid, low_half]
  apply BitVec.eq_of_getLsbD_eq
  intro i hi
  simp only [BitVec.getLsbD_append, BitVec.getLsbD_extractLsb', BitVec.getLsbD_setWidth]
  grind

/-- The byte that the limit and the flags share. -/
theorem granularity_bits (limit : U32) (flags : Byte) :
    ((((limit >>> 16) &&& 0x0F) ||| (flags.setWidth 32 &&& 0xF0)).setWidth 8).setWidth 4 =
        limit.extractLsb' 16 4 ∧
      ((((limit >>> 16) &&& 0x0F) ||| (flags.setWidth 32 &&& 0xF0)).setWidth 8).extractLsb' 4 4 =
        flags.extractLsb' 4 4 := by
  constructor
  · apply BitVec.eq_of_getLsbD_eq
    intro i hi
    have hcases : i = 0 ∨ i = 1 ∨ i = 2 ∨ i = 3 := by omega
    rcases hcases with rfl | rfl | rfl | rfl <;> simp
  · apply BitVec.eq_of_getLsbD_eq
    intro i hi
    have hcases : i = 0 ∨ i = 1 ∨ i = 2 ∨ i = 3 := by omega
    rcases hcases with rfl | rfl | rfl | rfl <;> simp

theorem limit_fields (limit : U32) :
    limit.extractLsb' 16 4 ++ ((limit &&& 0xFFFF).setWidth 16).extractLsb' 8 8 ++
      ((limit &&& 0xFFFF).setWidth 16).setWidth 8 = limit.setWidth 20 := by
  rw [low_half]
  apply BitVec.eq_of_getLsbD_eq
  intro i hi
  simp only [BitVec.getLsbD_append, BitVec.getLsbD_extractLsb', BitVec.getLsbD_setWidth]
  grind

theorem gdtSetEntry_descriptor (L : Tables) (m : Mem) (index base limit : U32)
    (access flags : Byte) :
    (gdtSetEntry L m index base limit access flags).descriptor (L.gGdt + 8 * index) =
      ⟨base, limit.setWidth 20, access, flags.extractLsb' 4 4⟩ := by
  simp only [gdtSetEntry, Mem.descriptor]
  generalize L.gGdt + 8 * index = e
  simp only [Mem.write16, Mem.write8, BitVec.add_assoc, add_right_inj, left_eq_add,
    BitVec.reduceAdd, BitVec.reduceEq, ↓reduceIte]
  rw [base_fields, (granularity_bits limit flags).1, (granularity_bits limit flags).2,
    limit_fields]

theorem gdtSetEntry_outside {index base limit : U32} {access flags : Byte}
    (h : 8 ≤ (x - (L.gGdt + 8 * index)).toNat) :
    gdtSetEntry L m index base limit access flags x = m x := by
  simp only [gdtSetEntry]
  generalize L.gGdt + 8 * index = e at h ⊢
  rw [write8_outside (by rintro rfl; bv_omega), write8_outside (by rintro rfl; bv_omega),
    write8_outside (by rintro rfl; bv_omega), write8_outside (by rintro rfl; bv_omega),
    write16_outside (by bv_omega), write16_outside (by omega)]

/-! The gates. -/

theorem offset_fields (handler : U32) :
    ((handler >>> 16) &&& 0xFFFF).setWidth 16 ++ (handler &&& 0xFFFF).setWidth 16 = handler := by
  have hhigh : ((handler >>> 16) &&& 0xFFFF).setWidth 16 = handler.extractLsb' 16 16 :=
    shift_and_eq_extract handler 16 16
  rw [hhigh, low_half]
  apply BitVec.eq_of_getLsbD_eq
  intro i hi
  simp only [BitVec.getLsbD_append, BitVec.getLsbD_extractLsb']
  grind

theorem storeGate_gateEntry (L : Tables) (m : Mem) (i : U32) (low selector : BitVec 16)
    (zero typeAttr : Byte) (high : BitVec 16) :
    (storeGate L m i low selector zero typeAttr high).gateEntry (L.gIdt + 8 * i) =
      ⟨high ++ low, selector, typeAttr⟩ := by
  simp only [storeGate, Mem.gateEntry, Mem.read16]
  generalize L.gIdt + 8 * i = e
  simp only [Mem.write16, Mem.write8, BitVec.add_assoc, add_right_inj, left_eq_add,
    BitVec.reduceAdd, BitVec.reduceEq, ↓reduceIte, halves]

theorem storeGate_outside {i : U32} {low selector : BitVec 16} {zero typeAttr : Byte}
    {high : BitVec 16} (h : 8 ≤ (x - (L.gIdt + 8 * i)).toNat) :
    storeGate L m i low selector zero typeAttr high x = m x := by
  simp only [storeGate]
  generalize L.gIdt + 8 * i = e at h ⊢
  rw [write16_outside (by bv_omega), write8_outside (by rintro rfl; bv_omega),
    write8_outside (by rintro rfl; bv_omega), write16_outside (by bv_omega),
    write16_outside (by omega)]

/-- A gate is set in its slot and in no other. -/
theorem storeGate_gates (L : Tables) (m : Mem) {i v : Nat} (hi : i < 256) (hv : v < 256)
    (low selector : BitVec 16) (zero typeAttr : Byte) (high : BitVec 16) :
    (storeGate L m (BitVec.ofNat 32 i) low selector zero typeAttr high).gateEntry (gateSlot L v) =
      if v = i then ⟨high ++ low, selector, typeAttr⟩ else m.gateEntry (gateSlot L v) := by
  have hslot : ∀ k < 256, gateSlot L k = L.gIdt + 8 * BitVec.ofNat 32 k := by
    intro k hk
    unfold gateSlot
    bv_omega
  by_cases h : v = i
  · rw [if_pos h, h, hslot i hi, storeGate_gateEntry]
  · rw [if_neg h]
    apply gateEntry_congr
    intro x hx
    apply storeGate_outside
    rw [hslot v hv] at hx
    have := L.idtEnds
    bv_omega

theorem clearIdt_gates (L : Tables) (m : Mem) {n v : Nat} (hn : n ≤ 256) (hv : v < n) :
    (clearIdt L m n).gateEntry (gateSlot L v) = ⟨0, 0, 0⟩ := by
  induction n with
  | zero => exact absurd hv (Nat.not_lt_zero v)
  | succ n ih =>
    rw [clearIdt, storeGate_gates L _ (by omega) (by omega)]
    split
    · rfl
    · exact ih (by omega) (by omega)

theorem idtSetGate_gates (L : Tables) (m : Mem) (w v : Byte) (handler : U32) (typeAttr : Byte) :
    (idtSetGate L m w handler typeAttr).gateEntry (gateSlot L v.toNat) =
      if v = w then ⟨handler, 0x08, typeAttr⟩ else m.gateEntry (gateSlot L v.toNat) := by
  have hw : w.setWidth 32 = BitVec.ofNat 32 w.toNat := by
    apply BitVec.eq_of_toNat_eq
    simp
  rw [idtSetGate, hw, storeGate_gates L m w.isLt v.isLt, offset_fields]
  simp only [BitVec.toNat_inj]

/-- What the processor reads of the interrupt table, at every vector. -/
theorem idtTable_gates (L : Tables) (s : Stubs) (m : Mem) (v : Byte) :
    (idtTable L s m).gateEntry (gateSlot L v.toNat) = gateOf s v := by
  simp only [idtTable, idtSetGate_gates, clearIdt_gates L m (le_refl idtEntries) v.isLt]
  by_cases hvector : v ∈ [excDivideByZeroVector, excGeneralProtectionVector, excPageFaultVector,
    irq0Vector, irq1Vector, syscallVector]
  · simp only [List.mem_cons, List.not_mem_nil, or_false] at hvector
    rcases hvector with rfl | rfl | rfl | rfl | rfl | rfl <;> rfl
  · simp only [List.mem_cons, List.not_mem_nil, or_false, not_or] at hvector
    obtain ⟨h0, h13, h14, h32, h33, h144⟩ := hvector
    simp only [gateOf, handlerOf, if_neg h0, if_neg h13, if_neg h14, if_neg h32, if_neg h33,
      if_neg h144]

end Kernix.Proofs
