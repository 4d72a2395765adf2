import Kernix.Memory.Heap

namespace Kernix.Proofs
open Library Memory Memory.HeapBlock

@[simp] theorem headerSize_eq : headerSize = 24 := by decide

@[simp] theorem minSplitPayload_eq : minSplitPayload = 8 := rfl

/-- Every write to a header field stays in that header. -/
theorem write_header_outside {m : Mem} {a x : U32} (hx : ¬ InHeader a x) (off v : U32)
    (ho : off.toNat ≤ 16) : m.write32 (a + off) v x = m x := by
  apply Mem.write32_outside
  unfold InHeader at hx
  bv_omega

theorem load_congr {m m' : Mem} {a : U32} (h : ∀ x, InHeader a x → m' x = m x) :
    load m' a = load m a := by
  have hw : ∀ off : U32, off.toNat ≤ 16 → m'.read32 (a + off) = m.read32 (a + off) := by
    intro off ho
    apply Mem.read32_congr
    intro x hx
    apply h
    unfold InHeader
    bv_omega
  have h0 : m'.read32 a = m.read32 a := by simpa using hw 0 (by decide)
  simp only [load, h0, hw 4 (by decide), hw 8 (by decide), hw 12 (by decide), hw 16 (by decide)]

/-- A write to one header leaves a header apart from it alone. -/
theorem load_write_apart {m : Mem} {a b : U32} (h : Apart 20 a b) (off v : U32)
    (ho : off.toNat ≤ 16) :
    load (m.write32 (a + off) v) b = load m b := by
  apply load_congr
  intro x hx
  refine write_header_outside ?_ off v ho
  obtain ⟨hab, hba⟩ := h
  unfold InHeader at hx ⊢
  bv_omega

section apart
variable {m : Mem} {a b : U32} (h : Apart 20 a b) (v : U32)
include h

theorem load_setMagic_apart : load (setMagic m a v) b = load m b := by
  simpa [setMagic] using load_write_apart (m := m) h 0 v (by decide)

theorem load_setSize_apart : load (setSize m a v) b = load m b := load_write_apart h 4 v (by decide)

theorem load_setFree_apart : load (setFree m a v) b = load m b := load_write_apart h 8 v (by decide)

theorem load_setPrev_apart : load (setPrev m a v) b = load m b := load_write_apart h 12 v (by decide)

theorem load_setNext_apart : load (setNext m a v) b = load m b := load_write_apart h 16 v (by decide)

end apart

section self
variable (m : Mem) (a v : U32)

/-- One field of a header is written; the other four keep their words. -/
theorem read32_write_field (i j : U32) (hi : i.toNat ≤ 16) (hj : j.toNat ≤ 16)
    (hij : i.toNat + 4 ≤ j.toNat ∨ j.toNat + 4 ≤ i.toNat) :
    (m.write32 (a + i) v).read32 (a + j) = m.read32 (a + j) := by
  apply Mem.read32_write32_apart
  rcases hij with h | h
  · exact apart_same a i j h (by omega)
  · exact (apart_same a j i h (by omega)).symm

@[simp] theorem load_setMagic_self :
    load (setMagic m a v) a = { load m a with magic := v } := by
  have h : ∀ j : U32, 4 ≤ j.toNat → j.toNat ≤ 16 →
      (m.write32 a v).read32 (a + j) = m.read32 (a + j) := by
    intro j h4 hj
    simpa using read32_write_field m a v 0 j (by decide) hj (by simpa using h4)
  simp only [load, setMagic, Mem.read32_write32_same, h 4 (by decide) (by decide),
    h 8 (by decide) (by decide), h 12 (by decide) (by decide), h 16 (by decide) (by decide)]

@[simp] theorem load_setSize_self :
    load (setSize m a v) a = { load m a with size := v } := by
  have h := fun j => read32_write_field m a v 4 j (by decide)
  have h0 : (m.write32 (a + 4) v).read32 a = m.read32 a := by
    simpa using h 0 (by decide) (by decide)
  simp only [load, setSize, Mem.read32_write32_same, h0, h 8 (by decide) (by decide),
    h 12 (by decide) (by decide), h 16 (by decide) (by decide)]

@[simp] theorem load_setFree_self :
    load (setFree m a v) a = { load m a with free := v } := by
  have h := fun j => read32_write_field m a v 8 j (by decide)
  have h0 : (m.write32 (a + 8) v).read32 a = m.read32 a := by
    simpa using h 0 (by decide) (by decide)
  simp only [load, setFree, Mem.read32_write32_same, h0, h 4 (by decide) (by decide),
    h 12 (by decide) (by decide), h 16 (by decide) (by decide)]

@[simp] theorem load_setPrev_self :
    load (setPrev m a v) a = { load m a with prev := v } := by
  have h := fun j => read32_write_field m a v 12 j (by decide)
  have h0 : (m.write32 (a + 12) v).read32 a = m.read32 a := by
    simpa using h 0 (by decide) (by decide)
  simp only [load, setPrev, Mem.read32_write32_same, h0, h 4 (by decide) (by decide),
    h 8 (by decide) (by decide), h 16 (by decide) (by decide)]

@[simp] theorem load_setNext_self :
    load (setNext m a v) a = { load m a with next := v } := by
  have h := fun j => read32_write_field m a v 16 j (by decide)
  have h0 : (m.write32 (a + 16) v).read32 a = m.read32 a := by
    simpa using h 0 (by decide) (by decide)
  simp only [load, setNext, Mem.read32_write32_same, h0, h 4 (by decide) (by decide),
    h 8 (by decide) (by decide), h 12 (by decide) (by decide)]

end self

section outside
variable {m : Mem} {a x : U32} (h : ¬ InHeader a x) (v : U32)
include h

theorem setMagic_outside : setMagic m a v x = m x := by
  simpa [setMagic] using write_header_outside (m := m) h 0 v (by decide)

theorem setSize_outside : setSize m a v x = m x := write_header_outside h 4 v (by decide)

theorem setFree_outside : setFree m a v x = m x := write_header_outside h 8 v (by decide)

theorem setPrev_outside : setPrev m a v x = m x := write_header_outside h 12 v (by decide)

theorem setNext_outside : setNext m a v x = m x := write_header_outside h 16 v (by decide)

end outside

/-- The five stores that lay a whole header down. -/
def writeHeader (m : Mem) (a : U32) (h : HeapBlock) : Mem :=
  setNext (setPrev (setFree (setSize (setMagic m a h.magic) a h.size) a h.free) a h.prev) a h.next

@[simp] theorem load_writeHeader_self (m : Mem) (a : U32) (h : HeapBlock) :
    load (writeHeader m a h) a = h := by
  simp [writeHeader]

theorem load_writeHeader_apart {m : Mem} {a b : U32} (hab : Apart 20 a b) (h : HeapBlock) :
    load (writeHeader m a h) b = load m b := by
  simp only [writeHeader, load_setMagic_apart hab, load_setSize_apart hab, load_setFree_apart hab,
    load_setPrev_apart hab, load_setNext_apart hab]

theorem writeHeader_outside {m : Mem} {a x : U32} (hx : ¬ InHeader a x) (h : HeapBlock) :
    writeHeader m a h x = m x := by
  simp only [writeHeader, setMagic_outside hx, setSize_outside hx, setFree_outside hx,
    setPrev_outside hx, setNext_outside hx]

/-- `if (next) next->prev = a`. -/
def linkBack (m : Mem) (next a : U32) : Mem :=
  if next ≠ nullptr then setPrev m next a else m

end Kernix.Proofs
