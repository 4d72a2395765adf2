import Kernix.Memory.Paging
import Kernix.Proofs.Align

namespace Kernix.Proofs
open Library Memory

variable {L : Layout} {pg : Paging} {m : Mem} {x y d e j k v w : U32} {i : Nat}

/-! The 33 arrays of 1024 words: the directory and the tables of the pool. -/

/-- `x` is one of the paging arrays. -/
def PagingArray (L : Layout) (x : U32) : Prop := x = L.pageDirectory ∨ ∃ i < 32, x = L.table i

theorem toNat_table (L : Layout) (hi : i < 32) :
    (L.table i).toNat = L.pageTablePool.toNat + 4096 * i := by
  have := L.pool_end
  unfold Layout.table
  bv_omega

theorem table_array (L : Layout) (hi : i < 32) : PagingArray L (L.table i) := .inr ⟨i, hi, rfl⟩

theorem directory_array (L : Layout) : PagingArray L L.pageDirectory := .inl rfl

theorem table_ne_null (L : Layout) (hi : i < 32) : L.table i ≠ nullptr := by
  have := toNat_table L hi
  have := L.pool_pos
  intro he
  simp [he, nullptr] at *
  omega

theorem table_inj {i' : Nat} (hi : i < 32) (hi' : i' < 32) (he : L.table i = L.table i') :
    i = i' := by
  have h := toNat_table L hi
  have h' := toNat_table L hi'
  rw [he] at h
  omega

theorem table_ne_directory (hi : i < 32) : L.table i ≠ L.pageDirectory := by
  intro he
  have h := toNat_table L hi
  have := L.disjoint
  rw [he] at h
  omega

theorem PagingArray.bounds (hx : PagingArray L x) : x.toNat % 4096 = 0 ∧ x.toNat + 4096 ≤ 2 ^ 32 := by
  rcases hx with rfl | ⟨i, hi, rfl⟩
  · exact ⟨L.directory_aligned, L.directory_end⟩
  · have := toNat_table L hi
    have := L.pool_aligned
    have := L.pool_end
    omega

theorem toNat_entryAt (hx : PagingArray L x) (hk : k.toNat < 1024) :
    (entryAt x k).toNat = x.toNat + 4 * k.toNat := by
  have := hx.bounds
  unfold entryAt
  bv_omega

/-- Two entries are one, or share no byte. -/
theorem entry_apart (hx : PagingArray L x) (hy : PagingArray L y) (hj : j.toNat < 1024) (hk : k.toNat < 1024)
    (hne : ¬ (x = y ∧ j = k)) : Apart 4 (entryAt x j) (entryAt y k) := by
  have hxb := hx.bounds
  have hyb := hy.bounds
  have hxj := toNat_entryAt hx hj
  have hyk := toNat_entryAt hy hk
  have hne : x.toNat ≠ y.toNat ∨ j.toNat ≠ k.toNat := by
    by_contra hno
    obtain ⟨h1, h2⟩ := not_or.mp hno
    exact hne ⟨BitVec.eq_of_toNat_eq (not_not.mp h1), BitVec.eq_of_toNat_eq (not_not.mp h2)⟩
  have hlt : x.toNat + 4 * j.toNat + 4 ≤ y.toNat + 4 * k.toNat ∨
      y.toNat + 4 * k.toNat + 4 ≤ x.toNat + 4 * j.toNat := by omega
  rcases hlt with h | h
  · exact apart_of_le (by omega) (by omega)
  · exact (apart_of_le (by omega) (by omega)).symm

theorem read_write_entry (hx : PagingArray L x) (hy : PagingArray L y) (hj : j.toNat < 1024)
    (hk : k.toNat < 1024) (v : U32) :
    (m.write32 (entryAt x j) v).read32 (entryAt y k) =
      if x = y ∧ j = k then v else m.read32 (entryAt y k) := by
  split
  · rename_i he
    rw [he.1, he.2, Mem.read32_write32_same]
  · rename_i hne
    exact Mem.read32_write32_apart (entry_apart hx hy hj hk hne)

theorem read_storeWords_entry (hx : PagingArray L x) (hy : PagingArray L y) (hk : k.toNat < 1024)
    (f : Nat → U32) :
    (m.storeWords x f pageEntries).read32 (entryAt y k) =
      if x = y then f k.toNat else m.read32 (entryAt y k) := by
  have hentry : ∀ z, entryAt z k = z + BitVec.ofNat 32 (4 * k.toNat) := by
    intro z
    unfold entryAt
    bv_omega
  split
  · rename_i he
    rw [← he, hentry]
    exact Mem.read32_storeWords (by decide) hk
  · rename_i hne
    have hxb := hx.bounds
    have hyb := hy.bounds
    have hyk := toNat_entryAt hy hk
    apply Mem.read32_congr
    intro z hz
    apply Mem.storeWords_outside (by decide)
    have : x.toNat ≠ y.toNat := fun h => hne (BitVec.eq_of_toNat_eq h)
    simp only [pageEntries]
    bv_omega

/-! Addresses and entries, in numbers. -/

theorem toNat_dirIndexOf (v : U32) : (dirIndexOf v).toNat = v.toNat / 2 ^ 22 := by
  have h := toNat_and_low (v >>> 22) 10 (by decide)
  rw [BitVec.toNat_ushiftRight, Nat.shiftRight_eq_div_pow] at h
  have := v.isLt
  unfold dirIndexOf
  refine h.trans ?_
  omega

theorem toNat_tableIndexOf (v : U32) : (tableIndexOf v).toNat = v.toNat / 4096 % 1024 := by
  have h := toNat_and_low (v >>> 12) 10 (by decide)
  rw [BitVec.toNat_ushiftRight, Nat.shiftRight_eq_div_pow] at h
  exact h

theorem dirIndexOf_lt (v : U32) : (dirIndexOf v).toNat < 1024 := by
  have := v.isLt
  rw [toNat_dirIndexOf]
  omega

theorem tableIndexOf_lt (v : U32) : (tableIndexOf v).toNat < 1024 := by
  rw [toNat_tableIndexOf]
  omega

@[simp] theorem dirIndexOf_alignDown (v : U32) : dirIndexOf (alignDown v pageSize) = dirIndexOf v := by
  apply BitVec.eq_of_toNat_eq
  rw [toNat_dirIndexOf, toNat_dirIndexOf, toNat_alignDown_page]
  omega

@[simp] theorem tableIndexOf_alignDown (v : U32) :
    tableIndexOf (alignDown v pageSize) = tableIndexOf v := by
  apply BitVec.eq_of_toNat_eq
  rw [toNat_tableIndexOf, toNat_tableIndexOf, toNat_alignDown_page]
  omega

/-- Two addresses have the same entry when they are on the same page. -/
theorem same_entry_iff : dirIndexOf v = dirIndexOf w ∧ tableIndexOf v = tableIndexOf w ↔
    v.toNat / 4096 = w.toNat / 4096 := by
  rw [← BitVec.toNat_inj, ← BitVec.toNat_inj, toNat_dirIndexOf, toNat_dirIndexOf,
    toNat_tableIndexOf, toNat_tableIndexOf]
  omega

theorem toNat_frame (v : U32) : (v &&& pageFrameMask).toNat = v.toNat / 4096 * 4096 :=
  toNat_and_not_low v 12

theorem present_iff : v &&& pageFlagPresent ≠ 0 ↔ v.toNat % 2 = 1 := by
  have h := toNat_and_low v 1 (by decide)
  have h : (v &&& pageFlagPresent).toNat = v.toNat % 2 := h
  rw [← BitVec.toNat_inj.ne, h]
  simp

/-- A directory entry made of a table's address and flags below a page. -/
theorem frame_or_flags {flags : U32} (hv : v.toNat % 4096 = 0) (hf : flags.toNat < 4096) :
    ((v &&& pageFrameMask) ||| flags) &&& pageFrameMask = v ∧
      ((v &&& pageFrameMask) ||| flags).toNat = v.toNat + flags.toNat := by
  have hframe : v &&& pageFrameMask = v := by
    apply BitVec.eq_of_toNat_eq
    rw [toNat_frame]
    omega
  have hsum : (v ||| flags).toNat = v.toNat + flags.toNat := toNat_or_low v flags 12 hv hf
  rw [hframe]
  refine ⟨BitVec.eq_of_toNat_eq ?_, hsum⟩
  rw [toNat_frame, hsum]
  omega

end Kernix.Proofs
