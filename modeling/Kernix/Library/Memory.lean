import Mathlib.Data.BitVec

namespace Library

/-- A word of a 32-bit machine: an address or a value, all arithmetic modulo 2^32. -/
abbrev U32 := BitVec 32

abbrev Byte := BitVec 8

/-- Byte-addressed memory. Addresses wrap, as on the machine. -/
abbrev Mem := U32 → Byte

namespace Mem

def read32 (m : Mem) (a : U32) : U32 :=
  m (a + 3) ++ m (a + 2) ++ m (a + 1) ++ m a

def write32 (m : Mem) (a v : U32) : Mem := fun x =>
  if (x - a).toNat < 4 then v.extractLsb' (8 * (x - a).toNat) 8 else m x

def write8 (m : Mem) (a : U32) (v : Byte) : Mem := fun x =>
  if x = a then v else m x

end Mem

/-- The two windows of `n` bytes at `a` and `b` do not meet, wherever they lie. -/
def Apart (n : Nat) (a b : U32) : Prop :=
  n ≤ (a - b).toNat ∧ n ≤ (b - a).toNat

theorem Apart.symm {n : Nat} {a b : U32} (h : Apart n a b) : Apart n b a :=
  ⟨h.2, h.1⟩

/-- Windows that are apart in the linear order are apart on the circle. -/
theorem apart_of_le {n : Nat} {a b : U32} (h : a.toNat + n ≤ b.toNat)
    (hb : b.toNat + n ≤ 2 ^ 32) : Apart n a b := by
  constructor <;> bv_omega

/-- Distinct offsets in one window, none wrapping, are apart. -/
theorem apart_same {k : Nat} (a i j : U32) (h : i.toNat + k ≤ j.toNat)
    (hj : j.toNat + k ≤ 2 ^ 32) : Apart k (a + i) (a + j) := by
  constructor <;> bv_omega

namespace Mem

/-- `f 0`, ..., `f (n - 1)` stored in order as the words from `a` on. -/
def storeWords (m : Mem) (a : U32) (f : Nat → U32) : Nat → Mem
  | 0 => m
  | n + 1 => (storeWords m a f n).write32 (a + BitVec.ofNat 32 (4 * n)) (f n)

/-- `f 0`, ..., `f (n - 1)` stored in order as the bytes from `a` on. -/
def storeBytes (m : Mem) (a : U32) (f : Nat → Byte) : Nat → Mem
  | 0 => m
  | n + 1 => (storeBytes m a f n).write8 (a + BitVec.ofNat 32 n) (f n)

/-- The `n` bytes from `a` on. -/
def bytes (m : Mem) (a : U32) (n : Nat) : List Byte :=
  (List.range n).map fun i => m (a + BitVec.ofNat 32 i)

@[simp] theorem length_bytes (m : Mem) (a : U32) (n : Nat) : (m.bytes a n).length = n := by
  simp [bytes]

theorem getElem_bytes {m : Mem} {a : U32} {n i : Nat} (h : i < (m.bytes a n).length) :
    (m.bytes a n)[i] = m (a + BitVec.ofNat 32 i) := by
  simp [bytes]

theorem bytes_congr {m m' : Mem} {a : U32} {n : Nat} (hn : n ≤ 2 ^ 32)
    (h : ∀ x, (x - a).toNat < n → m' x = m x) : m'.bytes a n = m.bytes a n := by
  refine List.map_congr_left fun i hi => h _ ?_
  have := List.mem_range.mp hi
  bv_omega

/-- Equal bytes one by one are equal prefixes. -/
theorem take_bytes {m m' : Mem} {a b : U32} {k n n' : Nat} (hn : k ≤ n) (hn' : k ≤ n')
    (h : ∀ i < k, m' (b + BitVec.ofNat 32 i) = m (a + BitVec.ofNat 32 i)) :
    (m'.bytes b n').take k = (m.bytes a n).take k := by
  apply List.ext_getElem
  · simp only [List.length_take, length_bytes]
    omega
  · intro i hi _
    simp only [List.length_take, length_bytes] at hi
    simp only [List.getElem_take, getElem_bytes]
    exact h i (by omega)

/-- A store to one byte replaces one element. -/
theorem bytes_write8 {m : Mem} {a : U32} {n i : Nat} (hn : n ≤ 2 ^ 32) (hi : i < n) (v : Byte) :
    (m.write8 (a + BitVec.ofNat 32 i) v).bytes a n = (m.bytes a n).set i v := by
  apply List.ext_getElem
  · simp
  · intro j hj _
    have hj : j < n := by simpa using hj
    simp only [getElem_bytes, List.getElem_set, write8]
    by_cases h : i = j
    · simp [h]
    · rw [if_neg h, if_neg (by bv_omega)]

theorem read32_congr {m m' : Mem} {a : U32}
    (h : ∀ x, (x - a).toNat < 4 → m' x = m x) : m'.read32 a = m.read32 a := by
  unfold read32
  rw [h a (by simp), h (a + 1) (by bv_omega), h (a + 2) (by bv_omega), h (a + 3) (by bv_omega)]

/-- The bytes of a word, low end first. -/
theorem byte_of_read32 (m : Mem) (a : U32) {k : Nat} (hk : k < 4) :
    (m (a + BitVec.ofNat 32 k)).toNat = (m.read32 a).toNat / 2 ^ (8 * k) % 2 ^ 8 := by
  have hbyte : m (a + BitVec.ofNat 32 k) = (m.read32 a).extractLsb' (8 * k) 8 := by
    apply BitVec.eq_of_getLsbD_eq
    intro i hi
    simp only [read32, BitVec.getLsbD_append, BitVec.getLsbD_extractLsb']
    have : k = 0 ∨ k = 1 ∨ k = 2 ∨ k = 3 := by omega
    rcases this with rfl | rfl | rfl | rfl <;> simp <;> grind
  rw [hbyte, BitVec.extractLsb'_toNat, Nat.shiftRight_eq_div_pow]

@[simp] theorem read32_write32_same (m : Mem) (a v : U32) :
    (m.write32 a v).read32 a = v := by
  have h0 : (a - a).toNat = 0 := by simp
  have h1 : (a + 1 - a).toNat = 1 := by bv_omega
  have h2 : (a + 2 - a).toNat = 2 := by bv_omega
  have h3 : (a + 3 - a).toNat = 3 := by bv_omega
  simp only [read32, write32, h0, h1, h2, h3]
  apply BitVec.eq_of_getLsbD_eq
  intro i hi
  simp only [BitVec.getLsbD_append]
  grind

theorem write32_outside {m : Mem} {a v x : U32} (h : 4 ≤ (x - a).toNat) :
    m.write32 a v x = m x :=
  if_neg (Nat.not_lt.mpr h)

theorem read32_write32_apart {m : Mem} {a b v : U32} (h : Apart 4 a b) :
    (m.write32 a v).read32 b = m.read32 b := by
  apply read32_congr
  intro x hx
  apply write32_outside
  obtain ⟨hab, hba⟩ := h
  bv_omega

/-- Writing back what is there changes nothing. -/
theorem write32_read32 (m : Mem) (a : U32) : m.write32 a (m.read32 a) = m := by
  funext x
  unfold write32
  split
  · rename_i h
    have hx : x = a + BitVec.ofNat 32 (x - a).toNat := by bv_omega
    generalize hk : (x - a).toNat = k at h hx ⊢
    subst hx
    apply BitVec.eq_of_getLsbD_eq
    intro i hi
    simp only [read32, BitVec.getLsbD_append, BitVec.getLsbD_extractLsb']
    have : k = 0 ∨ k = 1 ∨ k = 2 ∨ k = 3 := by omega
    rcases this with rfl | rfl | rfl | rfl <;> simp <;> grind
  · rfl

theorem storeWords_outside {m : Mem} {a x : U32} {f : Nat → U32} {n : Nat}
    (hn : 4 * n ≤ 2 ^ 32) (h : 4 * n ≤ (x - a).toNat) : m.storeWords a f n x = m x := by
  induction n with
  | zero => rfl
  | succ n ih =>
    rw [storeWords, write32_outside (by bv_omega), ih (by omega) (by omega)]

theorem read32_storeWords {m : Mem} {a : U32} {f : Nat → U32} {n j : Nat}
    (hn : 4 * n ≤ 2 ^ 32) (h : j < n) :
    (m.storeWords a f n).read32 (a + BitVec.ofNat 32 (4 * j)) = f j := by
  induction n with
  | zero => omega
  | succ n ih =>
    rw [storeWords]
    rcases Nat.lt_succ_iff_lt_or_eq.mp h with hlt | rfl
    · rw [read32_write32_apart, ih (by omega) hlt]
      constructor <;> bv_omega
    · simp

theorem storeBytes_outside {m : Mem} {a x : U32} {f : Nat → Byte} {n : Nat}
    (hn : n ≤ 2 ^ 32) (h : n ≤ (x - a).toNat) : m.storeBytes a f n x = m x := by
  induction n with
  | zero => rfl
  | succ n ih =>
    have hne : x ≠ a + BitVec.ofNat 32 n := by
      rintro rfl
      bv_omega
    rw [storeBytes, write8, if_neg hne, ih (by omega) (by omega)]

theorem storeBytes_inside {m : Mem} {a : U32} {f : Nat → Byte} {n j : Nat}
    (hn : n ≤ 2 ^ 32) (h : j < n) :
    m.storeBytes a f n (a + BitVec.ofNat 32 j) = f j := by
  induction n with
  | zero => omega
  | succ n ih =>
    rw [storeBytes, write8]
    rcases Nat.lt_succ_iff_lt_or_eq.mp h with hlt | rfl
    · rw [if_neg (by bv_omega), ih (by omega) hlt]
    · simp

end Mem

end Library
