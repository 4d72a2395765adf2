import Mathlib.Data.Nat.Digits.Lemmas
import Mathlib.Tactic.Ring
import Kernix.Library.Memory

namespace Library

/-! Texts of ASCII characters, and the decimal numerals in them. -/

/-- The bytes of an ASCII text. -/
def text (s : String) : List Byte := s.toList.map fun c => BitVec.ofNat 8 c.toNat

/-- The tests are of a signed `char`. -/
def isDigit (c : Byte) : Bool := 0x30 ≤ c.toInt ∧ c.toInt ≤ 0x39

/-- The character of a digit. -/
def digitChar (d : Nat) : Byte := BitVec.ofNat 8 (0x30 + d)

def digitValue (c : Byte) : Nat := c.toNat - 0x30

/-- What a run of digits stands for behind digits that stand for `n`. -/
def valueFrom (n : Nat) (ds : List Byte) : Nat := ds.foldl (fun n c => n * 10 + digitValue c) n

@[simp] theorem valueFrom_nil (n : Nat) : valueFrom n [] = n := rfl

@[simp] theorem valueFrom_cons (n : Nat) (c : Byte) (ds : List Byte) :
    valueFrom n (c :: ds) = valueFrom (n * 10 + digitValue c) ds := by
  rw [valueFrom, List.foldl_cons, ← valueFrom]

theorem isDigit_iff {c : Byte} : isDigit c = true ↔ 0x30 ≤ c.toNat ∧ c.toNat ≤ 0x39 := by
  have := c.isLt
  rw [isDigit, decide_eq_true_eq, BitVec.toInt_eq_toNat_cond]
  split
  · omega
  · omega

theorem isDigit_digitChar {d : Nat} (h : d < 10) : isDigit (digitChar d) = true := by
  rw [isDigit_iff, digitChar, BitVec.toNat_ofNat]
  omega

/-- More digits never stand for less. -/
theorem le_valueFrom (n : Nat) (ds : List Byte) : n ≤ valueFrom n ds := by
  induction ds generalizing n with
  | nil => exact Nat.le_refl n
  | cons c ds ih =>
    rw [valueFrom_cons]
    exact Nat.le_trans (by omega) (ih _)

/-- The decimal numeral of a natural number. -/
def natNumeral (n : Nat) : List Byte :=
  if n = 0 then [digitChar 0] else ((Nat.digits 10 n).map digitChar).reverse

/-- The decimal numeral of an integer. -/
def intNumeral (z : Int) : List Byte :=
  if z < 0 then 0x2D :: natNumeral z.natAbs else natNumeral z.natAbs

/-- A numeral has a digit. -/
theorem natNumeral_digit (n : Nat) : ∃ c ∈ natNumeral n, isDigit c = true := by
  unfold natNumeral
  split
  · exact ⟨_, List.mem_singleton_self _, isDigit_digitChar (by decide)⟩
  · rename_i hn
    obtain ⟨d, ds, hds⟩ :=
      List.exists_cons_of_ne_nil (Nat.digits_ne_nil_iff_ne_zero (b := 10).mpr hn)
    have hd : d < 10 := Nat.digits_lt_base (by decide) (hds ▸ List.mem_cons_self)
    refine ⟨digitChar d, ?_, isDigit_digitChar hd⟩
    rw [hds]
    simp

theorem natNumeral_digits (n : Nat) : ∀ c ∈ natNumeral n, isDigit c = true := by
  intro c hc
  unfold natNumeral at hc
  split at hc
  · rw [List.mem_singleton.mp hc]
    exact isDigit_digitChar (by decide)
  · obtain ⟨d, hd, hdc⟩ := List.mem_map.mp (List.mem_reverse.mp hc)
    rw [← hdc]
    exact isDigit_digitChar (Nat.digits_lt_base (by decide) hd)

theorem digitValue_digitChar {d : Nat} (h : d < 10) : digitValue (digitChar d) = d := by
  rw [digitValue, digitChar, BitVec.toNat_ofNat]
  omega

/-- Digits, the last one first, are read back as the number they are of. -/
theorem valueFrom_digits {ds : List Nat} (h : ∀ d ∈ ds, d < 10) :
    valueFrom 0 (ds.map digitChar).reverse = Nat.ofDigits 10 ds := by
  induction ds with
  | nil => rfl
  | cons d ds ih =>
    have hd := digitValue_digitChar (h d List.mem_cons_self)
    have hds := ih fun e he => h e (List.mem_cons_of_mem _ he)
    rw [valueFrom] at hds
    rw [List.map_cons, List.reverse_cons, valueFrom, List.foldl_append, hds, List.foldl_cons,
      List.foldl_nil, hd, Nat.ofDigits_cons]
    omega

/-- A numeral is read back as the number it is of. -/
theorem valueFrom_natNumeral (n : Nat) : valueFrom 0 (natNumeral n) = n := by
  unfold natNumeral
  split
  · rename_i hn
    rw [hn]
    rfl
  · rw [valueFrom_digits fun d hd => Nat.digits_lt_base (by decide) hd, Nat.ofDigits_digits]

theorem natNumeral_injective : Function.Injective natNumeral := by
  intro m n h
  rw [← valueFrom_natNumeral m, h, valueFrom_natNumeral]

theorem intNumeral_digit (z : Int) : ∃ c ∈ intNumeral z, isDigit c = true := by
  obtain ⟨c, hc, hdigit⟩ := natNumeral_digit z.natAbs
  refine ⟨c, ?_, hdigit⟩
  unfold intNumeral
  split
  · exact List.mem_cons_of_mem _ hc
  · exact hc

theorem natNumeral_ne_nil (n : Nat) : natNumeral n ≠ [] := by
  obtain ⟨c, hc, _⟩ := natNumeral_digit n
  exact List.ne_nil_of_mem hc

theorem digitChar_digitValue {c : Byte} (h : isDigit c = true) : digitChar (digitValue c) = c := by
  have hrange := isDigit_iff.mp h
  apply BitVec.eq_of_toNat_eq
  rw [digitChar, digitValue, BitVec.toNat_ofNat]
  omega

/-- Digits are the characters of their values. -/
theorem map_digitValue {ds : List Byte} (h : ∀ c ∈ ds, isDigit c = true) :
    (ds.map digitValue).map digitChar = ds := by
  have hid : ds.map (digitChar ∘ digitValue) = ds.map id :=
    List.map_congr_left fun c hc => digitChar_digitValue (h c hc)
  rw [List.map_map, hid, List.map_id]

theorem digitValue_lt {c : Byte} (h : isDigit c = true) : digitValue c < 10 := by
  have hrange := isDigit_iff.mp h
  rw [digitValue]
  omega

/-- Only the numeral of 0 starts with a zero. -/
theorem natNumeral_head {n : Nat} (h : (natNumeral n).head? = some 0x30) : natNumeral n = [0x30] := by
  by_cases hn : n = 0
  · subst hn
    rfl
  · rw [natNumeral, if_neg hn, List.head?_reverse, List.getLast?_map,
      List.getLast?_eq_some_getLast (Nat.digits_ne_nil_iff_ne_zero.mpr hn)] at h
    have hlast := Nat.getLast_digit_ne_zero 10 hn
    have hlt : (Nat.digits 10 n).getLast (Nat.digits_ne_nil_iff_ne_zero.mpr hn) < 10 :=
      Nat.digits_lt_base (by decide) (List.getLast_mem _)
    have hvalue := congrArg digitValue (Option.some.inj h)
    rw [digitValue_digitChar hlt] at hvalue
    exact absurd hvalue hlast

/-- Digits without a zero in front are the numeral of what they stand for. -/
theorem eq_natNumeral {ds : List Byte} (hne : ds ≠ []) (hds : ∀ c ∈ ds, isDigit c = true)
    (hzero : ds.head? = some 0x30 → ds = [0x30]) : ds = natNumeral (valueFrom 0 ds) := by
  by_cases hhead : ds.head? = some 0x30
  · rw [hzero hhead]
    rfl
  have hlt : ∀ d ∈ (ds.map digitValue).reverse, d < 10 := by
    intro d hd
    obtain ⟨c, hc, rfl⟩ := List.mem_map.mp (List.mem_reverse.mp hd)
    exact digitValue_lt (hds c hc)
  have hback : ((ds.map digitValue).reverse.map digitChar).reverse = ds := by
    rw [List.map_reverse, List.reverse_reverse, map_digitValue hds]
  have hvalue : valueFrom 0 ds = Nat.ofDigits 10 (ds.map digitValue).reverse := by
    rw [← valueFrom_digits hlt, hback]
  have hdigits : Nat.digits 10 (valueFrom 0 ds) = (ds.map digitValue).reverse := by
    rw [hvalue]
    apply Nat.digits_ofDigits 10 (by decide) _ hlt
    intro hne' hlast
    obtain ⟨c, cs, rfl⟩ := List.exists_cons_of_ne_nil hne
    have hc : digitValue c = 0 := by simpa using hlast
    have hzero := digitChar_digitValue (hds c List.mem_cons_self)
    rw [hc] at hzero
    exact hhead (by rw [← hzero]; rfl)
  have hpos : valueFrom 0 ds ≠ 0 := by
    intro h0
    rw [h0, Nat.digits_zero] at hdigits
    exact hne (by simpa using hdigits.symm)
  rw [natNumeral, if_neg hpos, hdigits, hback]

/-- A number below 10^k in `k` digits. -/
def fixedDigits : Nat → Nat → List Byte
  | 0, _ => []
  | k + 1, n => digitChar (n / 10 ^ k) :: fixedDigits k (n % 10 ^ k)

theorem fixedDigits_length (k n : Nat) : (fixedDigits k n).length = k := by
  induction k generalizing n with
  | zero => rfl
  | succ k ih => rw [fixedDigits, List.length_cons, ih]

theorem firstDigit_lt {k n : Nat} (h : n < 10 ^ (k + 1)) : n / 10 ^ k < 10 := by
  rw [Nat.pow_succ] at h
  exact Nat.div_lt_of_lt_mul h

theorem fixedDigits_digits {k n : Nat} (h : n < 10 ^ k) : ∀ c ∈ fixedDigits k n, isDigit c = true := by
  induction k generalizing n with
  | zero => simp [fixedDigits]
  | succ k ih =>
    intro c hc
    rcases List.mem_cons.mp hc with rfl | hc
    · exact isDigit_digitChar (firstDigit_lt h)
    · exact ih (Nat.mod_lt _ (Nat.pow_pos (by decide))) c hc

/-- They stand for the number, behind digits that stand for `m`. -/
theorem valueFrom_fixedDigits (m : Nat) {k n : Nat} (h : n < 10 ^ k) :
    valueFrom m (fixedDigits k n) = m * 10 ^ k + n := by
  induction k generalizing m n with
  | zero =>
    rw [Nat.pow_zero] at h
    simp [fixedDigits]
    omega
  | succ k ih =>
    have hdigit := digitValue_digitChar (firstDigit_lt h)
    have hsplit := Nat.div_add_mod n (10 ^ k)
    rw [fixedDigits, valueFrom_cons, ih _ (Nat.mod_lt _ (Nat.pow_pos (by decide))), hdigit]
    calc (m * 10 + n / 10 ^ k) * 10 ^ k + n % 10 ^ k
        = m * 10 ^ (k + 1) + (10 ^ k * (n / 10 ^ k) + n % 10 ^ k) := by ring
      _ = m * 10 ^ (k + 1) + n := by rw [hsplit]

end Library
