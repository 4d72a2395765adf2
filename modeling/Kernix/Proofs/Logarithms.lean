import Mathlib.Algebra.Order.Archimedean.Basic
import Mathlib.Data.Finset.Card
import Mathlib.Order.Bounds.Basic
import Kernix.Proofs.RootSearch
import Kernix.Proofs.UnsignedNumerals

namespace Kernix.Proofs
open Library Calc

variable {a base : U32} {s : LogSearch} {i j k : Nat}

/-! The loop of `calc_log` goes through the powers of the base, modulo 2^32. -/

/-- The state of the loop after `i` turns. -/
def logState (base : U32) (i : Nat) : LogSearch := ⟨BitVec.ofNat 32 i, base ^ i⟩

theorem logBody_on (h : wrappedPow base.toInt i < a.toInt) :
    logBody a base (logState base i) = .inl (logState base (i + 1)) := by
  have htest : (logState base i).power.toInt < a.toInt := by
    rwa [logState, toInt_pow]
  rw [logBody, if_pos htest, logState, logState, BitVec.ofNat_add, BitVec.pow_succ]
  rfl

theorem logBody_over (h : a.toInt ≤ wrappedPow base.toInt i) :
    logBody a base (logState base i) = .inr (logState base i) := by
  have htest : ¬ (logState base i).power.toInt < a.toInt := by
    rw [logState, toInt_pow]
    omega
  rw [logBody, if_neg htest]

/-- `j` is the first exponent whose power is not below `a`. -/
structure FirstPower (a base : U32) (j : Nat) : Prop where
  below : ∀ i < j, wrappedPow base.toInt i < a.toInt
  reached : a.toInt ≤ wrappedPow base.toInt j

theorem FirstPower.ends (h : FirstPower a base j) :
    Ends (logBody a base) ⟨0, 1⟩ (logState base j) := by
  have hrest : ∀ d i, i + d = j → Ends (logBody a base) (logState base i) (logState base j) := by
    intro d
    induction d with
    | zero =>
      intro i hi
      rw [show i = j from hi, ends_inr (logBody_over h.reached)]
    | succ d ih =>
      intro i hi
      rw [ends_inl (logBody_on (h.below i (by omega)))]
      exact ih (i + 1) (by omega)
  exact hrest j 0 (Nat.zero_add j)

theorem firstPower_of_ends (h : Ends (logBody a base) ⟨0, 1⟩ s) :
    ∃ j, FirstPower a base j ∧ s = logState base j := by
  refine h.invariant
    (I := fun s => ∃ i, s = logState base i ∧ ∀ i' < i, wrappedPow base.toInt i' < a.toInt)
    (Q := fun s => ∃ j, FirstPower a base j ∧ s = logState base j) ?_ ?_ ?_
  · exact ⟨0, rfl, fun i' hi' => absurd hi' (Nat.not_lt_zero i')⟩
  · intro s t hs hbody
    obtain ⟨i, hi, hbelow⟩ := hs
    subst hi
    rcases Int.lt_or_le (wrappedPow base.toInt i) a.toInt with hpow | hpow
    · rw [logBody_on hpow] at hbody
      refine ⟨i + 1, (Sum.inl.inj hbody).symm, ?_⟩
      intro i' hi'
      rcases Nat.lt_succ_iff_lt_or_eq.mp hi' with hlt | heq
      · exact hbelow i' hlt
      · rwa [heq]
    · rw [logBody_over hpow] at hbody
      cases hbody
  · intro s t hs hbody
    obtain ⟨i, hi, hbelow⟩ := hs
    subst hi
    rcases Int.lt_or_le (wrappedPow base.toInt i) a.toInt with hpow | hpow
    · rw [logBody_on hpow] at hbody
      cases hbody
    · rw [logBody_over hpow] at hbody
      exact ⟨i, ⟨hbelow, hpow⟩, (Sum.inr.inj hbody).symm⟩

theorem FirstPower.unique (h : FirstPower a base i) (h' : FirstPower a base j) : i = j := by
  rcases Nat.lt_trichotomy i j with hlt | heq | hlt
  · have := h'.below i hlt
    have := h.reached
    omega
  · exact heq
  · have := h.below j hlt
    have := h'.reached
    omega

theorem FirstPower.apart (h : FirstPower a base k) (hij : i < j) (hjk : j ≤ k) :
    base ^ i ≠ base ^ j := by
  refine apart_of_first (u := fun i => base ^ i) (f := (· * base)) (P := fun x => a.toInt ≤ x.toInt)
    (fun i => BitVec.pow_succ) ?_ ?_ hij hjk
  · intro i hi
    have := h.below i hi
    rw [toInt_pow]
    omega
  · rw [toInt_pow]
    exact h.reached

/-- The powers before the first are different words, none of them `a`. -/
theorem FirstPower.lt (h : FirstPower a base j) : j < 2 ^ 32 := by
  have hmaps : ∀ i ∈ Finset.range j, (base ^ i).toNat ∈ (Finset.range (2 ^ 32)).erase a.toNat := by
    intro i hi
    rw [Finset.mem_erase, Finset.mem_range]
    refine ⟨?_, (base ^ i).isLt⟩
    intro heq
    have hbelow := h.below i (Finset.mem_range.mp hi)
    rw [← toInt_pow, BitVec.eq_of_toNat_eq heq] at hbelow
    omega
  have hinj : ∀ i ∈ Finset.range j, ∀ i' ∈ Finset.range j,
      (base ^ i).toNat = (base ^ i').toNat → i = i' := by
    intro i hi i' hi' heq
    have hi := Finset.mem_range.mp hi
    have hi' := Finset.mem_range.mp hi'
    have hword := BitVec.eq_of_toNat_eq heq
    rcases Nat.lt_trichotomy i i' with hlt | hsame | hlt
    · exact absurd hword (h.apart hlt (Nat.le_of_lt hi'))
    · exact hsame
    · exact absurd hword.symm (h.apart hlt (Nat.le_of_lt hi))
  have hcard := Finset.card_le_card_of_injOn (fun i => (base ^ i).toNat) hmaps hinj
  rw [Finset.card_range, Finset.card_erase_of_mem (Finset.mem_range.mpr a.isLt),
    Finset.card_range] at hcard
  omega

/-! The logarithm. -/

/-- `k` is the largest exponent whose power is at most `a`. -/
def IsLog (a base : U32) (k : Nat) : Prop := IsGreatest {k : Nat | base.toInt ^ k ≤ a.toInt} k

/-- The same, by the powers on both sides. -/
theorem isLog_iff (hbase : 2 ≤ base.toInt) : IsLog a base k ↔
    base.toInt ^ k ≤ a.toInt ∧ a.toInt < base.toInt ^ (k + 1) := by
  constructor
  · intro h
    refine ⟨h.1, ?_⟩
    by_contra hnext
    have hle : k + 1 ≤ k := h.2 (Int.not_lt.mp hnext)
    omega
  · intro h
    refine ⟨h.1, ?_⟩
    intro i hi
    by_contra hlarge
    have hmono : base.toInt ^ (k + 1) ≤ base.toInt ^ i :=
      pow_le_pow_right₀ (by omega) (Nat.lt_of_not_le hlarge)
    have hi : base.toInt ^ i ≤ a.toInt := hi
    omega

theorem exists_isLog (ha : 1 ≤ a.toInt) (hbase : 2 ≤ base.toInt) : ∃ k, IsLog a base k := by
  obtain ⟨k, hk⟩ := exists_nat_pow_near ha (by omega : 1 < base.toInt)
  exact ⟨k, (isLog_iff hbase).mpr hk⟩

/-- Up to the logarithm the powers of the loop are the powers. -/
theorem IsLog.exact (h : IsLog a base k) (hbase : 2 ≤ base.toInt) (hi : i ≤ k) :
    wrappedPow base.toInt i = base.toInt ^ i := by
  have hmax := (fits_toInt a).2
  have hle : base.toInt ^ i ≤ base.toInt ^ k := pow_le_pow_right₀ (by omega) hi
  have hpos : 0 < base.toInt ^ i := pow_pos (by omega) i
  have := h.1
  apply wrappedPow_of_fits
  unfold Fits
  constructor
  · omega
  · exact Int.le_trans (Int.le_trans hle h.1) hmax

/-- The exponent that `calc_log` prints: one less than the loop comes to, where it has gone too far. -/
def loggedExponent (a base : U32) (j : Nat) : Nat :=
  if a.toInt < wrappedPow base.toInt j then j - 1 else j

theorem wrappedPow_zero (b : Int) : wrappedPow b 0 = 1 := by
  rw [wrappedPow, Int.pow_zero]
  rfl

theorem FirstPower.logged (h : FirstPower a base j) (ha : 1 ≤ a.toInt) :
    (logResult a (logState base j)).toNat = loggedExponent a base j := by
  have hj := h.lt
  have hpow : (logState base j).power.toInt = wrappedPow base.toInt j := toInt_pow base j
  have hword : (BitVec.ofNat 32 j).toNat = j := by
    rw [BitVec.toNat_ofNat, Nat.mod_eq_of_lt hj]
  rw [logResult, loggedExponent, hpow]
  split
  · rename_i hfar
    have hpos : j ≠ 0 := by
      intro hzero
      rw [hzero, wrappedPow_zero] at hfar
      omega
    change (BitVec.ofNat 32 j - 1).toNat = j - 1
    bv_omega
  · exact hword

theorem pow_lt_pow_base (hbase : 2 ≤ base.toInt) (hij : i < j) :
    base.toInt ^ i < base.toInt ^ j :=
  pow_lt_pow_right₀ (by omega) hij

/-- The exponent printed is the logarithm where the loop stops at it, or at the power behind it. -/
theorem logged_iff (h : IsLog a base k) (hbase : 2 ≤ base.toInt) :
    (∃ j, FirstPower a base j ∧ loggedExponent a base j = k) ↔
      base.toInt ^ k = a.toInt ∨ a.toInt < wrappedPow base.toInt (k + 1) := by
  have hbelow : ∀ i < k, wrappedPow base.toInt i < a.toInt := by
    intro i hi
    rw [h.exact hbase (Nat.le_of_lt hi)]
    exact lt_of_lt_of_le (pow_lt_pow_base hbase hi) h.1
  have hk := h.exact hbase (Nat.le_refl k)
  have hle : base.toInt ^ k ≤ a.toInt := h.1
  constructor
  · intro hlogged
    obtain ⟨j, hj, hjk⟩ := hlogged
    have hge : k ≤ j := by
      by_contra hlt
      have := hbelow j (Nat.lt_of_not_le hlt)
      have := hj.reached
      omega
    unfold loggedExponent at hjk
    split at hjk
    · rename_i hfar
      rcases Nat.lt_or_eq_of_le hge with hlt | heq
      · rw [show k + 1 = j by omega]
        exact .inr hfar
      · rw [← heq] at hfar
        omega
    · rw [hjk] at hj
      have := hj.reached
      exact .inl (by omega)
  · intro hfaithful
    by_cases hexact : base.toInt ^ k = a.toInt
    · refine ⟨k, ⟨hbelow, by omega⟩, ?_⟩
      rw [loggedExponent, if_neg (by omega)]
    · have hfar := hfaithful.resolve_left hexact
      refine ⟨k + 1, ⟨?_, Int.le_of_lt hfar⟩, ?_⟩
      · intro i hi
        rcases Nat.lt_succ_iff_lt_or_eq.mp hi with hlt | heq
        · exact hbelow i hlt
        · rw [heq]
          omega
      · rw [loggedExponent, if_pos hfar, Nat.add_sub_cancel]

/-- `calc_log` ends, and prints the logarithm. -/
def PrintsLog (a base : U32) : Prop :=
  ∃ k : Nat, IsLog a base k ∧ ∃ fuel, calcLog fuel a base = some (resultText k)

/-- `a` is a power of the base, or the first power above it is above it modulo 2^32 as well. -/
def LogFaithful (a base : U32) : Prop :=
  ∃ k, IsLog a base k ∧ (base.toInt ^ k = a.toInt ∨ a.toInt < wrappedPow base.toInt (k + 1))

theorem calcLog_prints_iff (ha : 1 ≤ a.toInt) (hbase : 2 ≤ base.toInt) :
    (∃ fuel, calcLog fuel a base = some (resultText k)) ↔
      ∃ j, FirstPower a base j ∧ loggedExponent a base j = k := by
  have hvalid : ¬ (a.toInt ≤ 0 ∨ base.toInt ≤ 1) := by omega
  have hprinted : ∀ j, FirstPower a base j →
      (printUnsigned (logResult a (logState base j)) = resultText k ↔
        loggedExponent a base j = k) := by
    intro j hj
    rw [printUnsigned_eq, resultText_injective.eq_iff, hj.logged ha]
    omega
  constructor
  · intro h
    obtain ⟨fuel, hrun⟩ := h
    rw [calcLog, if_neg hvalid, Option.map_eq_some_iff] at hrun
    obtain ⟨s, hs, htext⟩ := hrun
    obtain ⟨j, hj, hstate⟩ := firstPower_of_ends ⟨fuel, hs⟩
    rw [hstate] at htext
    exact ⟨j, hj, (hprinted j hj).mp htext⟩
  · intro h
    obtain ⟨j, hj, hjk⟩ := h
    obtain ⟨fuel, hrun⟩ := hj.ends
    refine ⟨fuel, ?_⟩
    rw [calcLog, if_neg hvalid, hrun, Option.map_some, (hprinted j hj).mpr hjk]

theorem printsLog_iff_faithful (ha : 1 ≤ a.toInt) (hbase : 2 ≤ base.toInt) :
    PrintsLog a base ↔ LogFaithful a base := by
  unfold PrintsLog LogFaithful
  constructor
  · intro h
    obtain ⟨k, hk, hprints⟩ := h
    exact ⟨k, hk, (logged_iff hk hbase).mp ((calcLog_prints_iff ha hbase).mp hprints)⟩
  · intro h
    obtain ⟨k, hk, hfaithful⟩ := h
    exact ⟨k, hk, (calcLog_prints_iff ha hbase).mpr ((logged_iff hk hbase).mpr hfaithful)⟩

/-! Base 10. -/

/-- `calc_log10` ends, and prints the logarithm. -/
def PrintsLog10 (a : U32) : Prop :=
  ∃ k : Nat, IsLog a 10 k ∧ ∃ fuel, calcLog10 fuel a = some (resultText k)

/-- 10^10 is 1410065408 modulo 2^32. -/
theorem logFaithful_ten_iff (ha : 1 ≤ a.toInt) :
    LogFaithful a 10 ↔ a.toInt < 1410065408 := by
  have hmax := (fits_toInt a).2
  have hten : (10 : U32).toInt = 10 := rfl
  have hbase : 2 ≤ (10 : U32).toInt := by decide
  have hwrap : wrappedPow (10 : U32).toInt (9 + 1) = 1410065408 := by decide
  have hnine : (10 : U32).toInt ^ 9 = 1000000000 := by decide
  have hle : ∀ k, IsLog a 10 k → k ≤ 9 := by
    intro k hk
    by_contra hlarge
    have hpow : (10 : U32).toInt ^ 10 ≤ (10 : U32).toInt ^ k :=
      pow_le_pow_right₀ (by decide) (by omega)
    have htenth : (10 : U32).toInt ^ 10 = 10000000000 := by decide
    have hk : (10 : U32).toInt ^ k ≤ a.toInt := hk.1
    omega
  have hsmall : ∀ k, IsLog a 10 k → k < 9 → a.toInt < 1000000000 ∧
      wrappedPow (10 : U32).toInt (k + 1) = (10 : U32).toInt ^ (k + 1) := by
    intro k hk hlt
    have hpow : (10 : U32).toInt ^ (k + 1) ≤ (10 : U32).toInt ^ 9 :=
      pow_le_pow_right₀ (by decide) hlt
    have hpos : 0 < (10 : U32).toInt ^ (k + 1) := pow_pos (by decide) _
    have hnext := ((isLog_iff hbase).mp hk).2
    refine ⟨by omega, wrappedPow_of_fits ?_⟩
    unfold Fits
    omega
  constructor
  · intro h
    obtain ⟨k, hk, hfaithful⟩ := h
    rcases Nat.lt_or_eq_of_le (hle k hk) with hlt | heq
    · have := (hsmall k hk hlt).1
      omega
    · rw [heq] at hfaithful
      omega
  · intro hlt
    obtain ⟨k, hk⟩ := exists_isLog ha hbase
    refine ⟨k, hk, .inr ?_⟩
    rcases Nat.lt_or_eq_of_le (hle k hk) with hk9 | heq
    · rw [(hsmall k hk hk9).2]
      exact ((isLog_iff hbase).mp hk).2
    · rw [heq, hwrap]
      exact hlt

/-- `calc_log` ends with the logarithm exactly where the loop is not misled by the first power above
`a`, and `calc_log10` exactly below 1410065408. -/
theorem log_printed_iff (a base : U32) (ha : 1 ≤ a.toInt) (hbase : 2 ≤ base.toInt) :
    (PrintsLog a base ↔ LogFaithful a base) ∧ (PrintsLog10 a ↔ a.toInt < 1410065408) :=
  ⟨printsLog_iff_faithful ha hbase,
    (printsLog_iff_faithful ha (by decide)).trans (logFaithful_ten_iff ha)⟩

theorem log_printed_iff_thousand : PrintsLog10 1000 :=
  (log_printed_iff 1000 10 (by decide) (by decide)).2.mpr (by decide)

/-- The powers of 2 stay even, and so never come to 2147483647. -/
theorem wrappedPow_two_lt (i : Nat) : wrappedPow (2 : U32).toInt i < 2147483647 := by
  have htwo : (2 : U32).toInt = 2 := rfl
  cases i with
  | zero => rw [wrappedPow_zero]; decide
  | succ i =>
    rw [wrappedPow, htwo, Int.pow_succ, Int.bmod_def]
    split <;> omega

/-- The logarithm of 2147483647 to base 2 is looked for for ever. -/
theorem log_printed_never : (∀ fuel, calcLog fuel 2147483647 2 = none) ∧
    ¬ PrintsLog 2147483647 2 := by
  have hnone : ∀ fuel, calcLog fuel 2147483647 2 = none := by
    intro fuel
    rw [calcLog, if_neg (by decide), Option.map_eq_none_iff]
    cases hrun : turns (logBody 2147483647 2) fuel ⟨0, 1⟩ with
    | none => rfl
    | some s =>
      obtain ⟨j, hj, -⟩ := firstPower_of_ends ⟨fuel, hrun⟩
      have hmax : (2147483647 : U32).toInt = 2147483647 := rfl
      have := hj.reached
      have := wrappedPow_two_lt j
      omega
  refine ⟨hnone, ?_⟩
  intro hprints
  obtain ⟨k, -, fuel, hrun⟩ := hprints
  rw [hnone fuel] at hrun
  cases hrun

end Kernix.Proofs
