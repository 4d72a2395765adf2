import Kernix.Calc.Powers
import Kernix.Library.Bisection
import Kernix.Proofs.CheckedProducts

namespace Kernix.Proofs
open Library Calc

variable {a n mid power result : U32} {s t : RootSearch} {low high m : Int}

/-! One turn of the search of `calc_root`. -/

theorem midPowLoop_eq (mid : U32) (turns : Nat) (power : U32) :
    midPowLoop mid turns power = power * mid ^ turns := by
  induction turns generalizing power with
  | zero => rw [midPowLoop, BitVec.pow_zero, BitVec.mul_one]
  | succ turns ih =>
    rw [midPowLoop, ih, BitVec.pow_succ, BitVec.mul_comm (mid ^ turns), BitVec.mul_assoc]

/-- The power of `m` in the arithmetic of the compiled code. -/
def wrappedPow (m : Int) (n : Nat) : Int := (m ^ n).bmod (2 ^ 32)

theorem midPowLoop_one (mid : U32) (turns : Nat) : midPowLoop mid turns 1 = mid ^ turns :=
  (midPowLoop_eq mid turns 1).trans (BitVec.one_mul _)

theorem toInt_pow (mid : U32) (k : Nat) : (mid ^ k).toInt = wrappedPow mid.toInt k := by
  unfold wrappedPow
  induction k with
  | zero =>
    rw [BitVec.pow_zero, Int.pow_zero]
    decide
  | succ k ih => rw [BitVec.pow_succ, BitVec.toInt_mul, ih, Int.bmod_mul_bmod, Int.pow_succ]

theorem wrappedPow_of_fits {k : Nat} (h : Fits (m ^ k)) : wrappedPow m k = m ^ k := by
  unfold Fits at h
  apply Int.bmod_eq_of_le
  · omega
  · omega

/-- The comparisons that steer the search, for `a` and `n`. -/
def powBelow (a n : U32) (m : Int) : Prop := wrappedPow m n.toInt.toNat < a.toInt

def powAbove (a n : U32) (m : Int) : Prop := a.toInt < wrappedPow m n.toInt.toNat

/-- An interval of the search, in numbers: its ends are above 0, and their sum is an `int`. -/
structure Spans (s : RootSearch) (low high : Int) : Prop where
  low_eq : s.low.toInt = low
  high_eq : s.high.toInt = high
  pos : 1 ≤ low
  nonempty : low ≤ high
  sum : low + high ≤ 2147483647

theorem Spans.toInt_mid (h : Spans s low high) :
    ((s.low + s.high).sdiv 2).toInt = (low + high) / 2 := by
  obtain ⟨hlow, hhigh, hpos, hnonempty, hsum⟩ := h
  have hadd : (s.low + s.high).toInt = low + high := by
    rw [toInt_add_of_fits, hlow, hhigh]
    rw [hlow, hhigh, Fits]
    omega
  rw [BitVec.toInt_sdiv_of_ne_or_ne _ _ (.inr (by decide)), hadd,
    Int.tdiv_eq_ediv_of_nonneg (by omega)]
  rfl

theorem Spans.midPow (h : Spans s low high) :
    (midPowLoop ((s.low + s.high).sdiv 2) n.toInt.toNat 1).toInt =
      wrappedPow ((low + high) / 2) n.toInt.toNat := by
  rw [midPowLoop_one, toInt_pow, h.toInt_mid]

/-- The middle is not met by chance: where its power is `a`, the search is over. -/
theorem rootBody_found (h : Spans s low high)
    (hfound : wrappedPow ((low + high) / 2) n.toInt.toNat = a.toInt) :
    ∃ mid, rootBody a n s = .inr mid ∧ mid.toInt = (low + high) / 2 := by
  have hle : s.low.toInt ≤ s.high.toInt := by
    rw [h.low_eq, h.high_eq]
    exact h.nonempty
  have hpow := BitVec.eq_of_toInt_eq (h.midPow.trans hfound)
  refine ⟨_, ?_, h.toInt_mid⟩
  rw [rootBody, if_pos hle]
  dsimp only
  rw [if_pos hpow]

theorem rootBody_up (h : Spans s low high)
    (hbelow : wrappedPow ((low + high) / 2) n.toInt.toNat < a.toInt) :
    ∃ mid low', rootBody a n s = .inl ⟨low', s.high, mid⟩ ∧ mid.toInt = (low + high) / 2 ∧
      low'.toInt = (low + high) / 2 + 1 := by
  have hle : s.low.toInt ≤ s.high.toInt := by
    rw [h.low_eq, h.high_eq]
    exact h.nonempty
  have hpow := h.midPow (n := n)
  have hne : midPowLoop ((s.low + s.high).sdiv 2) n.toInt.toNat 1 ≠ a := by
    intro heq
    rw [heq] at hpow
    omega
  have hnext : ((s.low + s.high).sdiv 2 + 1).toInt = (low + high) / 2 + 1 := by
    have hsum := h.sum
    have hpos := h.pos
    have hnonempty := h.nonempty
    have hone : (1 : U32).toInt = 1 := rfl
    rw [toInt_add_of_fits, h.toInt_mid, hone]
    rw [h.toInt_mid, hone, Fits]
    omega
  refine ⟨_, _, ?_, h.toInt_mid, hnext⟩
  rw [rootBody, if_pos hle]
  dsimp only
  rw [if_neg hne, if_pos (hpow ▸ hbelow)]

theorem rootBody_down (h : Spans s low high)
    (habove : a.toInt < wrappedPow ((low + high) / 2) n.toInt.toNat) :
    ∃ high', rootBody a n s = .inl ⟨s.low, high', s.result⟩ ∧
      high'.toInt = (low + high) / 2 - 1 := by
  have hle : s.low.toInt ≤ s.high.toInt := by
    rw [h.low_eq, h.high_eq]
    exact h.nonempty
  have hpow := h.midPow (n := n)
  have hne : midPowLoop ((s.low + s.high).sdiv 2) n.toInt.toNat 1 ≠ a := by
    intro heq
    rw [heq] at hpow
    omega
  have hnext : ((s.low + s.high).sdiv 2 - 1).toInt = (low + high) / 2 - 1 := by
    have hsum := h.sum
    have hpos := h.pos
    have hnonempty := h.nonempty
    have hone : (1 : U32).toInt = 1 := rfl
    rw [toInt_sub_of_fits, h.toInt_mid, hone]
    rw [h.toInt_mid, hone, Fits]
    omega
  refine ⟨_, ?_, hnext⟩
  rw [rootBody, if_pos hle]
  dsimp only
  rw [if_neg hne, if_neg (by omega)]

theorem rootBody_over (h : s.high.toInt < s.low.toInt) : rootBody a n s = .inr s.result := by
  rw [rootBody, if_neg (by omega)]

/-- The middle of the interval that the search has come to. -/
def middle (s : RootSearch) : Int := (s.low.toInt + s.high.toInt) / 2

/-- What a turn does to an interval whose sum is an `int`. -/
inductive RootTurn (a n : U32) (s : RootSearch) : RootSearch ⊕ U32 → Prop
  | crossed : s.high.toInt < s.low.toInt → RootTurn a n s (.inr s.result)
  | found {mid : U32} : s.low.toInt ≤ s.high.toInt → mid.toInt = middle s →
      wrappedPow (middle s) n.toInt.toNat = a.toInt → RootTurn a n s (.inr mid)
  | up {t : RootSearch} : s.low.toInt ≤ s.high.toInt → powBelow a n (middle s) →
      t.low.toInt = middle s + 1 → t.high = s.high → t.result.toInt = middle s →
      RootTurn a n s (.inl t)
  | down {t : RootSearch} : s.low.toInt ≤ s.high.toInt → powAbove a n (middle s) →
      t.low = s.low → t.high.toInt = middle s - 1 → t.result = s.result → RootTurn a n s (.inl t)

theorem rootBody_turn (hlow : 1 ≤ s.low.toInt)
    (hsum : s.low.toInt ≤ s.high.toInt → s.low.toInt + s.high.toInt ≤ 2147483647) :
    RootTurn a n s (rootBody a n s) := by
  by_cases hle : s.low.toInt ≤ s.high.toInt
  · have h : Spans s s.low.toInt s.high.toInt := ⟨rfl, rfl, hlow, hle, hsum hle⟩
    rcases Int.lt_trichotomy (wrappedPow (middle s) n.toInt.toNat) a.toInt with hpow | hpow | hpow
    · obtain ⟨mid, low', hbody, hmid, hlow'⟩ := rootBody_up h hpow
      rw [hbody]
      exact .up hle hpow hlow' rfl hmid
    · obtain ⟨mid, hbody, hmid⟩ := rootBody_found h hpow
      rw [hbody]
      exact .found hle hmid hpow
    · obtain ⟨high', hbody, hhigh'⟩ := rootBody_down h hpow
      rw [hbody]
      exact .down hle hpow rfl hhigh' rfl
  · have hover : s.high.toInt < s.low.toInt := by omega
    rw [rootBody_over hover]
    exact .crossed hover

/-! The search as a whole. -/

/-- The search has come to the interval of `s`. -/
def Visits (a n : U32) (s : RootSearch) : Prop :=
  Bisects (powBelow a n) (powAbove a n) 1 a.toInt s.low.toInt s.high.toInt

/-- No sum of two ends that the search comes to is out of range. -/
def SumsFit (a n : U32) : Prop :=
  ∀ low high, Bisects (powBelow a n) (powAbove a n) 1 a.toInt low high → low ≤ high →
    low + high ≤ 2147483647

/-- The search of `calc_root` ends. -/
def RootEnds (a n : U32) : Prop := ∃ r, Ends (rootBody a n) ⟨1, a, 1⟩ r

theorem Visits.turn (h : Visits a n s) (hsums : SumsFit a n) : RootTurn a n s (rootBody a n s) :=
  rootBody_turn h.within.1 (hsums _ _ h)

/-- A turn that goes on comes to a smaller interval. -/
theorem Visits.next (h : Visits a n s) (hsums : SumsFit a n) (hbody : rootBody a n s = .inl t) :
    Visits a n t ∧ (t.high.toInt + 1 - t.low.toInt).toNat < (s.high.toInt + 1 - s.low.toInt).toNat := by
  have hturn := h.turn hsums
  rw [hbody] at hturn
  cases hturn with
  | up hle hpow hlow hhigh _ =>
    unfold Visits
    rw [hlow, hhigh]
    refine ⟨.up h hle hpow, ?_⟩
    unfold middle
    omega
  | down hle hpow hlow hhigh _ =>
    unfold Visits
    rw [hlow, hhigh]
    refine ⟨.down h hle hpow, ?_⟩
    unfold middle
    omega

theorem visits_start (a n : U32) : Visits a n ⟨1, a, 1⟩ := .start

theorem rootEnds_of_sums (hsums : SumsFit a n) : RootEnds a n :=
  ends_of_measure (I := Visits a n) (fun s => (s.high.toInt + 1 - s.low.toInt).toNat)
    (visits_start a n) fun _ _ h hbody => h.next hsums hbody

theorem sumsFit_of_small (n : U32) (ha : a.toInt < 2 ^ 30) : SumsFit a n := by
  intro low high h hle
  have := h.within
  omega

/-! The first root of a number from 2^30 on is looked for without end. -/

/-- Below the wrap the middle is smaller than `a`, and behind it it is negative. -/
theorem middle_lt (ha : 2 ^ 30 ≤ a.toInt) (hhigh : s.high = a) :
    ((s.low + s.high).sdiv 2).toInt < a.toInt := by
  have hmin := (fits_toInt s.low).1
  have hmax := (fits_toInt a).2
  have hadd : (s.low + s.high).toInt < 2 * a.toInt := by
    rw [BitVec.toInt_add, hhigh, Int.bmod_def]
    split <;> omega
  rw [BitVec.toInt_sdiv_of_ne_or_ne _ _ (.inr (by decide))]
  have htwo : (2 : U32).toInt = 2 := rfl
  rw [htwo]
  rcases Int.le_total 0 (s.low + s.high).toInt with hsum | hsum
  · rw [tdiv_lt_iff hsum (by decide)]
    omega
  · have hneg := Int.tdiv_nonneg (Int.neg_nonneg_of_nonpos hsum) (by decide : (0 : Int) ≤ 2)
    rw [Int.neg_tdiv] at hneg
    omega

theorem rootBody_first (ha : 2 ^ 30 ≤ a.toInt) (hlow : s.low.toInt ≤ a.toInt) (hhigh : s.high = a) :
    ∃ t, rootBody a 1 s = .inl t ∧ t.low.toInt ≤ a.toInt ∧ t.high = a := by
  have hmid := middle_lt ha hhigh
  have hpow : midPowLoop ((s.low + s.high).sdiv 2) (1 : U32).toInt.toNat 1 =
      (s.low + s.high).sdiv 2 := by
    rw [midPowLoop_one]
    exact BitVec.pow_one
  have hle : s.low.toInt ≤ s.high.toInt := hhigh ▸ hlow
  have hne : (s.low + s.high).sdiv 2 ≠ a := by
    intro heq
    rw [heq] at hmid
    omega
  refine ⟨⟨(s.low + s.high).sdiv 2 + 1, s.high, (s.low + s.high).sdiv 2⟩, ?_, ?_, hhigh⟩
  · rw [rootBody, if_pos hle]
    dsimp only
    rw [hpow, if_neg hne, if_pos hmid]
  · have hone : (1 : U32).toInt = 1 := rfl
    have hmin := (fits_toInt ((s.low + s.high).sdiv 2)).1
    have hmax := (fits_toInt a).2
    rw [toInt_add_of_fits, hone]
    · omega
    · rw [hone, Fits]
      omega

theorem not_rootEnds_first (ha : 2 ^ 30 ≤ a.toInt) : ¬ RootEnds a 1 := by
  intro hends
  obtain ⟨r, hr⟩ := hends
  refine not_ends (I := fun s => s.low.toInt ≤ a.toInt ∧ s.high = a) ?_ ?_ hr
  · have hone : (1 : U32).toInt = 1 := rfl
    refine ⟨?_, rfl⟩
    rw [hone]
    omega
  · intro s hs
    exact rootBody_first ha hs.1 hs.2

/-- The search of `calc_root` ends where no sum of two ends is out of range, so for every number
below 2^30; of the first roots it finds no others. -/
theorem root_search_ends (a n : U32) :
    (SumsFit a n → RootEnds a n) ∧ (a.toInt < 2 ^ 30 → SumsFit a n) ∧
      (n = 1 → (RootEnds a n ↔ SumsFit a n)) := by
  refine ⟨rootEnds_of_sums, sumsFit_of_small n, ?_⟩
  intro hone
  subst hone
  constructor
  · intro hends
    apply sumsFit_of_small
    by_contra hlarge
    exact not_rootEnds_first (by omega) hends
  · exact rootEnds_of_sums

/-- The first root of 1073741824 = 2^30 is looked for for ever. -/
theorem root_search_ends_not : ¬ RootEnds 1073741824 1 := not_rootEnds_first (by decide)

end Kernix.Proofs
