import Kernix.Calc.Trigonometry
import Kernix.Proofs.Magnitudes

namespace Kernix.Proofs
open Library Calc

variable {denom : U32 → Exact U32} {x t s k y : U32} {p q : Bool} {m n d : Nat}
  {ks : List U32} {ds ms : List Nat}

/-! The series, by the magnitudes of its terms: their signs alternate whatever the angle is. -/

/-- What has magnitude `m`, times one of magnitude `n` twice. -/
def nextPower (n m : Nat) : Nat := m * n / 10000 * n / 10000

/-- The term after one of magnitude `m`, at an angle of magnitude `n`. -/
def termSize (n d m : Nat) : Nat := nextPower n m / d

/-- The terms after one of magnitude `m`, while the products are `int`s. -/
def termSizes (n : Nat) : Nat → List Nat → Option (List Nat)
  | _, [] => some []
  | m, d :: ds =>
    if m * n < 2 ^ 31 ∧ m * n / 10000 * n < 2 ^ 31 then
      (termSizes n (termSize n d m) ds).map (termSize n d m :: ·)
    else none

/-- Some product on the way is not an `int`, with whichever sign. -/
def tooLarge (n : Nat) : Nat → List Nat → Bool
  | _, [] => false
  | m, d :: ds =>
    decide (2 ^ 31 < m * n) ||
      decide (m * n < 2 ^ 31) && (decide (2 ^ 31 < m * n / 10000 * n) ||
        decide (m * n / 10000 * n < 2 ^ 31) && tooLarge n (termSize n d m) ds)

/-- The computation stays in the range of `int` and ends in the range of the function. -/
def FixedInRange (result : U32 → Exact U32) (angle : U32) : Prop :=
  ∃ v, result angle = .ok v ∧ -10100 ≤ v.toInt ∧ v.toInt ≤ 10100

/-- The terms are `int`s, and so is every sum of them; the whole sum is between -10100 and 10100. -/
def converges (n m : Nat) (ds : List Nat) : Bool :=
  match termSizes n m ds with
  | some ms => decide (m + ms.sum < 2 ^ 31) && decide ((m - alternate ms).natAbs ≤ 10100)
  | none => false

/-- `ds` is what the loop divides by. -/
abbrev Denoms (denom : U32 → Exact U32) : List U32 → List Nat → Prop :=
  List.Forall₂ fun k d => 0 < d ∧ ∃ w, denom k = .ok w ∧ w.toInt = d

theorem toInt_fp : fp.toInt = signed false 10000 := rfl

/-- A product brought back to the scale. -/
theorem scaledProduct_signed {a b : U32} (ha : a.toInt = signed p m) (hb : b.toInt = signed q n)
    (h : m * n < 2 ^ 31) : ∃ product c, mulInt a b = .ok product ∧ divInt product fp = .ok c ∧
      c.toInt = signed (p ^^ q) (m * n / 10000) ∧ m * n / 10000 < 2 ^ 31 := by
  obtain ⟨product, hproduct, hval⟩ := mulInt_signed ha hb h
  obtain ⟨c, hc, hcval⟩ := divInt_signed hval toInt_fp (by decide) h
  rw [Bool.xor_false] at hcval
  exact ⟨product, c, hproduct, hc, hcval, Nat.lt_of_le_of_lt (Nat.div_le_self _ _) h⟩

section step
variable (hx : x.toInt = signed q n) (ht : t.toInt = signed p m)
include hx ht

theorem seriesStep_term (hd : 0 < d) (hden : ∃ w, denom k = .ok w ∧ w.toInt = d)
    (hfirst : m * n < 2 ^ 31) (hsecond : m * n / 10000 * n < 2 ^ 31) :
    ∃ c, c.toInt = signed (!p) (termSize n d m) ∧
      seriesStep denom x (t, s) k = do return (c, ← addInt s c) := by
  obtain ⟨w, hw, hwd⟩ := hden
  obtain ⟨c₁, c₂, h₁, h₂, hc₂, hscaled⟩ := scaledProduct_signed ht hx hfirst
  obtain ⟨c₃, h₃, hc₃⟩ := negInt_signed hc₂ hscaled
  obtain ⟨c₄, c₅, h₄, h₅, hc₅, hpower⟩ := scaledProduct_signed hc₃ hx hsecond
  obtain ⟨c₆, h₆, hc₆⟩ := divInt_signed (q := false) hc₅ hwd hd hpower
  refine ⟨c₆, ?_, ?_⟩
  · rw [hc₆, termSize]
    congr 1
    cases p <;> cases q <;> rfl
  · simp only [seriesStep, hw, h₁, h₂, h₃, h₄, h₅, h₆, ok_bind]

theorem seriesStep_overflow (hden : ∃ w, denom k = .ok w ∧ w.toInt = d)
    (hlarge : 2 ^ 31 < m * n ∨ m * n < 2 ^ 31 ∧ 2 ^ 31 < m * n / 10000 * n) :
    seriesStep denom x (t, s) k = .error .overflow := by
  obtain ⟨w, hw, -⟩ := hden
  rcases hlarge with hlarge | ⟨hfirst, hlarge⟩
  · simp only [seriesStep, hw, mulInt_large ht hx hlarge, ok_bind, error_bind]
  · obtain ⟨c₁, c₂, h₁, h₂, hc₂, hscaled⟩ := scaledProduct_signed ht hx hfirst
    obtain ⟨c₃, h₃, hc₃⟩ := negInt_signed hc₂ hscaled
    simp only [seriesStep, hw, h₁, h₂, h₃, mulInt_large hc₃ hx hlarge, ok_bind, error_bind]

end step

theorem series_sum (hden : Denoms denom ks ds) (hx : x.toInt = signed q n)
    (ht : t.toInt = signed p m) (hms : termSizes n m ds = some ms)
    (hs : s.toInt.natAbs + ms.sum < 2 ^ 31) :
    ∃ r, ks.foldlM (seriesStep denom x) (t, s) = .ok r ∧
      r.2.toInt = s.toInt - if p then -alternate ms else alternate ms := by
  induction hden generalizing t s p m ms with
  | nil =>
    obtain rfl : [] = ms := Option.some.inj hms
    refine ⟨(t, s), rfl, ?_⟩
    cases p <;> simp
  | cons hk hden ih =>
    rename_i k d ks ds
    rw [termSizes] at hms
    split at hms
    · rename_i hsmall
      obtain ⟨ms, hrest, rfl⟩ := Option.map_eq_some_iff.mp hms
      obtain ⟨c, hc, hstep⟩ := seriesStep_term (s := s) hx ht hk.1 hk.2 hsmall.1 hsmall.2
      rw [List.sum_cons] at hs
      have hterm := signed_bounds (!p) (termSize n d m)
      have hfits : Fits (s.toInt + c.toInt) := by
        rw [hc]
        unfold Fits
        omega
      obtain ⟨s', hadd, hs'⟩ := exactly_fits hfits
      have hnext : s'.toInt.natAbs + ms.sum < 2 ^ 31 := by
        rw [hs', hc]
        omega
      obtain ⟨r, hr, hsum⟩ := ih hc hrest hnext
      refine ⟨r, ?_, ?_⟩
      · rw [List.foldlM_cons, hstep, addInt, hadd]
        exact hr
      · rw [hsum, hs', hc, alternate_cons]
        cases p with
        | false =>
          simp only [Bool.not_false, signed_true, if_true, Bool.false_eq_true, if_false]
          omega
        | true =>
          simp only [Bool.not_true, signed_false, if_true, Bool.false_eq_true, if_false]
          omega
    · cases hms

theorem series_overflows (hden : Denoms denom ks ds) (hx : x.toInt = signed q n)
    (ht : t.toInt = signed p m) (hlarge : tooLarge n m ds = true) (r : U32 × U32) :
    ks.foldlM (seriesStep denom x) (t, s) ≠ .ok r := by
  induction hden generalizing t s p m with
  | nil => cases hlarge
  | cons hk hden ih =>
    rename_i k d ks ds
    rw [tooLarge] at hlarge
    simp only [Bool.or_eq_true, Bool.and_eq_true, decide_eq_true_eq] at hlarge
    rw [List.foldlM_cons]
    by_cases hnow : 2 ^ 31 < m * n ∨ m * n < 2 ^ 31 ∧ 2 ^ 31 < m * n / 10000 * n
    · rw [seriesStep_overflow hx ht hk.2 hnow]
      rintro ⟨⟩
    · obtain ⟨hfirst, hsecond, hlater⟩ : m * n < 2 ^ 31 ∧ m * n / 10000 * n < 2 ^ 31 ∧
          tooLarge n (termSize n d m) ds = true := by tauto
      obtain ⟨c, hc, hstep⟩ := seriesStep_term (s := s) hx ht hk.1 hk.2 hfirst hsecond
      rw [hstep]
      cases hadd : addInt s c with
      | error e => rintro ⟨⟩
      | ok s' => exact ih hc hlater

/-- A series whose first term is its first sum. -/
theorem series_converges (hden : Denoms denom ks ds) (hx : x.toInt = signed q n)
    (ht : t.toInt = signed p m) (h : converges n m ds = true) :
    ∃ r, ks.foldlM (seriesStep denom x) (t, t) = .ok r ∧
      -10100 ≤ r.2.toInt ∧ r.2.toInt ≤ 10100 := by
  unfold converges at h
  split at h
  · rename_i ms hms
    simp only [Bool.and_eq_true, decide_eq_true_eq] at h
    obtain ⟨hroom, hbound⟩ := h
    have hs : t.toInt.natAbs + ms.sum < 2 ^ 31 := by
      rw [ht, natAbs_signed]
      exact hroom
    obtain ⟨r, hr, hsum⟩ := series_sum hden hx ht hms hs
    refine ⟨r, hr, ?_⟩
    rw [hsum, ht]
    cases p with
    | false =>
      simp only [signed_false, Bool.false_eq_true, if_false]
      omega
    | true =>
      simp only [signed_true, if_true]
      omega
  · cases h

/-! The angle, brought between -31416 and 31416 by whole turns. -/

theorem toInt_piFp : piFp.toInt = 31416 := rfl

theorem toInt_twoPiFp : twoPiFp.toInt = 62832 := rfl

theorem subtractTurns_spec (turns fuel : Nat) (h : x.toInt ≤ 31416 + 62832 * turns)
    (hfuel : turns < fuel) : ∃ y, subtractTurns fuel x = .ok y ∧
      ∃ j : Nat, y.toInt = x.toInt - 62832 * j ∧ y.toInt ≤ 31416 := by
  induction turns generalizing x fuel with
  | zero =>
    obtain ⟨fuel, rfl⟩ := Nat.exists_eq_succ_of_ne_zero (Nat.ne_of_gt hfuel)
    have hdone : ¬ piFp.toInt < x.toInt := by
      rw [toInt_piFp]
      omega
    rw [subtractTurns, if_neg hdone]
    exact ⟨x, rfl, 0, by omega, by omega⟩
  | succ turns ih =>
    obtain ⟨fuel, rfl⟩ := Nat.exists_eq_succ_of_ne_zero (Nat.ne_of_gt (Nat.zero_lt_of_lt hfuel))
    rw [subtractTurns]
    by_cases hturn : piFp.toInt < x.toInt
    · have hx := fits_toInt x
      unfold Fits at hx
      rw [toInt_piFp] at hturn
      have hfits : Fits (x.toInt - twoPiFp.toInt) := by
        rw [toInt_twoPiFp]
        unfold Fits
        omega
      obtain ⟨u, hu, hsub⟩ := exactly_fits hfits
      rw [toInt_twoPiFp] at hsub
      obtain ⟨y, hy, j, hj, hle⟩ := ih fuel (by omega) (by omega : turns < fuel) (x := u)
      rw [if_pos (by rwa [toInt_piFp]), subInt, hu, ok_bind]
      exact ⟨y, hy, j + 1, by omega, hle⟩
    · rw [if_neg hturn]
      rw [toInt_piFp] at hturn
      exact ⟨x, rfl, 0, by omega, by omega⟩

theorem addTurns_spec (turns fuel : Nat) (hhigh : x.toInt ≤ 31416)
    (h : -31416 - 62832 * turns ≤ x.toInt) (hfuel : turns < fuel) :
    ∃ y, addTurns fuel x = .ok y ∧
      ∃ j : Nat, y.toInt = x.toInt + 62832 * j ∧ y.toInt.natAbs ≤ 31416 := by
  induction turns generalizing x fuel with
  | zero =>
    obtain ⟨fuel, rfl⟩ := Nat.exists_eq_succ_of_ne_zero (Nat.ne_of_gt hfuel)
    have hdone : ¬ x.toInt < -piFp.toInt := by
      rw [toInt_piFp]
      omega
    rw [addTurns, if_neg hdone]
    exact ⟨x, rfl, 0, by omega, by omega⟩
  | succ turns ih =>
    obtain ⟨fuel, rfl⟩ := Nat.exists_eq_succ_of_ne_zero (Nat.ne_of_gt (Nat.zero_lt_of_lt hfuel))
    rw [addTurns]
    by_cases hturn : x.toInt < -piFp.toInt
    · have hx := fits_toInt x
      unfold Fits at hx
      rw [toInt_piFp] at hturn
      have hfits : Fits (x.toInt + twoPiFp.toInt) := by
        rw [toInt_twoPiFp]
        unfold Fits
        omega
      obtain ⟨u, hu, hadd⟩ := exactly_fits hfits
      rw [toInt_twoPiFp] at hadd
      obtain ⟨y, hy, j, hj, habs⟩ :=
        ih fuel (by omega) (by omega) (by omega : turns < fuel) (x := u)
      rw [if_pos (by rwa [toInt_piFp]), addInt, hu, ok_bind]
      exact ⟨y, hy, j + 1, by omega, habs⟩
    · rw [if_neg hturn]
      rw [toInt_piFp] at hturn
      exact ⟨x, rfl, 0, by omega, by omega⟩

/-- The turns counted for the loops are enough for every `int`. -/
theorem normalizeRadFp_spec (x : U32) : ∃ y, normalizeRadFp x = .ok y ∧
    ∃ j : Int, y.toInt = x.toInt - 62832 * j ∧ y.toInt.natAbs ≤ 31416 := by
  have hx := fits_toInt x
  unfold Fits at hx
  obtain ⟨u, hu, i, hi, hle⟩ :=
    subtractTurns_spec 34179 normalizeTurns (show x.toInt ≤ _ by omega) (by decide)
  have hfits := fits_toInt u
  unfold Fits at hfits
  obtain ⟨y, hy, j, hj, habs⟩ :=
    addTurns_spec 34179 normalizeTurns hle (by omega) (by decide)
  refine ⟨y, ?_, (i : Int) - j, by omega, habs⟩
  rw [normalizeRadFp, hu]
  exact hy

/-- The magnitude an angle of `d` degrees is brought to. -/
def reduced (d : Nat) : Nat :=
  let b := d % 360 * 31416 / 180
  if b ≤ 31416 then b else 62832 - b

/-- Whole turns off an angle leave no choice of its magnitude. -/
theorem natAbs_eq_reduced {z j : Int} (hz : z = signed p (d * 31416 / 180) - 62832 * j)
    (habs : z.natAbs ≤ 31416) : z.natAbs = reduced d := by
  have hturns : d * 31416 / 180 = 62832 * (d / 360) + d % 360 * 31416 / 180 := by omega
  have hpart : d % 360 * 31416 / 180 < 62832 := by omega
  rw [hturns] at hz
  unfold reduced
  dsimp only
  generalize d % 360 * 31416 / 180 = b at hz hpart ⊢
  cases p with
  | false =>
    rw [signed_false] at hz
    split
    · omega
    · omega
  | true =>
    rw [signed_true] at hz
    split
    · omega
    · omega

theorem degToRadFp_fits (h : x.toInt.natAbs ≤ 68356) : ∃ u p, degToRadFp x = .ok u ∧
    u.toInt = signed p (x.toInt.natAbs * 31416 / 180) := by
  obtain ⟨p, hp⟩ := toInt_signed x
  have hpi : piFp.toInt = signed false 31416 := rfl
  have h180 : (180 : U32).toInt = signed false 180 := rfl
  have hprod : x.toInt.natAbs * 31416 < 2 ^ 31 := by omega
  obtain ⟨c, hc, hval⟩ := mulInt_signed hp hpi hprod
  obtain ⟨u, hu, huval⟩ := divInt_signed hval h180 (by decide) hprod
  refine ⟨u, _, ?_, huval⟩
  rw [degToRadFp, hc]
  exact hu

theorem degToRadFp_overflow (h : 68356 < x.toInt.natAbs) : degToRadFp x = .error .overflow := by
  obtain ⟨p, hp⟩ := toInt_signed x
  have hpi : piFp.toInt = signed false 31416 := rfl
  rw [degToRadFp, mulInt_large hp hpi (by omega)]
  rfl

theorem normalized_magnitude (h : x.toInt.natAbs ≤ 68356) : ∃ u y, degToRadFp x = .ok u ∧
    normalizeRadFp u = .ok y ∧ y.toInt.natAbs = reduced x.toInt.natAbs := by
  obtain ⟨u, p, hu, huval⟩ := degToRadFp_fits h
  obtain ⟨y, hy, j, hj, habs⟩ := normalizeRadFp_spec u
  rw [huval] at hj
  exact ⟨u, y, hu, hy, natAbs_eq_reduced hj habs⟩

/-! The degrees from 0 to 359, one by one. -/

def sinDenoms : List Nat := [6, 20, 42, 72, 110, 156]

def cosDenoms : List Nat := [2, 12, 30, 56, 90, 132]

theorem sinDenom_denoms : Denoms sinDenom [1, 2, 3, 4, 5, 6] sinDenoms := by
  refine .cons ?_ (.cons ?_ (.cons ?_ (.cons ?_ (.cons ?_ (.cons ?_ .nil)))))
  all_goals exact ⟨by decide, _, rfl, by decide⟩

theorem cosDenom_denoms : Denoms cosDenom [1, 2, 3, 4, 5, 6] cosDenoms := by
  refine .cons ?_ (.cons ?_ (.cons ?_ (.cons ?_ (.cons ?_ (.cons ?_ .nil)))))
  all_goals exact ⟨by decide, _, rfl, by decide⟩

/-- Of the angles from 0 to 359 degrees, those up to `low` and from `high` on are good, the others
bad, as their magnitudes in radians tell. -/
def tabled (low high : Nat) (good bad : Nat → Bool) : Bool :=
  (List.range 360).all fun d => if d ≤ low ∨ high ≤ d then good (reduced d) else bad (reduced d)

theorem sine_table : tabled 151 209 (fun n => converges n n sinDenoms)
    (fun n => tooLarge n n sinDenoms) = true := by
  decide +kernel

theorem cosine_table : tabled 146 214 (fun n => converges n 10000 cosDenoms)
    (fun n => tooLarge n 10000 cosDenoms) = true := by
  decide +kernel

theorem reduced_mod (d : Nat) : reduced (d % 360) = reduced d := by
  rw [reduced, reduced, Nat.mod_mod]

section table
variable {low high : Nat} {good bad : Nat → Bool} (htable : tabled low high good bad = true)
include htable

/-- What a table says of one degree it says of the angles that come to the same. -/
theorem of_table (d : Nat) :
    (d % 360 ≤ low ∨ high ≤ d % 360) ∧ good (reduced d) = true ∨
      ¬ (d % 360 ≤ low ∨ high ≤ d % 360) ∧ bad (reduced d) = true := by
  have h := List.all_eq_true.mp htable (d % 360) (List.mem_range.mpr (Nat.mod_lt d (by decide)))
  rw [reduced_mod] at h
  by_cases hd : d % 360 ≤ low ∨ high ≤ d % 360
  · rw [if_pos hd] at h
    exact .inl ⟨hd, h⟩
  · rw [if_neg hd] at h
    exact .inr ⟨hd, h⟩

/-- The conversion to radians limits the angle; past it, the table decides. -/
theorem inRange_of_table {series : U32 → Exact U32}
    (hgood : ∀ y, good y.toInt.natAbs = true → FixedInRange series y)
    (hbad : ∀ y, bad y.toInt.natAbs = true → ∀ v, series y ≠ .ok v) (angle : U32) :
    FixedInRange (fun a => do series (← normalizeRadFp (← degToRadFp a))) angle ↔
      angle.toInt.natAbs ≤ 68356 ∧
        (angle.toInt.natAbs % 360 ≤ low ∨ high ≤ angle.toInt.natAbs % 360) := by
  by_cases hsmall : angle.toInt.natAbs ≤ 68356
  · obtain ⟨u, y, hu, hy, habs⟩ := normalized_magnitude hsmall
    have hresult : (do series (← normalizeRadFp (← degToRadFp angle)) : Exact U32) = series y := by
      rw [hu, ok_bind, hy, ok_bind]
    rw [FixedInRange, hresult, and_iff_right hsmall]
    rcases of_table htable angle.toInt.natAbs with ⟨hin, hentry⟩ | ⟨hout, hentry⟩
    · rw [← habs] at hentry
      exact iff_of_true (hgood y hentry) hin
    · rw [← habs] at hentry
      refine iff_of_false ?_ hout
      rintro ⟨v, hv, -⟩
      exact hbad y hentry v hv
  · refine iff_of_false ?_ (fun h => hsmall h.1)
    rintro ⟨v, hv, -⟩
    dsimp only at hv
    rw [degToRadFp_overflow (Nat.lt_of_not_le hsmall)] at hv
    cases hv

end table

theorem sinSeries_inRange (h : converges y.toInt.natAbs y.toInt.natAbs sinDenoms = true) :
    FixedInRange sinSeries y := by
  obtain ⟨q, hq⟩ := toInt_signed y
  obtain ⟨r, hr, hrange⟩ := series_converges sinDenom_denoms hq hq h
  exact ⟨r.2, by rw [sinSeries, hr]; rfl, hrange⟩

theorem sinSeries_overflows (h : tooLarge y.toInt.natAbs y.toInt.natAbs sinDenoms = true) (v : U32) :
    sinSeries y ≠ .ok v := by
  obtain ⟨q, hq⟩ := toInt_signed y
  intro hv
  obtain ⟨r, hr, -⟩ := bind_eq_ok.mp hv
  exact series_overflows sinDenom_denoms hq hq h r hr

theorem cosSeries_inRange (h : converges y.toInt.natAbs 10000 cosDenoms = true) :
    FixedInRange cosSeries y := by
  obtain ⟨q, hq⟩ := toInt_signed y
  obtain ⟨r, hr, hrange⟩ := series_converges cosDenom_denoms hq toInt_fp h
  exact ⟨r.2, by rw [cosSeries, hr]; rfl, hrange⟩

theorem cosSeries_overflows (h : tooLarge y.toInt.natAbs 10000 cosDenoms = true) (v : U32) :
    cosSeries y ≠ .ok v := by
  obtain ⟨q, hq⟩ := toInt_signed y
  intro hv
  obtain ⟨r, hr, -⟩ := bind_eq_ok.mp hv
  exact series_overflows cosDenom_denoms hq toInt_fp h r hr

/-- The sine is in range, with no overflow on the way, for exactly the angles of up to 68356 degrees
that are at most 151 degrees from a whole turn; the cosine, 146 degrees. -/
theorem sine_cosine_in_range (angle : U32) :
    (FixedInRange sinResult angle ↔ angle.toInt.natAbs ≤ 68356 ∧
      (angle.toInt.natAbs % 360 ≤ 151 ∨ 209 ≤ angle.toInt.natAbs % 360)) ∧
    (FixedInRange cosResult angle ↔ angle.toInt.natAbs ≤ 68356 ∧
      (angle.toInt.natAbs % 360 ≤ 146 ∨ 214 ≤ angle.toInt.natAbs % 360)) := by
  constructor
  · exact inRange_of_table sine_table (fun _ => sinSeries_inRange) (fun _ => sinSeries_overflows) angle
  · exact inRange_of_table cosine_table (fun _ => cosSeries_inRange) (fun _ => cosSeries_overflows) angle

/-- At 68357 degrees the product with 31416 is no `int`, and at 180 degrees a product in the series
is none. -/
theorem sine_cosine_in_range_not :
    sinResult 68357 = .error .overflow ∧ cosResult 68357 = .error .overflow ∧
      sinResult 180 = .error .overflow ∧ cosResult 180 = .error .overflow := by
  refine ⟨?_, ?_, ?_, ?_⟩
  all_goals decide +kernel

end Kernix.Proofs
