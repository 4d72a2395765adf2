import Mathlib.Algebra.Order.Ring.Int
import Mathlib.Data.Int.LeastGreatest
import Mathlib.Order.Bounds.Basic
import Kernix.Proofs.RootSearch
import Kernix.Proofs.UnsignedNumerals

namespace Kernix.Proofs
open Library Calc

variable {a n : U32} {s t : RootSearch} {low high m r : Int} {k : Nat}

/-! Integer roots. -/

/-- `r` is the largest integer whose power is at most `a`. -/
def IsRoot (a n : U32) (r : Int) : Prop := IsGreatest {r : Int | r ^ n.toInt.toNat ≤ a.toInt} r

theorem pow_le_pow_pos {x y : Int} (hx : 1 ≤ x) (hxy : x ≤ y) (k : Nat) : x ^ k ≤ y ^ k :=
  pow_le_pow_left₀ (by omega) hxy k

/-- A number above 0 has a root above 0. -/
theorem exists_root (ha : 1 ≤ a.toInt) (hn : 1 ≤ n.toInt) :
    ∃ r, IsRoot a n r ∧ 1 ≤ r ∧ r ≤ a.toInt := by
  have hk : n.toInt.toNat ≠ 0 := by omega
  have hbound : ∀ z : Int, z ^ n.toInt.toNat ≤ a.toInt → z ≤ a.toInt := by
    intro z hz
    by_contra hlarge
    have hself : z ≤ z ^ n.toInt.toNat := le_self_pow₀ (by omega) hk
    omega
  have hone : (1 : Int) ^ n.toInt.toNat ≤ a.toInt := by rwa [Int.one_pow]
  obtain ⟨r, hr, hgreatest⟩ := Int.exists_greatest_of_bdd ⟨a.toInt, hbound⟩ ⟨1, hone⟩
  exact ⟨r, ⟨hr, fun z hz => hgreatest z hz⟩, hgreatest 1 hone, hbound r hr⟩

theorem IsRoot.unique {q : Int} (h : IsRoot a n r) (h' : IsRoot a n q) : r = q :=
  IsGreatest.unique h h'

/-- Above 0 the powers up to the root are at most `a`, and no others. -/
theorem IsRoot.le_iff (h : IsRoot a n r) (hm : 1 ≤ m) : m ≤ r ↔ m ^ n.toInt.toNat ≤ a.toInt := by
  constructor
  · intro hle
    exact le_trans (pow_le_pow_pos hm hle _) h.1
  · exact fun hpow => h.2 hpow

theorem IsRoot.lt_iff (h : IsRoot a n r) (hm : 1 ≤ m) : r < m ↔ a.toInt < m ^ n.toInt.toNat := by
  rw [← not_le, ← not_le, h.le_iff hm]

/-- `calc_root` prints the root. -/
def PrintsRoot (a n : U32) : Prop :=
  ∃ r, IsRoot a n r ∧ ∃ fuel, calcRoot fuel a n = some (resultText r)

/-- Every comparison of a bisection for the root turns out in `int` as it does in the integers. -/
def RootFaithful (a n : U32) : Prop :=
  ∀ low high, Bisects (· ^ n.toInt.toNat < a.toInt) (a.toInt < · ^ n.toInt.toNat) 1 a.toInt
      low high → low ≤ high →
    low + high ≤ 2147483647 ∧
      (a.toInt < ((low + high) / 2) ^ n.toInt.toNat →
        a.toInt < wrappedPow ((low + high) / 2) n.toInt.toNat)

theorem wrappedPow_of_le (hm : 1 ≤ m) (hle : m ^ k ≤ a.toInt) : wrappedPow m k = m ^ k := by
  have hmax := (fits_toInt a).2
  have hpos : 1 ≤ m ^ k := by
    calc (1 : Int) = 1 ^ k := (Int.one_pow).symm
      _ ≤ m ^ k := pow_le_pow_pos (by omega) hm k
  apply wrappedPow_of_fits
  unfold Fits
  omega

/-- The comparison of a power with `a`, where it is faithful. -/
theorem compare_faithful (hm : 1 ≤ m)
    (h : a.toInt < m ^ n.toInt.toNat → a.toInt < wrappedPow m n.toInt.toNat) :
    (powAbove a n m ↔ a.toInt < m ^ n.toInt.toNat) ∧
      (powBelow a n m ↔ m ^ n.toInt.toNat < a.toInt) := by
  unfold powAbove powBelow
  rcases Int.lt_or_le a.toInt (m ^ n.toInt.toNat) with hbig | hle
  · have := h hbig
    omega
  · rw [wrappedPow_of_le hm hle]
    exact ⟨Iff.rfl, Iff.rfl⟩

/-! A faithful search finds the root. -/

/-- The search has come to the interval of `s` by faithful comparisons, and has its `result` from
the one before. -/
structure Faithful (a n : U32) (s : RootSearch) : Prop where
  visited : Bisects (· ^ n.toInt.toNat < a.toInt) (a.toInt < · ^ n.toInt.toNat) 1 a.toInt
    s.low.toInt s.high.toInt
  result : s.result.toInt = max 1 (s.low.toInt - 1)

theorem IsRoot.brackets (hr : IsRoot a n r) (hpos : 1 ≤ r) (hle : r ≤ a.toInt)
    (h : Bisects (· ^ n.toInt.toNat < a.toInt) (a.toInt < · ^ n.toInt.toNat) 1 a.toInt low high) :
    low - 1 ≤ r ∧ r ≤ high := by
  refine h.brackets ?_ ?_ (by omega) hle
  · intro m hm hbelow
    exact (hr.le_iff hm).mpr (Int.le_of_lt hbelow)
  · intro m hm habove
    exact (hr.lt_iff hm).mpr habove

theorem middle_pos (hlow : 1 ≤ s.low.toInt) (hle : s.low.toInt ≤ s.high.toInt) : 1 ≤ middle s := by
  unfold middle
  omega

/-- A faithful turn goes on faithfully, or leaves with the root. -/
theorem Faithful.turn (hn : 1 ≤ n.toInt) (hf : RootFaithful a n) (hr : IsRoot a n r) (hpos : 1 ≤ r)
    (hle : r ≤ a.toInt) (h : Faithful a n s) :
    (∀ t, rootBody a n s = .inl t → Faithful a n t ∧
        (t.high.toInt + 1 - t.low.toInt).toNat < (s.high.toInt + 1 - s.low.toInt).toNat) ∧
      ∀ q, rootBody a n s = .inr q → q.toInt = r := by
  have hlow := h.visited.within.1
  have hbrackets := hr.brackets hpos hle h.visited
  have hturn : RootTurn a n s (rootBody a n s) :=
    rootBody_turn hlow fun hnonempty => (hf _ _ h.visited hnonempty).1
  have hcompare : s.low.toInt ≤ s.high.toInt → (powAbove a n (middle s) ↔
        a.toInt < middle s ^ n.toInt.toNat) ∧
      (powBelow a n (middle s) ↔ middle s ^ n.toInt.toNat < a.toInt) :=
    fun hnonempty => compare_faithful (middle_pos hlow hnonempty) (hf _ _ h.visited hnonempty).2
  constructor
  · intro t hbody
    rw [hbody] at hturn
    cases hturn with
    | up hnonempty hpow hlow' hhigh' hresult' =>
      have hbelow := (hcompare hnonempty).2.mp hpow
      have hmid := middle_pos hlow hnonempty
      refine ⟨⟨?_, ?_⟩, ?_⟩
      · rw [hlow', hhigh']
        exact .up h.visited hnonempty hbelow
      · omega
      · rw [hlow', hhigh']
        unfold middle
        omega
    | down hnonempty hpow hlow' hhigh' hresult' =>
      have habove := (hcompare hnonempty).1.mp hpow
      refine ⟨⟨?_, ?_⟩, ?_⟩
      · rw [hlow', hhigh']
        exact .down h.visited hnonempty habove
      · rw [hresult', hlow']
        exact h.result
      · rw [hlow', hhigh']
        unfold middle
        omega
  · intro q hbody
    rw [hbody] at hturn
    cases hturn with
    | crossed hover =>
      have := h.result
      omega
    | found hnonempty hmid hpow =>
      rw [hmid]
      have hmpos := middle_pos hlow hnonempty
      have hcmp := hcompare hnonempty
      unfold powAbove powBelow at hcmp
      have heq : middle s ^ n.toInt.toNat = a.toInt := by omega
      have hup : middle s ≤ r := (hr.le_iff hmpos).mpr (Int.le_of_eq heq)
      rcases Int.lt_or_eq_of_le hup with hlt | hroot
      · -- the power of the root would be larger than `a`
        have hlarger := pow_lt_pow_left₀ hlt (by omega) (by omega : n.toInt.toNat ≠ 0)
        exact absurd hr.1 (not_le.mpr (heq ▸ hlarger))
      · exact hroot

theorem calcRoot_eq_some (hn : 1 ≤ n.toInt) {fuel : Nat} {cs : List Byte} :
    calcRoot fuel a n = some cs ↔
      ∃ q, turns (rootBody a n) fuel ⟨1, a, 1⟩ = some q ∧ printUnsigned q = cs := by
  rw [calcRoot, if_neg (by omega), Option.map_eq_some_iff]

/-- What is printed is a number that the search leaves with. -/
theorem prints_iff (hn : 1 ≤ n.toInt) (hpos : 1 ≤ r) (hle : r ≤ a.toInt) :
    (∃ fuel, calcRoot fuel a n = some (resultText r)) ↔
      ∃ q, Ends (rootBody a n) ⟨1, a, 1⟩ q ∧ q.toInt = r := by
  have hmax := (fits_toInt a).2
  have hprinted : ∀ q, printUnsigned q = resultText r ↔ q.toInt = r := by
    intro q
    rw [printUnsigned_eq, resultText_injective.eq_iff, BitVec.toInt_eq_toNat_cond]
    have := q.isLt
    split <;> omega
  constructor
  · intro h
    obtain ⟨fuel, hrun⟩ := h
    obtain ⟨q, hq, htext⟩ := (calcRoot_eq_some hn).mp hrun
    exact ⟨q, ⟨fuel, hq⟩, (hprinted q).mp htext⟩
  · intro h
    obtain ⟨q, hends, hq⟩ := h
    obtain ⟨fuel, hrun⟩ := hends
    exact ⟨fuel, (calcRoot_eq_some hn).mpr ⟨q, hrun, (hprinted q).mpr hq⟩⟩

theorem printsRoot_of_faithful (ha : 1 ≤ a.toInt) (hn : 1 ≤ n.toInt) (hf : RootFaithful a n) :
    PrintsRoot a n := by
  obtain ⟨r, hr, hpos, hle⟩ := exists_root ha hn
  have hstart : Faithful a n ⟨1, a, 1⟩ := ⟨.start, rfl⟩
  obtain ⟨q, hends⟩ := ends_of_measure (I := Faithful a n)
    (fun s => (s.high.toInt + 1 - s.low.toInt).toNat) hstart
    fun s t h hbody => (h.turn hn hf hr hpos hle).1 t hbody
  have hq : q.toInt = r := hends.invariant (I := Faithful a n) (Q := fun q => q.toInt = r) hstart
    (fun s t h hbody => ((h.turn hn hf hr hpos hle).1 t hbody).1)
    fun s q h hbody => (h.turn hn hf hr hpos hle).2 q hbody
  exact ⟨r, hr, (prints_iff hn hpos hle).mpr ⟨q, hends, hq⟩⟩

/-! A search that was misled once does not find the root any more. -/

/-- Everything the search still looks at is larger than the root, and so is its `result`. -/
structure Misled (a n : U32) (r : Int) (s : RootSearch) : Prop where
  visited : Visits a n s
  low : r < s.low.toInt
  result : r < s.result.toInt

theorem Misled.turn (hsums : SumsFit a n) (h : Misled a n r s) :
    (∀ t, rootBody a n s = .inl t → Misled a n r t) ∧
      ∀ q, rootBody a n s = .inr q → r < q.toInt := by
  have hturn := h.visited.turn hsums
  have hlow := h.low
  constructor
  · intro t hbody
    have hnext := (h.visited.next hsums hbody).1
    rw [hbody] at hturn
    cases hturn with
    | up hnonempty _ hlow' _ hresult' =>
      unfold middle at hlow' hresult'
      exact ⟨hnext, by omega, by omega⟩
    | down _ _ hlow' _ hresult' =>
      exact ⟨hnext, hlow' ▸ h.low, hresult' ▸ h.result⟩
  · intro q hbody
    rw [hbody] at hturn
    cases hturn with
    | crossed _ => exact h.result
    | found hnonempty hmid _ =>
      unfold middle at hmid
      omega

theorem Misled.larger {q : U32} (hsums : SumsFit a n) (h : Misled a n r s)
    (hends : Ends (rootBody a n) s q) : r < q.toInt :=
  hends.invariant (I := Misled a n r) (Q := fun q => r < q.toInt) h
    (fun _ t hs hbody => (hs.turn hsums).1 t hbody) fun _ q hs hbody => (hs.turn hsums).2 q hbody

/-- Where the search ends with the root, a comparison that it makes was faithful. -/
theorem faithful_here {q : U32} (hsums : SumsFit a n) (hr : IsRoot a n r) (hv : Visits a n s)
    (hends : Ends (rootBody a n) s q) (hq : q.toInt = r) (hle : s.low.toInt ≤ s.high.toInt)
    (habove : a.toInt < middle s ^ n.toInt.toNat) : powAbove a n (middle s) := by
  have hmid : r < middle s := (hr.lt_iff (middle_pos hv.within.1 hle)).mpr habove
  have hturn := hv.turn hsums
  cases hbody : rootBody a n s with
  | inl t =>
    have hnext := (hv.next hsums hbody).1
    have hends' := (ends_inl hbody).mp hends
    rw [hbody] at hturn
    cases hturn with
    | up _ _ hlow' _ hresult' =>
      have hmisled : Misled a n r t := ⟨hnext, by omega, by omega⟩
      have := hmisled.larger hsums hends'
      omega
    | down _ hpow _ _ _ => exact hpow
  | inr p =>
    have hqp := (ends_inr hbody).mp hends
    rw [hbody] at hturn
    cases hturn with
    | crossed hover => omega
    | found _ hmid' _ =>
      rw [← hqp] at hmid'
      omega

/-- Then the search comes to every interval that a bisection for the root comes to. -/
theorem search_follows {q : U32} (hsums : SumsFit a n) (hr : IsRoot a n r)
    (hends : Ends (rootBody a n) ⟨1, a, 1⟩ q) (hq : q.toInt = r)
    (h : Bisects (· ^ n.toInt.toNat < a.toInt) (a.toInt < · ^ n.toInt.toNat) 1 a.toInt low high) :
    ∃ s : RootSearch, s.low.toInt = low ∧ s.high.toInt = high ∧ Visits a n s ∧
      Ends (rootBody a n) s q := by
  induction h with
  | start => exact ⟨⟨1, a, 1⟩, rfl, rfl, visits_start a n, hends⟩
  | up _ hle hbelow ih =>
    obtain ⟨s, rfl, rfl, hv, hs⟩ := ih
    have hspans : Spans s s.low.toInt s.high.toInt :=
      ⟨rfl, rfl, hv.within.1, hle, hsums _ _ hv hle⟩
    have hexact := wrappedPow_of_le (a := a) (middle_pos hv.within.1 hle) (Int.le_of_lt hbelow)
    obtain ⟨mid, low', hbody, -, hlow'⟩ := rootBody_up hspans (hexact ▸ hbelow)
    exact ⟨⟨low', s.high, mid⟩, hlow', rfl, (hv.next hsums hbody).1, (ends_inl hbody).mp hs⟩
  | down _ hle habove ih =>
    obtain ⟨s, rfl, rfl, hv, hs⟩ := ih
    have hspans : Spans s s.low.toInt s.high.toInt :=
      ⟨rfl, rfl, hv.within.1, hle, hsums _ _ hv hle⟩
    have hpow := faithful_here hsums hr hv hs hq hle habove
    obtain ⟨high', hbody, hhigh'⟩ := rootBody_down hspans hpow
    exact ⟨⟨s.low, high', s.result⟩, rfl, hhigh', (hv.next hsums hbody).1, (ends_inl hbody).mp hs⟩

theorem faithful_of_printsRoot (ha : 1 ≤ a.toInt) (hn : 1 ≤ n.toInt) (hsums : SumsFit a n)
    (h : PrintsRoot a n) : RootFaithful a n := by
  obtain ⟨r, hr, hpos, hle⟩ := exists_root ha hn
  obtain ⟨r', hr', hprinted⟩ := h
  rw [hr'.unique hr] at hprinted
  obtain ⟨q, hends, hq⟩ := (prints_iff hn hpos hle).mp hprinted
  intro low high hbisects hnonempty
  obtain ⟨s, hlow, hhigh, hv, hs⟩ := search_follows hsums hr hends hq hbisects
  subst hlow hhigh
  exact ⟨hsums _ _ hv hnonempty, fun habove => faithful_here hsums hr hv hs hq hnonempty habove⟩

/-- `calc_root` prints the root where every comparison is faithful, and, among the numbers whose
sums stay in range, for which see `SumsFit`, nowhere else. -/
theorem root_printed_iff (a n : U32) (ha : 1 ≤ a.toInt) (hn : 1 ≤ n.toInt) :
    (RootFaithful a n → PrintsRoot a n) ∧ (SumsFit a n → (PrintsRoot a n ↔ RootFaithful a n)) ∧
      (a.toInt < 2 ^ 30 → SumsFit a n) :=
  ⟨printsRoot_of_faithful ha hn,
    fun hsums => ⟨faithful_of_printsRoot ha hn hsums, printsRoot_of_faithful ha hn⟩,
    sumsFit_of_small n⟩

theorem root_printed_iff_nine : PrintsRoot 9 2 ∧ RootFaithful 9 2 := by
  have hroot : IsRoot 9 2 3 := by
    refine ⟨by decide, ?_⟩
    intro z hz
    by_contra hlarge
    have hsquare := pow_le_pow_pos (by decide : (1 : Int) ≤ 4) (by omega : 4 ≤ z) 2
    have hz : z ^ 2 ≤ 9 := hz
    omega
  have hprints : PrintsRoot 9 2 := ⟨3, hroot, 10, by decide +kernel⟩
  have hiff := root_printed_iff 9 2 (by decide) (by decide)
  exact ⟨hprints, (hiff.2.1 (hiff.2.2 (by decide))).mp hprints⟩

/-- The square root of 1000000 is printed as 458753. -/
theorem root_printed_wrong : calcRoot 40 1000000 2 = some (text "Result: 458753\n") ∧
    ¬ PrintsRoot 1000000 2 := by
  have hturns : turns (rootBody 1000000 2) 40 ⟨1, 1000000, 1⟩ = some 458753 := by decide +kernel
  refine ⟨by decide +kernel, ?_⟩
  intro hprints
  obtain ⟨r, hr, fuel, hrun⟩ := hprints
  obtain ⟨q, hq, htext⟩ := (calcRoot_eq_some (by decide)).mp hrun
  have hword : q = 458753 := Ends.unique ⟨fuel, hq⟩ ⟨40, hturns⟩
  rw [printUnsigned_eq, hword] at htext
  have hroot : (458753 : Int) = r := resultText_injective htext
  have hpow := hr.1
  rw [← hroot] at hpow
  exact absurd hpow (by decide)

end Kernix.Proofs
