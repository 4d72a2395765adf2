import Mathlib.Data.Nat.Fib.Basic
import Mathlib.Data.Nat.Factorial.Basic
import Mathlib.Tactic.NormNum.NatFib
import Mathlib.Tactic.NormNum.NatFactorial
import Kernix.Calc.Sequences
import Kernix.Proofs.CheckedProducts
import Kernix.Proofs.UnsignedNumerals

namespace Kernix.Proofs
open Library Calc

variable {i j m n : Nat} {a b iv result : U32}

/-! Sequences that rise until an `int` holds them no longer. -/

/-- A rising sequence is in the range of `int` as far as its last number there. -/
theorem fits_iff_le {f : Nat → Nat} (hf : Monotone f) (hlast : f m < 2 ^ 31)
    (hnext : 2 ^ 31 ≤ f (m + 1)) : Fits (f n) ↔ n ≤ m := by
  constructor
  · intro hfits
    by_contra hle
    have hrise : f (m + 1) ≤ f n := hf (by omega)
    have hlt := hfits.2
    omega
  · intro hle
    have hrise : f n ≤ f m := hf hle
    exact ⟨by omega, by omega⟩

theorem factorial_fits : Fits (n.factorial : Nat) ↔ n ≤ 12 :=
  fits_iff_le (fun _ _ h => Nat.factorial_le h) (by decide) (by decide)

theorem fib_fits : Fits (Nat.fib n : Nat) ↔ n ≤ 46 :=
  fits_iff_le Nat.fib_mono (by norm_num) (by norm_num)

/-- The loop of `calc_factorial` goes through the factorials. -/
theorem factorialLoop_eq (hn : n ≤ 12) (turns : Nat) (hi : i + 1 + turns = n) (hiv : iv.toInt = i + 2)
    (hresult : result.toInt = ((i + 1).factorial : Nat)) :
    ∃ v, factorialLoop turns iv result = .ok v ∧ v.toInt = (n.factorial : Nat) := by
  induction turns generalizing i iv result with
  | zero => exact ⟨result, rfl, by rw [hresult, ← hi, Nat.add_zero]⟩
  | succ turns ih =>
    have hnext : result.toInt * iv.toInt = ((i + 2).factorial : Nat) := by
      rw [hresult, hiv, Nat.factorial_succ (i + 1)]
      push_cast
      ring
    have hproduct : Fits (result.toInt * iv.toInt) := by
      rw [hnext]
      exact factorial_fits.mpr (by omega)
    have hone : (1 : U32).toInt = 1 := rfl
    have hsum : Fits (iv.toInt + (1 : U32).toInt) := ⟨by omega, by omega⟩
    obtain ⟨w, hw, hwv⟩ := exactly_fits hproduct
    obtain ⟨u, hu, huv⟩ := exactly_fits hsum
    rw [factorialLoop, mulInt, hw, ok_bind, addInt, hu, ok_bind]
    exact ih (by omega) (by omega) (hwv.trans hnext)

theorem written_printResult (v : U32) : written (printResult v) = .ok (resultText v.toInt) := by
  rw [printResult_eq]
  rfl

/-- `calc_factorial` prints the factorial exactly where an `int` can hold it, and takes no step out
of that range. -/
theorem factorial_exact (n : U32) : calcFactorial n = .ok
    (if n.toInt < 0 then factorialNegative
    else if Fits (n.toInt.toNat.factorial : Nat) then resultText (n.toInt.toNat.factorial : Nat)
    else factorialOverflow) := by
  unfold calcFactorial
  by_cases hneg : n.toInt < 0
  · rw [if_pos hneg, if_pos hneg]
    rfl
  rw [if_neg hneg, if_neg hneg]
  by_cases hlarge : 12 < n.toInt
  · have hno : ¬ Fits (n.toInt.toNat.factorial : Nat) := by
      rw [factorial_fits]
      omega
    rw [if_pos hlarge, if_neg hno]
    rfl
  have hfits : Fits (n.toInt.toNat.factorial : Nat) := factorial_fits.mpr (by omega)
  rw [if_neg hlarge, if_pos hfits]
  have hloop : ∃ v, factorialLoop (n.toInt - 1).toNat 2 1 = .ok v ∧
      v.toInt = (n.toInt.toNat.factorial : Nat) := by
    by_cases hzero : n.toInt = 0
    · rw [hzero]
      exact ⟨1, rfl, rfl⟩
    · exact factorialLoop_eq (i := 0) (by omega) _ (by omega) rfl rfl
  obtain ⟨v, hv, hvalue⟩ := hloop
  change (do let result ← factorialLoop (n.toInt - 1).toNat 2 1; written (printResult result)) = _
  rw [hv, ok_bind, written_printResult, hvalue]

/-- The loop of `calc_fibonacci` goes through the Fibonacci numbers. -/
theorem fibonacciLoop_eq (hn : n ≤ 46) (turns : Nat) (hi : i + 1 + turns = n)
    (ha : a.toInt = (Nat.fib i : Nat)) (hb : b.toInt = (Nat.fib (i + 1) : Nat)) :
    ∃ v, fibonacciLoop turns a b = .ok v ∧ v.toInt = (Nat.fib n : Nat) := by
  induction turns generalizing i a b with
  | zero => exact ⟨b, rfl, by rw [hb, ← hi, Nat.add_zero]⟩
  | succ turns ih =>
    have hnext : a.toInt + b.toInt = (Nat.fib (i + 2) : Nat) := by
      rw [ha, hb, Nat.fib_add_two]
      push_cast
      ring
    have hsum : Fits (a.toInt + b.toInt) := by
      rw [hnext]
      exact fib_fits.mpr (by omega)
    obtain ⟨u, hu, huv⟩ := exactly_fits hsum
    rw [fibonacciLoop, addInt, hu, ok_bind]
    exact ih (by omega) hb (huv.trans hnext)

/-- `calc_fibonacci` prints the Fibonacci number exactly where an `int` can hold it, and takes no
step out of that range. -/
theorem fibonacci_exact (n : U32) : calcFibonacci n = .ok
    (if n.toInt < 0 then fibonacciNegative
    else if Fits (Nat.fib n.toInt.toNat : Nat) then resultText (Nat.fib n.toInt.toNat : Nat)
    else fibonacciOverflow) := by
  unfold calcFibonacci
  by_cases hneg : n.toInt < 0
  · rw [if_pos hneg, if_pos hneg]
    rfl
  rw [if_neg hneg, if_neg hneg]
  by_cases hlarge : 46 < n.toInt
  · have hno : ¬ Fits (Nat.fib n.toInt.toNat : Nat) := by
      rw [fib_fits]
      omega
    rw [if_pos hlarge, if_neg hno]
    rfl
  have hfits : Fits (Nat.fib n.toInt.toNat : Nat) := fib_fits.mpr (by omega)
  rw [if_neg hlarge, if_pos hfits]
  by_cases hzero : n = 0
  · subst hzero
    rfl
  have hpos : n.toInt ≠ 0 := toInt_ne_zero hzero
  have hfirst : (0 : U32).toInt = (Nat.fib 0 : Nat) := rfl
  have hsecond : (1 : U32).toInt = (Nat.fib 1 : Nat) := rfl
  obtain ⟨v, hv, hvalue⟩ := fibonacciLoop_eq (i := 0) (n := n.toInt.toNat) (by omega)
    (n.toInt - 1).toNat (by omega) hfirst hsecond
  rw [if_neg hzero]
  change (do let b ← fibonacciLoop (n.toInt - 1).toNat 0 1; written (printResult b)) = _
  rw [hv, ok_bind, written_printResult, hvalue]

/-- What is left of a square in 32 bits. -/
theorem square_word (a : U32) : ((a * a).toNat : Int) = a.toInt * a.toInt % 2 ^ 32 := by
  have hword : ∃ k : Int, (a.toNat : Int) = a.toInt + 2 ^ 32 * k := by
    rw [BitVec.toInt_eq_toNat_cond]
    split
    · exact ⟨0, by simp⟩
    · exact ⟨1, by simp⟩
  obtain ⟨k, hk⟩ := hword
  have hsquare : (a.toInt + 2 ^ 32 * k) * (a.toInt + 2 ^ 32 * k) =
      a.toInt * a.toInt + 2 ^ 32 * (2 * a.toInt * k + 2 ^ 32 * k * k) := by ring
  calc ((a * a).toNat : Int)
      = (a.toNat : Int) * a.toNat % 2 ^ 32 := by rw [BitVec.toNat_mul]; norm_cast
    _ = a.toInt * a.toInt % 2 ^ 32 := by rw [hk, hsquare, Int.add_mul_emod_self_left]

/-- `calc_sqr` prints the square of exactly the numbers whose square has 32 bits, though an `int`
holds fewer. -/
theorem sqr_printed_iff (a : U32) :
    calcSqr a = resultText (a.toInt * a.toInt) ↔ a.toInt.natAbs < 65536 := by
  have hsquare : (a.toInt.natAbs * a.toInt.natAbs : Nat) = a.toInt * a.toInt :=
    Int.natAbs_mul_self
  rw [calcSqr, printUnsigned_eq, resultText_injective.eq_iff, square_word, ← hsquare]
  constructor
  · intro h
    by_contra hlarge
    have hle : 65536 * 65536 ≤ a.toInt.natAbs * a.toInt.natAbs :=
      Nat.mul_le_mul (by omega) (by omega)
    omega
  · intro h
    have hlt : a.toInt.natAbs * a.toInt.natAbs < 65536 * 65536 := Nat.mul_self_lt_mul_self h
    omega

end Kernix.Proofs
