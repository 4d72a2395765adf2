import Mathlib.Data.List.Basic

namespace Library

variable {σ α ε : Type} {s : σ}

/-- A loop over `0 .. n-1` whose body keeps `I` from one index to the next ends, and `I n` holds. -/
theorem foldlM_range {f : σ → Nat → Option σ} (I : Nat → σ → Prop) (n : Nat) (h₀ : I 0 s)
    (hstep : ∀ i < n, ∀ t, I i t → ∃ u, f t i = some u ∧ I (i + 1) u) :
    ∃ t, (List.range n).foldlM f s = some t ∧ I n t := by
  induction n with
  | zero => exact ⟨s, rfl, h₀⟩
  | succ n ih =>
    obtain ⟨t, ht, hI⟩ := ih fun i hi => hstep i (Nat.lt_succ_of_lt hi)
    obtain ⟨u, hu, hI'⟩ := hstep n (Nat.lt_succ_self n) t hI
    refine ⟨u, ?_, hI'⟩
    rw [List.range_succ, List.foldlM_append, ht]
    simp [hu]

/-- A loop over a list, followed element by element. -/
theorem foldlM_refines {f : σ → ε → Option σ} {g : α → ε → α} (R : σ → α → Prop) {a : α}
    (xs : List ε) (h₀ : R s a) (hstep : ∀ x ∈ xs, ∀ t b, R t b → ∃ u, f t x = some u ∧ R u (g b x)) :
    ∃ t, xs.foldlM f s = some t ∧ R t (xs.foldl g a) := by
  induction xs generalizing s a with
  | nil => exact ⟨s, rfl, h₀⟩
  | cons x xs ih =>
    obtain ⟨t, ht, hR⟩ := hstep x (by simp) s a h₀
    obtain ⟨u, hu, hR'⟩ := ih hR fun y hy => hstep y (List.mem_cons_of_mem _ hy)
    refine ⟨u, ?_, hR'⟩
    rw [List.foldlM_cons, ht]
    exact hu

/-- A loop over a list whose body keeps `I` ends, and `I` holds. -/
theorem foldlM_invariant {f : σ → ε → Option σ} (I : σ → Prop) (xs : List ε) (h₀ : I s)
    (hstep : ∀ x ∈ xs, ∀ t, I t → ∃ u, f t x = some u ∧ I u) :
    ∃ t, xs.foldlM f s = some t ∧ I t :=
  foldlM_refines (g := fun (_ : Unit) _ => ()) (a := ()) (fun t _ => I t) xs h₀
    fun x hx t _ ht => hstep x hx t ht

end Library
