import Mathlib.Data.Nat.Init

namespace Library

variable {σ ρ : Type} {body : σ → σ ⊕ ρ} {s t : σ} {r q : ρ} {n : Nat}

/-! Loops that may not end. A turn goes on with another state, or leaves with a result. -/

/-- The result within `n` turns. -/
def turns (body : σ → σ ⊕ ρ) : Nat → σ → Option ρ
  | 0, _ => none
  | n + 1, s =>
    match body s with
    | .inl t => turns body n t
    | .inr r => some r

/-- The loop ends, and leaves with `r`. -/
def Ends (body : σ → σ ⊕ ρ) (s : σ) (r : ρ) : Prop := ∃ n, turns body n s = some r

theorem turns_inl (h : body s = .inl t) : turns body (n + 1) s = turns body n t := by
  rw [turns, h]

theorem turns_inr (h : body s = .inr r) : turns body (n + 1) s = some r := by
  rw [turns, h]

theorem ends_inl (h : body s = .inl t) : Ends body s r ↔ Ends body t r := by
  constructor
  · intro hends
    obtain ⟨n, hn⟩ := hends
    cases n with
    | zero => cases hn
    | succ n => exact ⟨n, turns_inl h ▸ hn⟩
  · intro hends
    obtain ⟨n, hn⟩ := hends
    exact ⟨n + 1, (turns_inl h).trans hn⟩

theorem ends_inr (h : body s = .inr q) : Ends body s r ↔ r = q := by
  constructor
  · intro hends
    obtain ⟨n, hn⟩ := hends
    cases n with
    | zero => cases hn
    | succ n => exact (Option.some.inj ((turns_inr h).symm.trans hn)).symm
  · intro hrq
    subst hrq
    exact ⟨1, turns_inr h⟩

/-- What every turn keeps holds where the loop leaves. -/
theorem Ends.invariant {I : σ → Prop} {Q : ρ → Prop} (h : Ends body s r) (h₀ : I s)
    (hinl : ∀ s t, I s → body s = .inl t → I t) (hinr : ∀ s r, I s → body s = .inr r → Q r) :
    Q r := by
  obtain ⟨n, hn⟩ := h
  induction n generalizing s with
  | zero => cases hn
  | succ n ih =>
    cases hbody : body s with
    | inl t => exact ih (hinl s t h₀ hbody) (turns_inl hbody ▸ hn)
    | inr q =>
      rw [turns_inr hbody] at hn
      exact Option.some.inj hn ▸ hinr s q h₀ hbody

theorem Ends.unique (h : Ends body s r) (h' : Ends body s q) : r = q := by
  refine h.invariant (I := fun s => Ends body s q) (Q := fun r => r = q) h' ?_ ?_
  · intro s t hs hbody
    exact (ends_inl hbody).mp hs
  · intro s r hs hbody
    exact ((ends_inr hbody).mp hs).symm

/-- A loop whose turns keep `I` and lower a measure ends. -/
theorem ends_of_measure {I : σ → Prop} (μ : σ → Nat) (h₀ : I s)
    (hstep : ∀ s t, I s → body s = .inl t → I t ∧ μ t < μ s) : ∃ r, Ends body s r := by
  induction hμ : μ s using Nat.strongRecOn generalizing s with
  | _ m ih =>
    cases hbody : body s with
    | inl t =>
      obtain ⟨ht, hlt⟩ := hstep s t h₀ hbody
      obtain ⟨r, hr⟩ := ih (μ t) (hμ ▸ hlt) ht rfl
      exact ⟨r, (ends_inl hbody).mpr hr⟩
    | inr r => exact ⟨r, (ends_inr hbody).mpr rfl⟩

/-- A loop that goes on from every state of `I` to one of `I` does not end. -/
theorem not_ends {I : σ → Prop} (h₀ : I s) (hstep : ∀ s, I s → ∃ t, body s = .inl t ∧ I t) :
    ¬ Ends body s r := by
  intro hends
  refine hends.invariant (Q := fun _ => False) h₀ ?_ ?_
  · intro s t hs hbody
    obtain ⟨u, hu, hI⟩ := hstep s hs
    rw [hu] at hbody
    exact Sum.inl.inj hbody ▸ hI
  · intro s r hs hbody
    obtain ⟨u, hu, -⟩ := hstep s hs
    rw [hu] at hbody
    cases hbody

/-- A walk on the way to its first `P` meets nothing twice. -/
theorem apart_of_first {α : Type} {u : Nat → α} {f : α → α} {P : α → Prop} {i j k : Nat}
    (hu : ∀ i, u (i + 1) = f (u i)) (hfirst : ∀ i < k, ¬ P (u i)) (hk : P (u k)) (hij : i < j)
    (hjk : j ≤ k) : u i ≠ u j := by
  intro hsame
  have hshift : ∀ d, u (i + d) = u (j + d) := by
    intro d
    induction d with
    | zero => exact hsame
    | succ d ih => rw [← Nat.add_assoc, ← Nat.add_assoc, hu, hu, ih]
  have hearly := hshift (k - j)
  rw [show j + (k - j) = k by omega] at hearly
  exact hfirst (i + (k - j)) (by omega) (hearly ▸ hk)

end Library
