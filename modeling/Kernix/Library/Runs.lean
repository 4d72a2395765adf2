import Mathlib.Data.List.Basic

namespace Library

variable {σ α ε : Type} {step step' : σ → ε → σ → Prop} {s t : σ} {es : List ε}

/-- The runs of a labelled transition relation: from `s`, by the labels `es` in order. -/
inductive Run (step : σ → ε → σ → Prop) (s : σ) : List ε → σ → Prop
  | nil : Run step s [] s
  | snoc {es : List ε} {e : ε} {t u : σ} :
      Run step s es t → step t e u → Run step s (es ++ [e]) u

/-- The steps of `step` that `ok` lets through. -/
def Guarded (ok : σ → ε → Prop) (step : σ → ε → σ → Prop) : σ → ε → σ → Prop :=
  fun s e t => ok s e ∧ step s e t

theorem Run.single {e : ε} (h : step s e t) : Run step s [e] t := .snoc .nil h

theorem Run.append {u : σ} {fs : List ε} (h : Run step s es t) (h' : Run step t fs u) :
    Run step s (es ++ fs) u := by
  induction h' with
  | nil => exact (List.append_nil es).symm ▸ h
  | snoc _ hs ih =>
    rw [← List.append_assoc]
    exact ih.snoc hs

/-- What holds at the start and survives every step holds after every run. -/
theorem Run.invariant {I : σ → Prop} (h : Run step s es t) (h₀ : I s)
    (hstep : ∀ t e u, I t → step t e u → I u) : I t := by
  induction h with
  | nil => exact h₀
  | snoc _ hs ih => exact hstep _ _ _ ih hs

theorem Run.mono (h : Run step s es t) (hstep : ∀ t e u, step t e u → step' t e u) :
    Run step' s es t := by
  induction h with
  | nil => exact .nil
  | snoc _ hs ih => exact ih.snoc (hstep _ _ _ hs)

/-- A run is followed label by label where each of its steps is. -/
theorem Run.simulate {astep : α → ε → α → Prop} {R : σ → α → Prop} {a : α}
    (h : Run step s es t) (h₀ : R s a)
    (hstep : ∀ t e u b, R t b → step t e u → ∃ c, astep b e c ∧ R u c) :
    ∃ b, Run astep a es b ∧ R t b := by
  induction h with
  | nil => exact ⟨a, .nil, h₀⟩
  | snoc _ hs ih =>
    obtain ⟨b, hb, hR⟩ := ih
    obtain ⟨c, hc, hR'⟩ := hstep _ _ _ b hR hs
    exact ⟨c, hb.snoc hc, hR'⟩

end Library
