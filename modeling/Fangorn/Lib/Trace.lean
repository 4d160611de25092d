import Mathlib.Logic.Relation

/-! Runs of a system whose steps are labelled with events. -/

inductive Trace {ε σ : Type*} (step : ε → σ → σ → Prop) : σ → List ε → σ → Prop
  | nil (s : σ) : Trace step s [] s
  | cons {e : ε} {es : List ε} {s s' s'' : σ} :
      step e s s' → Trace step s' es s'' → Trace step s (e :: es) s''

namespace Trace

variable {ε σ : Type*} {step : ε → σ → σ → Prop} {e : ε} {es es' : List ε} {s s' s'' : σ}

theorem eq_of_nil (h : Trace step s [] s') : s' = s := by
  cases h
  rfl

theorem cons_iff : Trace step s (e :: es) s'' ↔ ∃ s', step e s s' ∧ Trace step s' es s'' := by
  constructor
  · intro h
    cases h with
    | cons hstep hrest => exact ⟨_, hstep, hrest⟩
  · intro h
    obtain ⟨s', hstep, hrest⟩ := h
    exact .cons hstep hrest

theorem append_iff :
    Trace step s (es ++ es') s'' ↔ ∃ s', Trace step s es s' ∧ Trace step s' es' s'' := by
  induction es generalizing s with
  | nil =>
    constructor
    · intro h
      exact ⟨s, .nil s, h⟩
    · intro h
      obtain ⟨s', hnil, hrest⟩ := h
      rwa [eq_of_nil hnil] at hrest
  | cons e es ih =>
    simp only [List.cons_append, cons_iff, ih]
    constructor
    · intro h
      obtain ⟨s₁, hstep, s', hfirst, hrest⟩ := h
      exact ⟨s', ⟨s₁, hstep, hfirst⟩, hrest⟩
    · intro h
      obtain ⟨s', ⟨s₁, hstep, hfirst⟩, hrest⟩ := h
      exact ⟨s₁, hstep, s', hfirst, hrest⟩

theorem concat_iff :
    Trace step s (es ++ [e]) s'' ↔ ∃ s', Trace step s es s' ∧ step e s' s'' := by
  rw [append_iff]
  simp only [cons_iff]
  constructor
  · intro h
    obtain ⟨s', hfirst, s₁, hstep, hnil⟩ := h
    exact ⟨s', hfirst, eq_of_nil hnil ▸ hstep⟩
  · intro h
    obtain ⟨s', hfirst, hstep⟩ := h
    exact ⟨s', hfirst, s'', hstep, .nil s''⟩

/-- What the events of a run keep. -/
theorem invariant {p : σ → Prop} (h : Trace step s es s') (hs : p s)
    (hstep : ∀ e ∈ es, ∀ s s', step e s s' → p s → p s') : p s' := by
  induction h with
  | nil s => exact hs
  | @cons e es s s₁ s' hfirst _ ih =>
    rw [List.forall_mem_cons] at hstep
    exact ih (hstep.1 s s₁ hfirst hs) hstep.2

end Trace
