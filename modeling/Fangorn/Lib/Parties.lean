import Mathlib.Data.List.Induction
import Mathlib.Logic.Function.Basic
import Mathlib.Order.Defs.PartialOrder

/-! Parties that act one at a time, each on a state of its own and with what it
sees of the others. What they have made known only grows. -/

namespace Parties

section Definitions

variable {ι σ ε : Type} [DecidableEq ι] (who : ε → ι) (act : ε → (ι → σ) → σ)

def step (net : ι → σ) (e : ε) : ι → σ := Function.update net (who e) (act e net)

def run (net : ι → σ) (events : List ε) : ι → σ := events.foldl (step who act) net

end Definitions

section Keeping

variable {ι σ ε W : Type} [DecidableEq ι] [Preorder W] {who : ε → ι} {act : ε → (ι → σ) → σ}
  {net : ι → σ} {e : ε} {events : List ε} {world : (ι → σ) → W} {P : W → ι → σ → Prop}

theorem step_self : step who act net e (who e) = act e net := Function.update_self ..

theorem step_of_ne {i : ι} (hi : i ≠ who e) : step who act net e i = net i :=
  Function.update_of_ne hi ..

theorem run_concat : run who act net (events ++ [e]) = step who act (run who act net events) e := by
  rw [run, List.foldl_append]
  rfl

/-- What each party relies on stays when the others act, if it only asks for
things to be known; so the one that acts is the one to look at. -/
theorem run_keeps (hmono : ∀ w w' i s, w ≤ w' → P w i s → P w' i s)
    (hgrows : ∀ net e, (∀ i, P (world net) i (net i)) → world net ≤ world (step who act net e))
    (hacts : ∀ net e, (∀ i, P (world net) i (net i)) →
      P (world (step who act net e)) (who e) (act e net))
    (hstart : ∀ i, P (world net) i (net i)) (events : List ε) :
    ∀ i, P (world (run who act net events)) i (run who act net events i) := by
  induction events using List.reverseRecOn with
  | nil => exact hstart
  | append_singleton events e ih =>
    intro i
    rw [run_concat]
    by_cases hi : i = who e
    · subst hi
      rw [step_self]
      exact hacts _ e ih
    · rw [step_of_ne hi]
      exact hmono _ _ i _ (hgrows _ e ih) (ih i)

end Keeping

end Parties
