import Fangorn.Lib.Outcome

/-! Calls on a state. Also a call that fails or panics leaves behind what it
did to the state by then. -/

namespace Rust

def Action (σ ε α : Type) : Type := σ → Outcome ε α × σ

namespace Action

variable {σ ε α β : Type}

def bind (x : Action σ ε α) (f : α → Action σ ε β) : Action σ ε β := fun s =>
  match x s with
  | (.ok a, s') => f a s'
  | (.err e, s') => (.err e, s')
  | (.panic, s') => (.panic, s')

instance : Monad (Action σ ε) where
  pure a := fun s => (.ok a, s)
  bind := bind

/-- A call that does not look at the state. -/
def lift (x : Outcome ε α) : Action σ ε α := fun s => (x, s)

variable {x : Action σ ε α} {f : α → Action σ ε β} {s s' : σ}

theorem bind_of_ok {a : α} (h : x s = (.ok a, s')) : (x >>= f) s = f a s' := by
  change bind x f s = f a s'
  rw [bind, h]

theorem bind_of_err {e : ε} (h : x s = (.err e, s')) : (x >>= f) s = (.err e, s') := by
  change bind x f s = _
  rw [bind, h]

theorem bind_of_panic (h : x s = (.panic, s')) : (x >>= f) s = (.panic, s') := by
  change bind x f s = _
  rw [bind, h]

/-- The state behind two calls, when the second leaves it alone. -/
theorem bind_snd (h : ∀ a t, (f a t).2 = t) : ((x >>= f) s).2 = (x s).2 := by
  change (bind x f s).2 = _
  unfold bind
  rcases x s with ⟨o, t⟩
  cases o with
  | ok a => exact h a t
  | err e => rfl
  | panic => rfl

/-- The result of two calls, when the second does not look at the state. -/
theorem bind_fst {g : α → Outcome ε β} : ((x >>= fun a => lift (g a)) s).1 = (x s).1 >>= g := by
  change (bind x _ s).1 = _
  unfold bind
  rcases x s with ⟨o, t⟩
  cases o <;> rfl

end Action

end Rust
