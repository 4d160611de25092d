import Mathlib.Logic.Basic
import Mathlib.Tactic.Common

/-! Results of fallible calls that may also panic. A panic is kept apart from
an error value: a caller can handle the second, the first ends its task. -/

namespace Rust

inductive Outcome (ε α : Type) where
  | ok (a : α)
  | err (e : ε)
  | panic
  deriving DecidableEq, Repr

namespace Outcome

variable {ε ε' α β : Type}

def bind (x : Outcome ε α) (f : α → Outcome ε β) : Outcome ε β :=
  match x with
  | .ok a => f a
  | .err e => .err e
  | .panic => .panic

instance : Monad (Outcome ε) where
  pure := .ok
  bind := bind

/-- `unwrap` and `expect` on a result. -/
def unwrap : Outcome ε α → Outcome ε' α
  | .ok a => .ok a
  | .err _ => .panic
  | .panic => .panic

def mapErr (f : ε → ε') : Outcome ε α → Outcome ε' α
  | .ok a => .ok a
  | .err e => .err (f e)
  | .panic => .panic

def okOr (e : ε) : Option α → Outcome ε α
  | some a => .ok a
  | none => .err e

/-- `unwrap` and `expect` on an option. -/
def expect : Option α → Outcome ε α
  | some a => .ok a
  | none => .panic

def assert (p : Prop) [Decidable p] : Outcome ε Unit :=
  if p then .ok () else .panic

@[simp] theorem pure_eq (a : α) : (pure a : Outcome ε α) = .ok a := rfl

@[simp] theorem ok_bind (a : α) (f : α → Outcome ε β) : (Outcome.ok a >>= f) = f a := rfl

@[simp] theorem err_bind (e : ε) (f : α → Outcome ε β) : (Outcome.err e >>= f) = .err e := rfl

@[simp] theorem panic_bind (f : α → Outcome ε β) :
    ((Outcome.panic : Outcome ε α) >>= f) = .panic := rfl

theorem bind_eq_ok {x : Outcome ε α} {f : α → Outcome ε β} {b : β} :
    (x >>= f) = .ok b ↔ ∃ a, x = .ok a ∧ f a = .ok b := by
  cases x <;> simp

theorem bind_ne_panic {x : Outcome ε α} {f : α → Outcome ε β} :
    (x >>= f) ≠ .panic ↔ x ≠ .panic ∧ ∀ a, x = .ok a → f a ≠ .panic := by
  cases x <;> simp

@[simp] theorem unwrap_eq_ok {x : Outcome ε α} {a : α} :
    (x.unwrap : Outcome ε' α) = .ok a ↔ x = .ok a := by
  cases x <;> simp [unwrap]

theorem unwrap_bind_ne_panic {x : Outcome ε α} {f : α → Outcome ε' β} :
    (x.unwrap >>= f) ≠ .panic ↔ ∃ a, x = .ok a ∧ f a ≠ .panic := by
  cases x <;> simp [unwrap]

@[simp] theorem mapErr_eq_ok {x : Outcome ε α} {f : ε → ε'} {a : α} :
    x.mapErr f = .ok a ↔ x = .ok a := by
  cases x <;> simp [mapErr]

@[simp] theorem mapErr_eq_panic {x : Outcome ε α} {f : ε → ε'} :
    x.mapErr f = .panic ↔ x = .panic := by
  cases x <;> simp [mapErr]

@[simp] theorem okOr_eq_ok {x : Option α} {e : ε} {a : α} : okOr e x = .ok a ↔ x = some a := by
  cases x <;> simp [okOr]

@[simp] theorem okOr_ne_panic {x : Option α} {e : ε} : okOr e x ≠ .panic := by
  cases x <;> simp [okOr]

@[simp] theorem expect_eq_ok {x : Option α} {a : α} :
    (expect x : Outcome ε α) = .ok a ↔ x = some a := by
  cases x <;> simp [expect]

theorem expect_bind_ne_panic {x : Option α} {f : α → Outcome ε β} :
    (expect x >>= f) ≠ .panic ↔ ∃ a, x = some a ∧ f a ≠ .panic := by
  cases x <;> simp [expect]

@[simp] theorem assert_eq_ok {p : Prop} [Decidable p] {u : Unit} :
    (assert p : Outcome ε Unit) = .ok u ↔ p := by
  by_cases h : p <;> simp [assert, h]

theorem assert_bind_ne_panic {p : Prop} [Decidable p] {f : Unit → Outcome ε β} :
    (assert p >>= f) ≠ .panic ↔ p ∧ f () ≠ .panic := by
  by_cases h : p <;> simp [assert, h]

end Outcome

end Rust
