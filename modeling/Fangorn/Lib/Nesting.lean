import Mathlib.Data.List.Infix
import Mathlib.Data.List.Count
import Mathlib.Tactic.Linarith
import Mathlib.Tactic.Ring

/-! Nested brackets over any alphabet: the running balance of an opening and a
closing letter, balanced words, and the split at the first closing letter that
matches what is open already. -/

namespace Nesting

variable {α : Type} [DecidableEq α] {o c : α}

def net (o c : α) (l : List α) : ℤ := l.count o - l.count c

@[simp] theorem net_nil : net o c [] = 0 := by simp [net]

@[simp] theorem net_append (l l' : List α) : net o c (l ++ l') = net o c l + net o c l' := by
  simp only [net, List.count_append]
  push_cast
  ring

theorem net_open (h : o ≠ c) (l : List α) : net o c (o :: l) = net o c l + 1 := by
  simp only [net, List.count_cons_self, List.count_cons_of_ne h]
  push_cast
  ring

theorem net_close (h : o ≠ c) (l : List α) : net o c (c :: l) = net o c l - 1 := by
  simp only [net, List.count_cons_self, List.count_cons_of_ne h.symm]
  push_cast
  ring

theorem net_other {x : α} (ho : x ≠ o) (hc : x ≠ c) (l : List α) :
    net o c (x :: l) = net o c l := by
  simp only [net, List.count_cons_of_ne ho, List.count_cons_of_ne hc]

theorem net_le_length (l : List α) : net o c l ≤ l.length := by
  have : l.count o ≤ l.length := List.count_le_length
  unfold net
  omega

/-- No prefix closes more than it opened, and at the end all is closed. -/
structure Balanced (o c : α) (l : List α) : Prop where
  prefix_nonneg : ∀ p, p <+: l → 0 ≤ net o c p
  settled : net o c l = 0

/-- Something stays open along the whole word, with `d` open before it. -/
def StaysOpen (o c : α) (d : ℤ) (l : List α) : Prop := ∀ p, p <+: l → 0 < d + net o c p

theorem staysOpen_nil {d : ℤ} : StaysOpen o c d [] ↔ 0 < d := by
  simp [StaysOpen]

theorem StaysOpen.pos {d : ℤ} {l : List α} (h : StaysOpen o c d l) : 0 < d := by
  simpa using h [] (List.nil_prefix)

theorem staysOpen_cons {d : ℤ} {x : α} {l : List α} :
    StaysOpen o c d (x :: l) ↔ 0 < d ∧ StaysOpen o c (d + net o c [x]) l := by
  constructor
  · intro h
    refine ⟨h.pos, fun p hp => ?_⟩
    have := h (x :: p) (List.cons_prefix_cons.mpr ⟨rfl, hp⟩)
    rw [← List.singleton_append, net_append] at this
    linarith
  · rintro ⟨hd, h⟩ p hp
    rcases List.prefix_cons_iff.mp hp with rfl | ⟨q, rfl, hq⟩
    · simpa using hd
    · have := h q hq
      rw [← List.singleton_append, net_append]
      linarith

theorem balanced_iff_staysOpen {l : List α} :
    Balanced o c l ↔ StaysOpen o c 1 l ∧ net o c l = 0 := by
  constructor
  · intro h
    exact ⟨fun p hp => by have := h.prefix_nonneg p hp; omega, h.settled⟩
  · intro hh
    obtain ⟨h, hs⟩ := hh
    exact ⟨fun p hp => by have := h p hp; omega, hs⟩

/-- The word before the closing letter that closes the last open bracket, and
the word after it. -/
def firstClose (o c : α) : ℕ → List α → Option (List α × List α)
  | _, [] => none
  | d, x :: l =>
    if x = o then (firstClose o c (d + 1) l).map fun r => (x :: r.1, r.2)
    else if x = c then
      if d = 1 then some ([], l)
      else (firstClose o c (d - 1) l).map fun r => (x :: r.1, r.2)
    else (firstClose o c d l).map fun r => (x :: r.1, r.2)

theorem firstClose_eq_some (h : o ≠ c) {d : ℕ} (hd : 0 < d) {l p r : List α} :
    firstClose o c d l = some (p, r) ↔
      l = p ++ c :: r ∧ StaysOpen o c d p ∧ d + net o c p = 1 := by
  induction l generalizing d p r with
  | nil => simp [firstClose]
  | cons x l ih =>
    -- one letter moves to the front of the first component
    have step {d' : ℕ} (hd' : 0 < d') (hx : (d : ℤ) + net o c [x] = d') (hne : x ≠ c ∨ d ≠ 1) :
        (firstClose o c d' l).map (fun r => (x :: r.1, r.2)) = some (p, r) ↔
          x :: l = p ++ c :: r ∧ StaysOpen o c d p ∧ d + net o c p = 1 := by
      simp only [Option.map_eq_some_iff, Prod.exists, Prod.mk.injEq, ih hd']
      constructor
      · intro hh
        obtain ⟨q, s, ⟨rfl, hq, hn⟩, rfl, rfl⟩ := hh
        refine ⟨rfl, staysOpen_cons.mpr ⟨by omega, hx ▸ hq⟩, ?_⟩
        rw [← List.singleton_append, net_append]
        linarith
      · intro hh
        obtain ⟨he, hp, hn⟩ := hh
        cases p with
        | nil =>
          obtain ⟨rfl, rfl⟩ := List.cons.inj he
          simp only [net_nil, add_zero] at hn
          rcases hne with hc | hd1
          · exact absurd rfl hc
          · omega
        | cons y q =>
          obtain ⟨rfl, rfl⟩ := List.cons.inj he
          have hq := (staysOpen_cons.mp hp).2
          rw [hx] at hq
          rw [← List.singleton_append, net_append] at hn
          exact ⟨q, r, ⟨rfl, hq, by linarith⟩, rfl, rfl⟩
    rw [firstClose]
    split_ifs with hxo hxc hd1
    · subst hxo
      exact step (by omega) (by rw [net_open h]; simp) (Or.inl h)
    · subst hxc hd1
      simp only [Option.some.injEq, Prod.mk.injEq]
      constructor
      · intro hh
        obtain ⟨rfl, rfl⟩ := hh
        exact ⟨rfl, staysOpen_nil.mpr (by simp), by simp⟩
      · intro hh
        obtain ⟨he, hp, hn⟩ := hh
        cases p with
        | nil => exact ⟨rfl, (List.cons.inj he).2⟩
        | cons y q =>
          obtain ⟨rfl, rfl⟩ := List.cons.inj he
          have hq := (staysOpen_cons.mp hp).2.pos
          rw [net_close h] at hq
          simp at hq
    · subst hxc
      refine step (by omega) ?_ (Or.inr hd1)
      rw [net_close h]
      simp only [net_nil]
      omega
    · exact step hd (by rw [net_other hxo hxc]; simp) (Or.inl hxc)

theorem firstClose_one (h : o ≠ c) {l p r : List α} :
    firstClose o c 1 l = some (p, r) ↔ l = p ++ c :: r ∧ Balanced o c p := by
  rw [firstClose_eq_some h one_pos, balanced_iff_staysOpen]
  push_cast
  constructor
  · intro hh
    obtain ⟨hl, hp, hn⟩ := hh
    exact ⟨hl, hp, by linarith⟩
  · intro hh
    obtain ⟨hl, hp, hn⟩ := hh
    exact ⟨hl, hp, by linarith⟩

/-- A balanced word and one closing letter: the depth counted from one comes
to zero with the last letter and not before. -/
theorem exists_balanced_concat (h : o ≠ c) {l : List α} :
    (∃ p, l = p ++ [c] ∧ Balanced o c p) ↔
      1 + net o c l = 0 ∧ ∀ q, q <+: l → q ≠ l → 0 < 1 + net o c q := by
  constructor
  · intro hh
    obtain ⟨p, rfl, hp⟩ := hh
    refine ⟨by simp [hp.settled, net_close h], fun q hq hne => ?_⟩
    rcases List.prefix_concat_iff.mp hq with he | hq
    · exact absurd he hne
    · have := hp.prefix_nonneg q hq
      omega
  · intro hh
    obtain ⟨hz, hpos⟩ := hh
    rcases List.eq_nil_or_concat' l with rfl | ⟨p, x, rfl⟩
    · simp at hz
    · have hp := hpos p (List.prefix_append p [x]) (by simp)
      rw [net_append] at hz
      have hx : x = c := by
        by_contra hxc
        have : net o c [x] = ((List.count o [x] : ℕ) : ℤ) := by simp [net, hxc]
        omega
      subst hx
      refine ⟨p, rfl, fun q hq => ?_, ?_⟩
      · have := hpos q (hq.trans (List.prefix_append p [x])) fun he => by
          have := he ▸ hq.length_le
          simp at this
        omega
      · rw [net_close h, net_nil] at hz
        omega

end Nesting
