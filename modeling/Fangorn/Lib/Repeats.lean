import Mathlib.Data.List.Dedup
import Mathlib.Data.List.Duplicate

/-! Lists put together from optional pieces, one for each element: when it makes
no difference that an element occurs more than once. -/

namespace Repeats

variable {α β : Type*} {f : α → Option (List β)} {l c : List α}

/-- All elements that occur more than once have an empty piece or none. -/
def Harmless (f : α → Option (List β)) (l : List α) : Prop :=
  ∀ a, l.Duplicate a → ∀ b, f a = some b → b = []

theorem harmless_of_nodup (h : l.Nodup) : Harmless f l := by
  intro a ha
  exact absurd ha (List.nodup_iff_forall_not_duplicate.mp h a)

theorem Harmless.tail {a : α} (h : Harmless f (a :: l)) : Harmless f l := by
  intro x hx
  exact h x (hx.duplicate_cons a)

variable [DecidableEq α]

theorem flatten_dedup (h : Harmless f l) :
    (l.dedup.filterMap f).flatten = (l.filterMap f).flatten := by
  induction l with
  | nil => rfl
  | cons a l ih =>
    have htail := ih h.tail
    by_cases ha : a ∈ l
    · rw [List.dedup_cons_of_mem ha, htail, List.filterMap_cons]
      cases hf : f a with
      | none => rfl
      | some b =>
        obtain rfl := h a ha.duplicate_cons_self b hf
        rfl
    · rw [List.dedup_cons_of_notMem ha, List.filterMap_cons, List.filterMap_cons]
      cases f a with
      | none => exact htail
      | some b => rw [List.flatten_cons, List.flatten_cons, htail]

/-- What a sublist without repetitions leaves out was empty. -/
theorem harmless_of_flatten_eq (hsub : c.Sublist l) (hnodup : c.Nodup)
    (he : (l.filterMap f).flatten = (c.filterMap f).flatten) : Harmless f l := by
  obtain ⟨rest, hperm⟩ := hsub.exists_perm_append
  have hlen := ((hperm.filterMap f).flatten).length_eq
  rw [he, List.filterMap_append, List.flatten_append, List.length_append] at hlen
  intro a ha b hb
  have hrest : a ∈ rest := by
    have htwice := List.duplicate_iff_two_le_count.mp ha
    have hcount := hperm.count_eq a
    have hone := List.nodup_iff_count_le_one.mp hnodup a
    rw [List.count_append] at hcount
    exact List.count_pos_iff.mp (by omega)
  have hempty : (rest.filterMap f).flatten = [] := List.eq_nil_of_length_eq_zero (by omega)
  exact List.flatten_eq_nil_iff.mp hempty b (List.mem_filterMap.mpr ⟨a, hrest, hb⟩)

end Repeats
