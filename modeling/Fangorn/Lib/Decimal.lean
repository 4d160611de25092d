import Fangorn.Lib.Text

/-! Decimal numerals without leading zeros, as they grow digit by digit. -/

namespace Rust

variable {c : Char} {s t : Str}

def IsNumeral (s : Str) : Prop := (∀ c ∈ s, c.isDigit = true) ∧ s.head? ≠ some '0'

theorem digitValue_of_isDigit (h : c.isDigit = true) : digitValue c = some (c.toNat - 48) := by
  have hc : '0' ≤ c ∧ c ≤ '9' := by
    simp only [Char.isDigit, Bool.and_eq_true, decide_eq_true_eq] at h
    exact h
  rw [digitValue, if_pos hc]

theorem isWhitespace_of_isDigit (h : c.isDigit = true) : isWhitespace c = false := by
  have hc : 48 ≤ c.toNat ∧ c.toNat ≤ 57 := by
    simp only [Char.isDigit, Bool.and_eq_true, decide_eq_true_eq] at h
    exact h
  obtain ⟨hlow, hhigh⟩ := hc
  simp only [isWhitespace, Bool.or_eq_false_iff, Bool.and_eq_false_iff, decide_eq_false_iff_not,
    beq_eq_false_iff_ne]
  omega

namespace IsNumeral

theorem nil : IsNumeral [] := ⟨by simp, by simp⟩

theorem concat (h : IsNumeral s) (hc : c.isDigit = true) (hzero : c = '0' → s ≠ []) :
    IsNumeral (s ++ [c]) := by
  refine ⟨List.forall_mem_append.mpr ⟨h.1, by simpa using hc⟩, ?_⟩
  cases s with
  | nil =>
    intro he
    exact hzero (Option.some.inj he) rfl
  | cons d s => exact h.2

theorem of_prefix (h : IsNumeral s) (ht : t <+: s) : IsNumeral t := by
  obtain ⟨r, rfl⟩ := ht
  refine ⟨fun c hc => h.1 c (List.mem_append_left _ hc), ?_⟩
  cases t with
  | nil => simp
  | cons d t => exact h.2

end IsNumeral

theorem parseDigits_of_isDigit (h : ∀ c ∈ s, c.isDigit = true) (acc : Nat) :
    ∃ n, parseDigits acc s = some n ∧ acc ≤ n := by
  induction s generalizing acc with
  | nil => exact ⟨acc, rfl, le_rfl⟩
  | cons c s ih =>
    rw [List.forall_mem_cons] at h
    obtain ⟨n, hn, hle⟩ := ih h.2 (10 * acc + (c.toNat - 48))
    refine ⟨n, ?_, by omega⟩
    rw [parseDigits, digitValue_of_isDigit h.1]
    exact hn

/-- A numeral is a positive number, read back where the type has room for it. -/
theorem IsNumeral.positive (h : IsNumeral s) (hne : s ≠ []) :
    ∃ n, 0 < n ∧ ∀ bound, parseUnsigned bound s = if n < bound then some n else none := by
  cases s with
  | nil => exact absurd rfl hne
  | cons c s =>
    obtain ⟨hdigits, hhead⟩ := h
    rw [List.forall_mem_cons] at hdigits
    have hlow : '0' ≤ c := by
      have hc := hdigits.1
      simp only [Char.isDigit, Bool.and_eq_true, decide_eq_true_eq] at hc
      exact hc.1
    have hpos : 48 < c.toNat := by
      have hge : 48 ≤ c.toNat := hlow
      have hne' : c.toNat ≠ 48 := by
        intro he
        refine hhead ?_
        rw [List.head?_cons, ← Char.ofNat_toNat c, he]
      omega
    obtain ⟨n, hn, hle⟩ := parseDigits_of_isDigit hdigits.2 (10 * 0 + (c.toNat - 48))
    have hplus : c ≠ '+' := by
      rintro rfl
      exact absurd hdigits.1 (by decide)
    refine ⟨n, by omega, fun bound => ?_⟩
    have hparse : parseDigits 0 (c :: s) = some n := by
      rw [parseDigits, digitValue_of_isDigit hdigits.1]
      exact hn
    simp only [parseUnsigned, List.head?_cons, Option.some.injEq, hplus, if_false, reduceCtorEq,
      hparse, Option.filter_some, decide_eq_true_eq]

end Rust
