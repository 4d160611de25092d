import Fangorn.Lib.Outcome
import Fangorn.Lib.Text
import Fangorn.Lib.Nesting
import Mathlib.Data.List.Forall2

/-! The intent string parser (`parse_intent_string` in `gadget/mod.rs`):
`Type1(data1) && Type2(data2) && ...`. -/

namespace Fangorn

open Rust Nesting

/-- What `nom` reports: the parser that failed and the input it failed on. -/
inductive NomErrorKind where
  | takeUntil
  | tag
  deriving DecidableEq, Repr

structure NomError where
  input : Str
  code : NomErrorKind
  deriving DecidableEq, Repr

namespace IntentParser

def delimiter : Str := ['&', '&']

/-- `take_until("(")`: the text before the first parenthesis, and the rest. -/
def takeUntilParen (input : Str) : Outcome NomError (Str × Str) :=
  if '(' ∈ input then .ok (input.span (· ≠ '(')).swap else .err ⟨input, .takeUntil⟩

/-- `tag("(")` -/
def tagParen : Str → Outcome NomError Str
  | '(' :: input => .ok input
  | input => .err ⟨input, .tag⟩

/-- The loop over the characters behind the opening parenthesis, from `depth`
on; the result is `end_pos`. An overflow of the `i32` is a panic. -/
def scan (depth : Nat) : List (Nat × Char) → Outcome NomError Nat
  | [] => .ok 0
  | (i, c) :: rest =>
    if c = '(' then
      if depth + 1 < 2 ^ 31 then scan (depth + 1) rest else .panic
    else if c = ')' then
      if depth = 1 then .ok i else scan (depth - 1) rest
    else scan depth rest

def parsePart (input : Str) : Outcome NomError (Str × Str) := do
  let (input, intentType) ← takeUntilParen (trim input)
  let input ← tagParen input
  let endPos ← scan 1 (charIndices input)
  let password ← .expect (sliceTo endPos input)
  .ok (intentType, password)

def parseParts : List Str → Outcome NomError (List (Str × Str))
  | [] => .ok []
  | input :: parts => do
    let pair ← parsePart input
    let output ← parseParts parts
    .ok (pair :: output)

def parseIntentString (rawInput : Str) : Outcome NomError (List (Str × Str)) :=
  parseParts (split delimiter rawInput)

theorem span_append_cons {c : Char} {t : Str} (h : c ∉ t) (r : Str) :
    (t ++ c :: r).span (· ≠ c) = (t, c :: r) := by
  have ht : ∀ x ∈ t, decide (x ≠ c) = true := by
    intro x hx
    exact decide_eq_true (ne_of_mem_of_not_mem hx h)
  rw [List.span_eq_takeWhile_dropWhile, List.takeWhile_append_of_pos ht,
    List.dropWhile_append_of_pos ht]
  simp

theorem takeUntilParen_eq_ok {s t r : Str} :
    takeUntilParen s = .ok (r, t) ↔ ∃ r', r = '(' :: r' ∧ s = t ++ '(' :: r' ∧ '(' ∉ t := by
  unfold takeUntilParen
  constructor
  · intro h
    split_ifs at h with hs
    obtain ⟨u, v, rfl, hu⟩ := List.eq_append_cons_of_mem hs
    rw [span_append_cons hu, Prod.swap_prod_mk, Outcome.ok.injEq, Prod.mk.injEq] at h
    obtain ⟨rfl, rfl⟩ := h
    exact ⟨v, rfl, rfl, hu⟩
  · intro hh
    obtain ⟨r', rfl, rfl, ht⟩ := hh
    rw [if_pos (by simp), span_append_cons ht, Prod.swap_prod_mk]

theorem append_paren_inj {t t' r r' : Str} (ht : '(' ∉ t) (ht' : '(' ∉ t')
    (h : t ++ '(' :: r = t' ++ '(' :: r') : t = t' ∧ r = r' := by
  have hs := congrArg (fun s : Str => s.span (· ≠ '(')) h
  simpa only [span_append_cons ht, span_append_cons ht', Prod.mk.injEq, List.cons.injEq,
    true_and] using hs

def byteLen (s : Str) : Nat := (s.map Char.utf8Size).sum

theorem sliceTo_byteLen (p r : Str) : sliceTo (byteLen p) (p ++ r) = some p := by
  induction p with
  | nil => simp [byteLen, sliceTo]
  | cons c p ih =>
    obtain ⟨n, hn⟩ := Nat.exists_eq_succ_of_ne_zero (Nat.ne_of_gt c.utf8Size_pos)
    have hb : byteLen (c :: p) = (n + byteLen p) + 1 := by
      simp only [byteLen, List.map_cons, List.sum_cons, hn]
      omega
    rw [hb, List.cons_append, sliceTo, if_pos (by omega),
      show n + byteLen p + 1 - c.utf8Size = byteLen p by omega, ih]
    rfl

/-- The loop stops at the parenthesis that closes the first one, or runs to
the end and leaves `end_pos` at zero. -/
theorem scan_eq_ok {l : Str} {d i n : Nat} (h : scan d (charIndicesFrom i l) = .ok n) :
    (firstClose '(' ')' d l = none ∧ n = 0) ∨
      ∃ p r, firstClose '(' ')' d l = some (p, r) ∧ n = i + byteLen p := by
  induction l generalizing d i with
  | nil => exact Or.inl ⟨rfl, by simpa [charIndicesFrom, scan, eq_comm] using h⟩
  | cons c l ih =>
    -- a character that does not end the loop
    have step {d' : Nat} (hs : scan d' (charIndicesFrom (i + c.utf8Size) l) = .ok n)
        (hf : firstClose '(' ')' d (c :: l) =
          (firstClose '(' ')' d' l).map fun r => (c :: r.1, r.2)) :
        (firstClose '(' ')' d (c :: l) = none ∧ n = 0) ∨
          ∃ p r, firstClose '(' ')' d (c :: l) = some (p, r) ∧ n = i + byteLen p := by
      rcases ih hs with ⟨hn, h0⟩ | ⟨p, r, hp, hlen⟩
      · exact Or.inl ⟨by rw [hf, hn]; rfl, h0⟩
      · refine Or.inr ⟨c :: p, r, by rw [hf, hp]; rfl, ?_⟩
        simp only [hlen, byteLen, List.map_cons, List.sum_cons]
        omega
    rw [charIndicesFrom, scan] at h
    split_ifs at h with ho hlt hc hd
    · exact step h (by rw [firstClose, if_pos ho])
    · refine Or.inr ⟨[], l, by rw [firstClose, if_neg ho, if_pos hc, if_pos hd], ?_⟩
      simpa [byteLen, eq_comm] using h
    · exact step h (by rw [firstClose, if_neg ho, if_pos hc, if_neg hd])
    · exact step h (by rw [firstClose, if_neg ho, if_neg hc])

def dataOf (r : Str) : Str :=
  match firstClose '(' ')' 1 r with
  | some (p, _) => p
  | none => []

theorem parsePart_eq_ok {part t d : Str} (h : parsePart part = .ok (t, d)) :
    ∃ r, trim part = t ++ '(' :: r ∧ '(' ∉ t ∧ d = dataOf r := by
  simp only [parsePart, Outcome.bind_eq_ok, Prod.exists, Outcome.expect_eq_ok,
    Outcome.ok.injEq, Prod.mk.injEq] at h
  obtain ⟨x, t, hx, r, hr, n, hn, d, hd, rfl, rfl⟩ := h
  obtain ⟨r', rfl, htrim, ht⟩ := takeUntilParen_eq_ok.mp hx
  obtain rfl : r' = r := by simpa [tagParen] using hr
  refine ⟨r', htrim, ht, ?_⟩
  rcases scan_eq_ok hn with ⟨hnone, rfl⟩ | ⟨p, q, hp, rfl⟩
  · rw [dataOf, hnone]
    simpa [sliceTo, eq_comm] using hd
  · obtain ⟨hr', -⟩ := (firstClose_one (by decide)).mp hp
    rw [dataOf, hp]
    rw [hr', Nat.zero_add, sliceTo_byteLen, Option.some.injEq] at hd
    exact hd.symm

theorem parseParts_eq_ok {parts : List Str} {pairs : List (Str × Str)}
    (h : parseParts parts = .ok pairs) :
    List.Forall₂ (fun part pair => parsePart part = .ok pair) parts pairs := by
  induction parts generalizing pairs with
  | nil =>
    obtain rfl : [] = pairs := by simpa [parseParts] using h
    exact .nil
  | cons part parts ih =>
    simp only [parseParts, Outcome.bind_eq_ok, Outcome.ok.injEq] at h
    obtain ⟨pair, hpair, output, hout, rfl⟩ := h
    exact .cons hpair (ih hout)

def renderPart (pair : Str × Str) : Str := pair.1 ++ '(' :: pair.2 ++ [')']

/-- Each part is `type(data)` for its pair, with the parentheses inside the
data balanced. -/
def Faithful (rawInput : Str) (pairs : List (Str × Str)) : Prop :=
  List.Forall₂ (fun part pair => trim part = renderPart pair ∧ Balanced '(' ')' pair.2)
    (split delimiter rawInput) pairs

/-- The first parenthesis of the text is closed by its last character and
not before. -/
def ClosesAtEnd (text : Str) : Prop :=
  ∃ t r, text = t ++ '(' :: r ∧ '(' ∉ t ∧ 1 + net '(' ')' r = 0 ∧
    ∀ q, q <+: r → q ≠ r → 0 < 1 + net '(' ')' q

theorem renderPart_inj {t t' d d' : Str} (ht : '(' ∉ t) (ht' : '(' ∉ t')
    (h : renderPart (t, d) = renderPart (t', d')) : t = t' ∧ d = d' := by
  simp only [renderPart, List.append_cancel_right_eq] at h
  exact append_paren_inj ht ht' h

theorem infix_of_append {c : Char} {t a l : Str} (h : c ∉ a) (hi : c :: t <:+: a ++ l) :
    c :: t <:+: l := by
  induction a with
  | nil => exact hi
  | cons x a ih =>
    rw [List.mem_cons, not_or] at h
    rcases List.infix_cons_iff.mp hi with hp | hi
    · exact absurd (List.cons_prefix_cons.mp hp).1 h.1
    · exact ih h.2 hi

theorem split_renderPart {ty d : Str} (hty : '&' ∉ ty) (hd : ¬ delimiter <:+: d) :
    split delimiter (renderPart (ty, d)) = [renderPart (ty, d)] := by
  refine split_of_not_infix (List.cons_ne_nil _ _) fun hi => hd ?_
  rcases List.infix_concat_iff.mp hi with hs | hi
  · rcases List.suffix_concat_iff.mp hs with h | ⟨t, ht, -⟩
    · exact absurd h (List.cons_ne_nil _ _)
    · have := congrArg List.getLast? ht
      rw [List.getLast?_concat] at this
      exact absurd this (by decide)
  · have hi' : delimiter <:+: (ty ++ ['(']) ++ d := by simpa using hi
    refine infix_of_append ?_ hi'
    simpa using hty

theorem trim_renderPart {ty d : Str} (hty : ∀ c ∈ ty.head?, isWhitespace c = false) :
    trim (renderPart (ty, d)) = renderPart (ty, d) := by
  refine trim_eq_self ?_ ?_
  · cases ty with
    | nil =>
      rintro _ ⟨⟩
      decide
    | cons c ty =>
      rintro _ ⟨⟩
      exact hty c rfl
  · rw [renderPart, List.getLast?_concat]
    rintro _ ⟨⟩
    decide

theorem closesAtEnd_renderPart {t d : Str} (ht : '(' ∉ t) (hd : Balanced '(' ')' d) :
    ClosesAtEnd (renderPart (t, d)) := by
  obtain ⟨hz, hpos⟩ := (exists_balanced_concat (by decide)).mp ⟨d, rfl, hd⟩
  exact ⟨t, d ++ [')'], by simp [renderPart], ht, hz, hpos⟩

theorem part_faithful_iff {part t d : Str} (h : parsePart part = .ok (t, d)) :
    (trim part = renderPart (t, d) ∧ Balanced '(' ')' d) ↔ ClosesAtEnd (trim part) := by
  obtain ⟨r, htrim, ht, hd⟩ := parsePart_eq_ok h
  constructor
  · intro hh
    obtain ⟨he, hb⟩ := hh
    rw [he]
    exact closesAtEnd_renderPart ht hb
  · intro hh
    obtain ⟨t', r', he, ht', hz, hpos⟩ := hh
    obtain ⟨p, rfl, hp⟩ := (exists_balanced_concat (by decide)).mpr ⟨hz, hpos⟩
    rw [htrim] at he
    obtain ⟨rfl, rfl⟩ := append_paren_inj ht ht' he
    have hclose : firstClose '(' ')' 1 (p ++ [')']) = some (p, []) :=
      (firstClose_one (by decide)).mpr ⟨rfl, hp⟩
    rw [dataOf, hclose] at hd
    exact ⟨by simpa [hd, renderPart] using htrim, hd ▸ hp⟩

/-- The parser returns a pair for every part. The pairs are all of the text
exactly when each part ends with the parenthesis that closes its first one. -/
theorem faithful_iff_closesAtEnd {rawInput : Str} {pairs : List (Str × Str)}
    (h : parseIntentString rawInput = .ok pairs) :
    Faithful rawInput pairs ↔ ∀ part ∈ split delimiter rawInput, ClosesAtEnd (trim part) := by
  unfold Faithful
  have hparts := parseParts_eq_ok h
  clear h
  generalize split delimiter rawInput = parts at hparts ⊢
  induction hparts with
  | nil => simp
  | cons hpart _ ih =>
    rw [List.forall₂_cons, List.forall_mem_cons]
    exact and_congr (part_faithful_iff hpart) ih

theorem parse_renders {rawInput : Str} {pairs : List (Str × Str)}
    (h : parseIntentString rawInput = .ok pairs) (hf : Faithful rawInput pairs) :
    List.Forall₂ (fun part pair => '(' ∉ pair.1 ∧ trim part = renderPart pair)
      (split delimiter rawInput) pairs := by
  refine List.Forall₂.mp (fun part pair hpart hp => ?_) (parseParts_eq_ok h) hf
  obtain ⟨r, -, ht, -⟩ := parsePart_eq_ok (t := pair.1) (d := pair.2) hpart
  exact ⟨ht, hp.1⟩

/-- A part whose parenthesis is never closed is read as the empty data. -/
theorem unclosed_part_accepted :
    parseIntentString "Password(secret".toList = .ok [("Password".toList, [])] ∧
      ¬ Faithful "Password(secret".toList [("Password".toList, [])] := by
  have hs : split delimiter "Password(secret".toList = ["Password(secret".toList] := by decide
  refine ⟨by decide, fun h => ?_⟩
  rw [Faithful, hs] at h
  cases h with
  | cons hpart _ => exact absurd hpart.1 (by decide)

theorem faithful_iff_closesAtEnd_password :
    Faithful "Password(secret".toList [("Password".toList, [])] ↔
      ∀ part ∈ split delimiter "Password(secret".toList, ClosesAtEnd (trim part) :=
  faithful_iff_closesAtEnd (by decide)

end IntentParser

end Fangorn
