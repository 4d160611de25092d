import Fangorn.IntentParser

/-! The rendering of intents as text, which `parse_intent_string` reads back:
`type1(data1) && type2(data2) && ...` with any white space around the
separators and at both ends. -/

namespace Fangorn

open Rust Nesting

namespace IntentParser

/-- A pair that the parser can tell from the text around it. -/
structure Renderable (pair : Str × Str) : Prop where
  type_paren : '(' ∉ pair.1
  type_delimiter : ¬ delimiter <:+: pair.1
  type_head : ∀ c ∈ pair.1.head?, isWhitespace c = false
  data_delimiter : ¬ delimiter <:+: pair.2
  data_balanced : Balanced '(' ')' pair.2
  data_depth : ∀ p, p <+: pair.2 → net '(' ')' p < 2 ^ 31 - 1

/-- One conjunct with the white space before and behind it. -/
structure Conjunct where
  before : Str
  pair : Str × Str
  after : Str
  before_white : ∀ c ∈ before, isWhitespace c = true
  after_white : ∀ c ∈ after, isWhitespace c = true

def Conjunct.text (c : Conjunct) : Str := c.before ++ renderPart c.pair ++ c.after

def render (conjuncts : List Conjunct) : Str := delimiter.intercalate (conjuncts.map Conjunct.text)

theorem scan_close {p r : Str} {d i : Nat} (hopen : StaysOpen '(' ')' d p)
    (hclose : d + net '(' ')' p = 1) (hdepth : ∀ q, q <+: p → d + net '(' ')' q < 2 ^ 31) :
    scan d (charIndicesFrom i (p ++ ')' :: r)) = .ok (i + byteLen p) := by
  induction p generalizing d i with
  | nil =>
    have hd : d = 1 := by
      rw [net_nil] at hclose
      omega
    rw [List.nil_append, charIndicesFrom, scan, if_neg (by decide), if_pos rfl, if_pos hd]
    simp [byteLen]
  | cons c p ih =>
    obtain ⟨hpos, hrest⟩ := staysOpen_cons.mp hopen
    have hd (q : Str) : net '(' ')' (c :: q) = net '(' ')' [c] + net '(' ')' q := by
      rw [← List.singleton_append, net_append]
    -- the depth behind the character, which the rest starts from
    have step {d' : Nat} (hd' : (d' : ℤ) = d + net '(' ')' [c]) :
        scan d' (charIndicesFrom (i + c.utf8Size) (p ++ ')' :: r)) =
          .ok (i + byteLen (c :: p)) := by
      rw [ih (hd' ▸ hrest) (by rw [hd', ← hclose, hd p, add_assoc]) fun q hq => ?_]
      · simp only [byteLen, List.map_cons, List.sum_cons, Nat.add_assoc]
      · have := hdepth (c :: q) (List.cons_prefix_cons.mpr ⟨rfl, hq⟩)
        rw [hd] at this
        omega
    have hlast := hrest.pos
    rw [List.cons_append, charIndicesFrom, scan]
    by_cases ho : c = '('
    · subst ho
      have hnet : net '(' ')' ['('] = 1 := by decide
      have := hdepth ['('] (List.cons_prefix_cons.mpr ⟨rfl, List.nil_prefix⟩)
      rw [if_pos rfl, if_pos (by omega), step (by rw [hnet]; rfl)]
    · by_cases hc : c = ')'
      · subst hc
        have hnet : net '(' ')' [')'] = -1 := by decide
        rw [hnet] at hlast
        rw [if_neg ho, if_pos rfl, if_neg (by omega), step (by rw [hnet]; omega)]
      · have hnet : net '(' ')' [c] = 0 := by rw [net_other ho hc, net_nil]
        rw [if_neg ho, if_neg hc, step (by rw [hnet, add_zero])]

theorem parsePart_renderPart {pair : Str × Str} (h : Renderable pair) {part : Str}
    (hpart : trim part = renderPart pair) : parsePart part = .ok pair := by
  obtain ⟨ty, d⟩ := pair
  have htake : takeUntilParen (trim part) = .ok ('(' :: (d ++ [')']), ty) :=
    takeUntilParen_eq_ok.mpr ⟨_, rfl, by simp [hpart, renderPart], h.type_paren⟩
  obtain ⟨hopen, hnet⟩ := balanced_iff_staysOpen.mp h.data_balanced
  have hscan : scan 1 (charIndices (d ++ [')'])) = .ok (0 + byteLen d) := by
    refine scan_close hopen (by rw [hnet]; rfl) fun q hq => ?_
    have := h.data_depth q hq
    push_cast
    omega
  have hslice : sliceTo (0 + byteLen d) (d ++ [')']) = some d := by
    rw [Nat.zero_add, sliceTo_byteLen]
  simp only [parsePart, htake, Outcome.ok_bind, tagParen, hscan, hslice, Outcome.expect]

theorem trim_text {c : Conjunct} (h : Renderable c.pair) : trim c.text = renderPart c.pair :=
  trim_pad c.before_white c.after_white (by simp [renderPart]) (trim_renderPart h.type_head)

/-- A letter that the pattern does not have separates its occurrences. -/
theorem infix_append_cons {x : Char} {t a b : Str} (hx : x ∉ t) (h : t <:+: a ++ x :: b) :
    t <:+: a ∨ t <:+: b := by
  rcases List.infix_append_iff_ne_nil.mp h with hi | hi | ⟨l₁, l₂, -, hne, rfl, -, hp⟩
  · exact Or.inl hi
  · rcases List.infix_cons_iff.mp hi with hp | hi
    · rcases List.prefix_cons_iff.mp hp with rfl | ⟨t, rfl, -⟩
      · exact Or.inl List.nil_infix
      · exact absurd List.mem_cons_self hx
    · exact Or.inr hi
  · rcases List.prefix_cons_iff.mp hp with rfl | ⟨l, rfl, -⟩
    · exact absurd rfl hne
    · exact absurd (List.mem_append_right l₁ List.mem_cons_self) hx

theorem amp_not_white {s : Str} (h : ∀ c ∈ s, isWhitespace c = true) : '&' ∉ s := by
  intro hmem
  exact absurd (h _ hmem) (by decide)

theorem text_delimiter {c : Conjunct} (h : Renderable c.pair) :
    ¬ delimiter <:+: c.text ++ delimiter.dropLast := by
  intro hi
  have htext : c.text ++ delimiter.dropLast =
      c.before ++ (c.pair.1 ++ '(' :: (c.pair.2 ++ ')' :: (c.after ++ ['&']))) := by
    simp [Conjunct.text, renderPart, delimiter]
  rw [htext] at hi
  have hi := infix_of_append (amp_not_white c.before_white) hi
  rcases infix_append_cons (by decide) hi with hi | hi
  · exact h.type_delimiter hi
  · rcases infix_append_cons (by decide) hi with hi | hi
    · exact h.data_delimiter hi
    · have hi := infix_of_append (amp_not_white c.after_white) hi
      exact absurd hi.length_le (by decide)

theorem parseParts_of_forall₂ {parts : List Str} {pairs : List (Str × Str)}
    (h : List.Forall₂ (fun part pair => parsePart part = .ok pair) parts pairs) :
    parseParts parts = .ok pairs := by
  induction h with
  | nil => rfl
  | cons hpart _ ih => rw [parseParts, hpart, Outcome.ok_bind, ih, Outcome.ok_bind]

/-- What was rendered is read back as it was, whatever white space was put
around the separators. -/
theorem parse_render {conjuncts : List Conjunct} (hne : conjuncts ≠ [])
    (h : ∀ c ∈ conjuncts, Renderable c.pair) :
    parseIntentString (render conjuncts) = .ok (conjuncts.map Conjunct.pair) := by
  have hsplit : split delimiter (render conjuncts) = conjuncts.map Conjunct.text := by
    refine split_intercalate (List.cons_ne_nil _ _) (by simpa using hne) fun part hpart => ?_
    obtain ⟨c, hc, rfl⟩ := List.mem_map.mp hpart
    exact text_delimiter (h c hc)
  rw [parseIntentString, hsplit]
  apply parseParts_of_forall₂
  rw [List.forall₂_map_left_iff, List.forall₂_map_right_iff, List.forall₂_same]
  intro c hc
  exact parsePart_renderPart (h c hc) (trim_text (h c hc))

theorem renderable_of_length {ty d : Str} (hty : '(' ∉ ty) (hdel : ¬ delimiter <:+: ty)
    (hhead : ∀ c ∈ ty.head?, isWhitespace c = false) (hd : ¬ delimiter <:+: d)
    (hbal : Balanced '(' ')' d) (hlen : d.length < 2 ^ 31 - 1) : Renderable (ty, d) where
  type_paren := hty
  type_delimiter := hdel
  type_head := hhead
  data_delimiter := hd
  data_balanced := hbal
  data_depth p hp := by
    have hle : p.length ≤ d.length := hp.length_le
    have := net_le_length (o := '(') (c := ')') p
    omega

def wideConjunct : Conjunct where
  before := "\u2003 ".toList
  pair := ("&Тип ".toList, "p(é)&(漢)".toList)
  after := "\t".toList
  before_white := List.all_eq_true.mp (by decide)
  after_white := List.all_eq_true.mp (by decide)

def emptyConjunct : Conjunct where
  before := []
  pair := ([], [])
  after := []
  before_white := List.all_eq_true.mp (by decide)
  after_white := List.all_eq_true.mp (by decide)

theorem parse_render_wide :
    parseIntentString (render [wideConjunct, emptyConjunct, wideConjunct]) =
      .ok [wideConjunct.pair, emptyConjunct.pair, wideConjunct.pair] := by
  have hwide : Renderable wideConjunct.pair := by
    refine renderable_of_length (by decide) (by decide) (by simp [isWhitespace]) (by decide) ?_
      (by decide)
    exact ((firstClose_one (l := "p(é)&(漢))".toList) (r := []) (by decide)).mp (by decide)).2
  have hempty : Renderable emptyConjunct.pair := by
    refine renderable_of_length (by decide) (by decide) (by simp) (by decide) ?_ (by decide)
    exact ((firstClose_one (l := ")".toList) (r := []) (by decide)).mp (by decide)).2
  exact parse_render (List.cons_ne_nil _ _) (by simp [hwide, hempty])

end IntentParser

end Fangorn
