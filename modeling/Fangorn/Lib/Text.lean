import Mathlib.Data.List.Infix
import Mathlib.Data.List.Flatten
import Mathlib.Data.Char
import Mathlib.Data.List.DropRight

/-! Text as Rust has it: a `str` is a sequence of Unicode scalar values whose
bytes are its UTF-8 encoding, and slices are taken at byte offsets. -/

namespace Rust

abbrev Bytes := List UInt8

abbrev Arr (n : Nat) := { b : Bytes // b.length = n }

/-- `try_into` from a slice. -/
def Arr.ofBytes? (n : Nat) (b : Bytes) : Option (Arr n) :=
  if h : b.length = n then some ⟨b, h⟩ else none

theorem Arr.ofBytes?_eq_some {n : Nat} {b : Bytes} {a : Arr n} :
    Arr.ofBytes? n b = some a ↔ b = a.1 := by
  unfold ofBytes?
  split_ifs with h
  · simp [Subtype.ext_iff]
  · simp only [false_iff]
    rintro rfl
    exact h a.2

abbrev Str := List Char

def asBytes (s : Str) : Bytes := s.flatMap String.utf8EncodeChar

@[simp] theorem asBytes_nil : asBytes [] = [] := rfl

@[simp] theorem asBytes_cons (c : Char) (s : Str) :
    asBytes (c :: s) = String.utf8EncodeChar c ++ asBytes s := rfl

@[simp] theorem asBytes_append (s t : Str) : asBytes (s ++ t) = asBytes s ++ asBytes t :=
  List.flatMap_append

/-- `String::from_utf8`. The first argument counts continuation bytes of the
character read last. -/
def fromUtf8Go : Nat → Bytes → Option Str
  | 0, [] => some []
  | _ + 1, [] => none
  | k + 1, _ :: bs => fromUtf8Go k bs
  | 0, b :: bs =>
    match ByteArray.utf8DecodeChar? (b :: bs).toByteArray 0 with
    | none => none
    | some c => (fromUtf8Go (c.utf8Size - 1) bs).map (c :: ·)

def fromUtf8 (b : Bytes) : Option Str := fromUtf8Go 0 b

theorem fromUtf8Go_skip (l b : Bytes) : fromUtf8Go l.length (l ++ b) = fromUtf8Go 0 b := by
  induction l with
  | nil => rfl
  | cons x l ih => simpa [fromUtf8Go] using ih

theorem utf8DecodeChar?_append (c : Char) (b : Bytes) :
    ByteArray.utf8DecodeChar? (String.utf8EncodeChar c ++ b).toByteArray 0 = some c := by
  rw [List.toByteArray_append]
  exact ByteArray.utf8DecodeChar?_utf8EncodeChar_append

theorem exists_of_utf8DecodeChar? {b : Bytes} {c : Char}
    (h : ByteArray.utf8DecodeChar? b.toByteArray 0 = some c) :
    ∃ r, b = String.utf8EncodeChar c ++ r := by
  obtain ⟨l, hl⟩ := ByteArray.exists_of_utf8DecodeChar?_eq_some h
  refine ⟨l.data.toList, ?_⟩
  have hb := congrArg (fun x : ByteArray => x.data.toList) hl
  simpa using hb

theorem fromUtf8_cons (c : Char) (b : Bytes) :
    fromUtf8 (String.utf8EncodeChar c ++ b) = (fromUtf8 b).map (c :: ·) := by
  obtain ⟨x, l, hx⟩ := List.exists_cons_of_ne_nil (String.utf8EncodeChar_ne_nil (c := c))
  have hdec := utf8DecodeChar?_append c b
  have hlen : c.utf8Size - 1 = l.length := by
    have := String.length_utf8EncodeChar c
    simp only [hx, List.length_cons] at this
    omega
  rw [hx, List.cons_append] at hdec ⊢
  simp only [fromUtf8, fromUtf8Go, hdec, hlen, fromUtf8Go_skip]

@[simp] theorem fromUtf8_asBytes (s : Str) : fromUtf8 (asBytes s) = some s := by
  induction s with
  | nil => rfl
  | cons c s ih => rw [asBytes_cons, fromUtf8_cons, ih]; rfl

theorem asBytes_injective : Function.Injective asBytes := by
  intro s t h
  have := congrArg fromUtf8 h
  simpa using this

theorem fromUtf8_eq_some {b : Bytes} {s : Str} : fromUtf8 b = some s ↔ b = asBytes s := by
  constructor
  · intro h
    induction s generalizing b with
    | nil =>
      cases b with
      | nil => rfl
      | cons x b =>
        simp only [fromUtf8, fromUtf8Go] at h
        split at h <;> simp at h
    | cons c s ih =>
      cases b with
      | nil => simp [fromUtf8, fromUtf8Go] at h
      | cons x b =>
        cases hd : ByteArray.utf8DecodeChar? (x :: b).toByteArray 0 with
        | none => simp [fromUtf8, fromUtf8Go, hd] at h
        | some d =>
          obtain ⟨r, hr⟩ := exists_of_utf8DecodeChar? hd
          rw [hr, fromUtf8_cons] at h
          obtain ⟨t, ht, hcons⟩ := Option.map_eq_some_iff.mp h
          obtain ⟨rfl, rfl⟩ := List.cons.inj hcons
          rw [hr, asBytes_cons, ih ht]
  · rintro rfl
    exact fromUtf8_asBytes s

/-- `char::is_whitespace`: the Unicode property `White_Space`. -/
def isWhitespace (c : Char) : Bool :=
  let n := c.toNat
  (9 ≤ n && n ≤ 13) || n == 0x20 || n == 0x85 || n == 0xA0 || n == 0x1680 ||
    (0x2000 ≤ n && n ≤ 0x200A) || n == 0x2028 || n == 0x2029 || n == 0x202F ||
    n == 0x205F || n == 0x3000

def trimStart (s : Str) : Str := s.dropWhile isWhitespace

def trimEnd (s : Str) : Str := s.rdropWhile isWhitespace

def trim (s : Str) : Str := trimEnd (trimStart s)

/-- `str::split` with a non-empty pattern: leftmost occurrences, without
overlap. The first argument counts characters of a match still to be passed. -/
def splitGo (pat : Str) : Nat → Str → List Str
  | _, [] => [[]]
  | k + 1, _ :: s => splitGo pat k s
  | 0, c :: s =>
    if pat.isPrefixOf (c :: s) then [] :: splitGo pat (pat.length - 1) s
    else (splitGo pat 0 s).modifyHead (c :: ·)

def split (pat s : Str) : List Str := splitGo pat 0 s

/-- `str::char_indices`: every character with its byte offset. -/
def charIndicesFrom : Nat → Str → List (Nat × Char)
  | _, [] => []
  | i, c :: s => (i, c) :: charIndicesFrom (i + c.utf8Size) s

def charIndices (s : Str) : List (Nat × Char) := charIndicesFrom 0 s

/-- `&s[..n]`; `none` when the offset is no character boundary of `s`. -/
def sliceTo : Nat → Str → Option Str
  | 0, _ => some []
  | _ + 1, [] => none
  | n + 1, c :: s =>
    if c.utf8Size ≤ n + 1 then (sliceTo (n + 1 - c.utf8Size) s).map (c :: ·) else none

theorem trimEnd_eq_self {s : Str} (hlast : ∀ c ∈ s.getLast?, isWhitespace c = false) :
    trimEnd s = s := by
  rw [trimEnd, List.rdropWhile_eq_self_iff]
  intro hne
  simp [hlast _ (List.getLast?_eq_some_getLast hne)]

theorem trim_eq_self {s : Str} (hhead : ∀ c ∈ s.head?, isWhitespace c = false)
    (hlast : ∀ c ∈ s.getLast?, isWhitespace c = false) : trim s = s := by
  have hstart : trimStart s = s := by
    cases s with
    | nil => rfl
    | cons c s => simp [trimStart, hhead c rfl]
  rw [trim, hstart, trimEnd_eq_self hlast]

theorem trim_getLast {s : Str} : ∀ c ∈ (trim s).getLast?, isWhitespace c = false := by
  intro c hc
  obtain ⟨hne, rfl⟩ := List.mem_getLast?_eq_getLast hc
  exact Bool.eq_false_iff.mpr (List.rdropWhile_last_not isWhitespace (trimStart s) hne)

theorem trim_head {s : Str} : ∀ c ∈ (trim s).head?, isWhitespace c = false := by
  intro c hc
  obtain ⟨r, hr⟩ : trim s <+: trimStart s := List.rdropWhile_prefix isWhitespace _
  obtain ⟨t, ht⟩ := List.head?_eq_some_iff.mp hc
  have hh : (trimStart s).head? = some c := by rw [← hr, ht]; rfl
  have hnot := List.head?_dropWhile_not isWhitespace s
  rw [trimStart] at hh
  simpa only [hh] using hnot

@[simp] theorem trim_trim (s : Str) : trim (trim s) = trim s :=
  trim_eq_self trim_head trim_getLast

theorem trim_pad {pre s post : Str} (hpre : ∀ c ∈ pre, isWhitespace c = true)
    (hpost : ∀ c ∈ post, isWhitespace c = true) (hs : s ≠ []) (h : trim s = s) :
    trim (pre ++ s ++ post) = s := by
  have hhead := h ▸ trim_head (s := s)
  have hlast := h ▸ trim_getLast (s := s)
  have hstart : trimStart (pre ++ s ++ post) = s ++ post := by
    rw [trimStart, List.append_assoc, List.dropWhile_append_of_pos hpre]
    cases s with
    | nil => exact absurd rfl hs
    | cons c s => simp [hhead c rfl]
  have hrev : ∀ c ∈ post.reverse, isWhitespace c = true := by
    intro c hc
    exact hpost c (List.mem_reverse.mp hc)
  rw [trim, hstart, trimEnd, List.rdropWhile, List.reverse_append,
    List.dropWhile_append_of_pos hrev]
  exact trimEnd_eq_self hlast

theorem splitGo_ne_nil (pat : Str) (k : Nat) (s : Str) : splitGo pat k s ≠ [] := by
  induction s generalizing k with
  | nil => cases k <;> simp [splitGo]
  | cons c s ih =>
    cases k with
    | zero =>
      rw [splitGo]
      split_ifs
      · simp
      · simpa using ih 0
    | succ k => exact ih k

theorem split_eq_singleton {pat s y : Str} (hpat : pat ≠ []) :
    split pat s = [y] ↔ y = s ∧ ¬ pat <:+: s := by
  unfold split
  induction s generalizing y with
  | nil => simp [splitGo, hpat, eq_comm]
  | cons c s ih =>
    rw [splitGo, List.infix_cons_iff]
    split_ifs with hp
    · have hp' := List.isPrefixOf_iff_prefix.mp hp
      simp [splitGo_ne_nil, hp']
    · rw [List.isPrefixOf_iff_prefix] at hp
      obtain ⟨f, fs, hf⟩ := List.exists_cons_of_ne_nil (splitGo_ne_nil pat 0 s)
      rw [hf, List.modifyHead_cons, List.cons.injEq]
      constructor
      · intro hh
        obtain ⟨rfl, rfl⟩ := hh
        obtain ⟨rfl, hi⟩ := ih.mp hf
        exact ⟨rfl, by simp [hp, hi]⟩
      · intro hh
        obtain ⟨rfl, hi⟩ := hh
        have hs := ih.mpr ⟨rfl, fun hs => hi (Or.inr hs)⟩
        rw [hf, List.cons.injEq] at hs
        exact ⟨by rw [hs.1], hs.2⟩

theorem split_of_not_infix {pat s : Str} (hpat : pat ≠ []) (h : ¬ pat <:+: s) :
    split pat s = [s] := (split_eq_singleton hpat).mpr ⟨rfl, h⟩

theorem splitGo_skip (pat l s : Str) : splitGo pat l.length (l ++ s) = splitGo pat 0 s := by
  induction l with
  | nil => rfl
  | cons c l ih => simpa [splitGo] using ih

/-- No occurrence of the pattern starts inside the part: not in the part
itself, and not across its end either. -/
theorem split_append {pat part : Str} (hpat : pat ≠ []) (h : ¬ pat <:+: part ++ pat.dropLast)
    (s : Str) : split pat (part ++ pat ++ s) = part :: split pat s := by
  unfold split
  induction part with
  | nil =>
    obtain ⟨c, l, rfl⟩ := List.exists_cons_of_ne_nil hpat
    have hp : (c :: l).isPrefixOf (c :: (l ++ s)) = true :=
      List.isPrefixOf_iff_prefix.mpr (List.prefix_append (c :: l) s)
    rw [List.nil_append, List.cons_append, splitGo, if_pos hp, List.length_cons,
      Nat.add_sub_cancel, splitGo_skip]
  | cons c part ih =>
    rw [List.cons_append, List.infix_cons_iff, not_or] at h
    have hp : ¬ pat.isPrefixOf (c :: (part ++ pat ++ s)) = true := by
      rw [List.isPrefixOf_iff_prefix]
      intro hp
      have hpre : c :: (part ++ pat.dropLast) <+: c :: (part ++ pat ++ s) := by
        have hdrop : part ++ pat.dropLast <+: part ++ pat :=
          (List.prefix_append_right_inj part).mpr (List.dropLast_prefix pat)
        exact List.cons_prefix_cons.mpr ⟨rfl, hdrop.trans (List.prefix_append _ s)⟩
      refine h.1 (List.prefix_of_prefix_length_le hp hpre ?_)
      have := List.length_pos_iff.mpr hpat
      simp only [List.length_cons, List.length_append, List.length_dropLast]
      omega
    rw [List.cons_append, List.cons_append, splitGo, if_neg hp, ih h.2]
    rfl

theorem split_intercalate {pat : Str} (hpat : pat ≠ []) {parts : List Str} (hne : parts ≠ [])
    (h : ∀ part ∈ parts, ¬ pat <:+: part ++ pat.dropLast) :
    split pat (pat.intercalate parts) = parts := by
  induction parts with
  | nil => exact absurd rfl hne
  | cons part parts ih =>
    rw [List.forall_mem_cons] at h
    cases parts with
    | nil =>
      have hi : ¬ pat <:+: part := fun hi => h.1 (hi.trans (List.prefix_append _ _).isInfix)
      simpa using split_of_not_infix hpat hi
    | cons next parts =>
      rw [List.intercalate_cons_cons, split_append hpat h.1, ih (List.cons_ne_nil _ _) h.2]

theorem intercalate_modifyHead (pat : Str) (c : Char) {parts : List Str} (h : parts ≠ []) :
    pat.intercalate (parts.modifyHead (c :: ·)) = c :: pat.intercalate parts := by
  cases parts with
  | nil => exact absurd rfl h
  | cons part parts =>
    cases parts with
    | nil => simp
    | cons next parts => simp [List.intercalate_cons_cons]

theorem intercalate_splitGo {pat : Str} (hpat : pat ≠ []) (k : Nat) (s : Str) :
    pat.intercalate (splitGo pat k s) = s.drop k := by
  induction s generalizing k with
  | nil => cases k <;> simp [splitGo]
  | cons c s ih =>
    cases k with
    | succ k => exact ih k
    | zero =>
      rw [splitGo]
      split_ifs with hp
      · obtain ⟨r, hr⟩ := List.isPrefixOf_iff_prefix.mp hp
        have hdrop : (c :: s).drop pat.length = r := by rw [← hr, List.drop_left]
        have hlen : pat.length = pat.length - 1 + 1 := by
          have := List.length_pos_iff.mpr hpat
          omega
        rw [hlen, List.drop_succ_cons] at hdrop
        rw [List.intercalate_cons_of_ne_nil (splitGo_ne_nil pat _ s), ih, hdrop, List.nil_append,
          hr, List.drop_zero]
      · rw [intercalate_modifyHead pat c (splitGo_ne_nil pat 0 s), ih, List.drop_zero,
          List.drop_zero]

theorem not_mem_of_mem_split {x : Char} {s part : Str} (h : part ∈ split [x] s) : x ∉ part := by
  unfold split at h
  induction s generalizing part with
  | nil =>
    obtain rfl : part = [] := by simpa [splitGo] using h
    exact List.not_mem_nil
  | cons c s ih =>
    rw [splitGo] at h
    split_ifs at h with hp
    · rcases List.mem_cons.mp h with rfl | h
      · exact List.not_mem_nil
      · exact ih h
    · have hc : x ≠ c := by simpa using hp
      obtain ⟨f, fs, hf⟩ := List.exists_cons_of_ne_nil (splitGo_ne_nil [x] 0 s)
      rw [hf, List.modifyHead_cons] at h
      rcases List.mem_cons.mp h with rfl | h
      · have hmem : f ∈ splitGo [x] 0 s := by rw [hf]; exact List.mem_cons_self
        exact List.not_mem_cons_of_ne_of_not_mem hc (ih hmem)
      · exact ih (by rw [hf]; exact List.mem_cons_of_mem f h)

theorem split_eq_pair {x : Char} {s a b : Str} :
    split [x] s = [a, b] ↔ s = a ++ x :: b ∧ x ∉ a ∧ x ∉ b := by
  constructor
  · intro h
    have hs := intercalate_splitGo (List.cons_ne_nil x []) 0 s
    rw [show splitGo [x] 0 s = [a, b] from h, List.drop_zero] at hs
    exact ⟨by simpa using hs.symm, not_mem_of_mem_split (h ▸ List.mem_cons_self),
      not_mem_of_mem_split (h ▸ List.mem_cons_of_mem a List.mem_cons_self)⟩
  · intro hh
    obtain ⟨rfl, ha, hb⟩ := hh
    have hsplit := split_append (List.cons_ne_nil x [])
      (show ¬ [x] <:+: a ++ [x].dropLast by simpa [List.singleton_infix_iff] using ha) b
    rw [List.append_assoc, List.singleton_append] at hsplit
    rw [hsplit, split_of_not_infix (List.cons_ne_nil x [])
      (by simpa [List.singleton_infix_iff] using hb)]

def digitValue (c : Char) : Option Nat :=
  if '0' ≤ c ∧ c ≤ '9' then some (c.toNat - 48) else none

def parseDigits : Nat → Str → Option Nat
  | acc, [] => some acc
  | acc, c :: s => do
    let d ← digitValue c
    parseDigits (10 * acc + d) s

/-- `str::parse` to an unsigned integer below `bound`: digits behind an
optional plus sign. -/
def parseUnsigned (bound : Nat) (s : Str) : Option Nat :=
  let digits := if s.head? = some '+' then s.tail else s
  if digits = [] then none else (parseDigits 0 digits).filter (· < bound)

theorem parseUnsigned_lt {bound n : Nat} {s : Str} (h : parseUnsigned bound s = some n) :
    n < bound := by
  obtain ⟨-, hn⟩ := Option.filter_eq_some_iff.mp (Option.ite_none_left_eq_some.mp h).2
  simpa using hn

end Rust
