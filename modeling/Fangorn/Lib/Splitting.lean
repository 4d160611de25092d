import Fangorn.Lib.Text

/-! Splitting texts that were put together: a letter that the pattern does not
have keeps its occurrences on one side. -/

namespace Rust

variable {pat : Str} {c : Char}

theorem prefix_append_cons_iff (hc : c ∉ pat) {a r : Str} :
    pat <+: a ++ c :: r ↔ pat <+: a := by
  constructor
  · intro h
    rcases List.prefix_or_prefix_of_prefix h (List.prefix_append a (c :: r)) with ha | ⟨l, rfl⟩
    · exact ha
    · rw [List.prefix_append_right_inj] at h
      cases l with
      | nil => simp
      | cons x l =>
        obtain ⟨rfl, -⟩ := List.cons_prefix_cons.mp h
        exact absurd (List.mem_append_right a List.mem_cons_self) hc
  · intro h
    exact h.trans (List.prefix_append a _)

theorem splitGo_boundary (hpat : pat ≠ []) (hc : c ∉ pat) {a : Str} {k : Nat}
    (hk : k ≤ a.length) (b : Str) :
    splitGo pat k (a ++ c :: (pat ++ b)) = splitGo pat k (a ++ [c]) ++ splitGo pat 0 b := by
  have hstop (a r : Str) : pat.isPrefixOf (a ++ c :: r) = pat.isPrefixOf a := by
    rw [Bool.eq_iff_iff, List.isPrefixOf_iff_prefix, List.isPrefixOf_iff_prefix,
      prefix_append_cons_iff hc]
  induction a generalizing k with
  | nil =>
    obtain rfl : k = 0 := Nat.le_zero.mp hk
    obtain ⟨p, l, rfl⟩ := List.exists_cons_of_ne_nil hpat
    have hno (r : Str) : (p :: l).isPrefixOf (c :: r) = false := hstop [] r
    have hyes : (p :: l).isPrefixOf (p :: (l ++ b)) = true :=
      List.isPrefixOf_iff_prefix.mpr (List.prefix_append (p :: l) b)
    have hsplit : splitGo (p :: l) 0 (p :: (l ++ b)) = [] :: splitGo (p :: l) 0 b := by
      rw [splitGo, if_pos hyes, List.length_cons, Nat.add_sub_cancel, splitGo_skip]
    rw [List.nil_append, List.nil_append, splitGo, hno, splitGo, hno, List.cons_append, hsplit]
    simp [splitGo]
  | cons x a ih =>
    cases k with
    | succ k => exact ih (Nat.le_of_succ_le_succ hk)
    | zero =>
      have hwhole : pat.isPrefixOf (x :: (a ++ c :: (pat ++ b))) = pat.isPrefixOf (x :: a) :=
        hstop (x :: a) (pat ++ b)
      have hfirst : pat.isPrefixOf (x :: (a ++ [c])) = pat.isPrefixOf (x :: a) :=
        hstop (x :: a) []
      simp only [List.cons_append, splitGo, hwhole, hfirst]
      split_ifs with hp
      · have hle := (List.isPrefixOf_iff_prefix.mp hp).length_le
        rw [List.length_cons] at hle
        rw [ih (by omega), List.cons_append]
      · obtain ⟨f, fs, hf⟩ := List.exists_cons_of_ne_nil (splitGo_ne_nil pat 0 (a ++ [c]))
        rw [ih (Nat.zero_le _), hf]
        rfl

/-- Behind such a letter an occurrence of the pattern is one where it splits. -/
theorem split_boundary (hpat : pat ≠ []) (hc : c ∉ pat) (a b : Str) :
    split pat (a ++ c :: (pat ++ b)) = split pat (a ++ [c]) ++ split pat b :=
  splitGo_boundary hpat hc (Nat.zero_le _) b

/-- A pattern of one letter splits wherever it occurs. -/
theorem split_cons (x : Char) (a b : Str) :
    split [x] (a ++ x :: b) = split [x] a ++ split [x] b := by
  unfold split
  induction a with
  | nil => simp [splitGo]
  | cons y a ih =>
    rw [List.cons_append, splitGo, splitGo]
    by_cases hy : x = y
    · subst hy
      simp only [List.isPrefixOf_cons_cons_self, List.isPrefixOf_nil_left, if_true]
      rw [List.length_singleton, Nat.sub_self, ih, List.cons_append]
    · have hno (r : Str) : [x].isPrefixOf (y :: r) = false := by simpa [List.isPrefixOf] using hy
      obtain ⟨f, fs, hf⟩ := List.exists_cons_of_ne_nil (splitGo_ne_nil [x] 0 a)
      rw [hno, hno, ih, hf]
      rfl

theorem trim_white_append {pre s : Str} (h : ∀ c ∈ pre, isWhitespace c = true) :
    trim (pre ++ s) = trim s := by
  rw [trim, trim, trimStart, trimStart, List.dropWhile_append_of_pos h]

theorem trimEnd_append_white {s post : Str} (h : ∀ c ∈ post, isWhitespace c = true) :
    trimEnd (s ++ post) = trimEnd s := by
  rw [trimEnd, trimEnd, List.rdropWhile, List.rdropWhile, List.reverse_append,
    List.dropWhile_append_of_pos fun c hc => h c (List.mem_reverse.mp hc)]

theorem trim_append_white {s post : Str} (h : ∀ c ∈ post, isWhitespace c = true) :
    trim (s ++ post) = trim s := by
  have hpost : post.dropWhile isWhitespace = [] := List.dropWhile_eq_nil_iff.mpr h
  rw [trim, trim, trimStart, trimStart, List.dropWhile_append, hpost]
  split_ifs with hs
  · rw [List.isEmpty_iff.mp hs]
  · exact trimEnd_append_white h

theorem trim_trimEnd (s : Str) : trim (trimEnd s) = trim s := by
  have hs : trimEnd s ++ s.rtakeWhile isWhitespace = s := List.rdropWhile_append_rtakeWhile
  conv_rhs => rw [← hs]
  exact (trim_append_white fun c hc => List.mem_rtakeWhile_imp hc).symm

theorem trimEnd_cons_congr {f f' : Str} (x : Char) (h : trimEnd f = trimEnd f') :
    trimEnd (x :: f) = trimEnd (x :: f') := by
  have hcons (f : Str) : trimEnd (x :: f) =
      if trimEnd f = [] then trimEnd [x] else x :: trimEnd f := by
    simp only [trimEnd, List.rdropWhile, List.reverse_cons, List.dropWhile_append,
      List.isEmpty_iff, List.reverse_eq_nil_iff, List.reverse_nil, List.nil_append]
    split_ifs <;> simp
  rw [hcons f, hcons f', h]

theorem prefix_append_iff {a post : Str} (h : ∀ c ∈ post, c ∉ pat) :
    pat <+: a ++ post ↔ pat <+: a := by
  cases post with
  | nil => rw [List.append_nil]
  | cons c r => exact prefix_append_cons_iff (h c List.mem_cons_self)

theorem split_append_white (hpat : pat ≠ []) (hsolid : ∀ c ∈ pat, isWhitespace c = false)
    {post : Str} (h : ∀ c ∈ post, isWhitespace c = true) (s : Str) :
    (split pat (s ++ post)).map trim = (split pat s).map trim := by
  have hout : ∀ c ∈ post, c ∉ pat := by
    intro c hc hmem
    exact Bool.noConfusion ((h c hc).symm.trans (hsolid c hmem))
  have hends {k : Nat} (hk : k ≤ s.length) :
      (splitGo pat k (s ++ post)).map trimEnd = (splitGo pat k s).map trimEnd := by
    induction s generalizing k with
    | nil =>
      obtain rfl : k = 0 := Nat.le_zero.mp hk
      have hno : ¬ pat <:+: post := by
        intro hi
        obtain ⟨c, l, rfl⟩ := List.exists_cons_of_ne_nil hpat
        exact hout c (hi.subset List.mem_cons_self) List.mem_cons_self
      have hpost : splitGo pat 0 post = [post] := split_of_not_infix hpat hno
      have hempty : trimEnd post = trimEnd [] := trimEnd_append_white (s := []) h
      rw [List.nil_append, hpost, splitGo, List.map_singleton, List.map_singleton, hempty]
    | cons x s ih =>
      cases k with
      | succ k => exact ih (Nat.le_of_succ_le_succ hk)
      | zero =>
        have hwhole : pat.isPrefixOf (x :: (s ++ post)) = pat.isPrefixOf (x :: s) := by
          rw [Bool.eq_iff_iff, List.isPrefixOf_iff_prefix, List.isPrefixOf_iff_prefix]
          exact prefix_append_iff (a := x :: s) hout
        simp only [List.cons_append, splitGo, hwhole]
        split_ifs with hp
        · have hle := (List.isPrefixOf_iff_prefix.mp hp).length_le
          rw [List.length_cons] at hle
          rw [List.map_cons, List.map_cons, ih (by omega)]
        · obtain ⟨f, fs, hf⟩ := List.exists_cons_of_ne_nil (splitGo_ne_nil pat 0 (s ++ post))
          obtain ⟨g, gs, hg⟩ := List.exists_cons_of_ne_nil (splitGo_ne_nil pat 0 s)
          have hrest := ih (Nat.zero_le _)
          rw [hf, hg, List.map_cons, List.map_cons, List.cons.injEq] at hrest
          rw [hf, hg]
          simp only [List.modifyHead_cons, List.map_cons, hrest.2,
            trimEnd_cons_congr x hrest.1]
  have hmap (l : List Str) : l.map trim = (l.map trimEnd).map trim := by
    simp only [List.map_map]
    exact List.map_congr_left fun s _ => (trim_trimEnd s).symm
  rw [hmap, hmap (split pat s), split, split, hends (Nat.zero_le _)]

theorem split_white_append (hpat : pat ≠ []) (hsolid : ∀ c ∈ pat, isWhitespace c = false)
    {pre : Str} (h : ∀ c ∈ pre, isWhitespace c = true) (s : Str) :
    (split pat (pre ++ s)).map trim = (split pat s).map trim := by
  unfold split
  induction pre with
  | nil => rfl
  | cons x pre ih =>
    rw [List.forall_mem_cons] at h
    obtain ⟨p, l, rfl⟩ := List.exists_cons_of_ne_nil hpat
    have hx : p ≠ x := by
      rintro rfl
      exact Bool.noConfusion ((h.1).symm.trans (hsolid p List.mem_cons_self))
    have hno : (p :: l).isPrefixOf (x :: (pre ++ s)) = false := by
      simp [List.isPrefixOf, hx]
    obtain ⟨f, fs, hf⟩ := List.exists_cons_of_ne_nil (splitGo_ne_nil (p :: l) 0 (pre ++ s))
    rw [List.cons_append, splitGo, hno, ← ih h.2, hf]
    have hwhite : ∀ c ∈ [x], isWhitespace c = true := List.forall_mem_singleton.mpr h.1
    have htrim : trim ([x] ++ f) = trim f := trim_white_append hwhite
    rw [List.singleton_append] at htrim
    simp [htrim]

theorem split_trim (hpat : pat ≠ []) (hsolid : ∀ c ∈ pat, isWhitespace c = false) (s : Str) :
    (split pat (trim s)).map trim = (split pat s).map trim := by
  have hend : trim s ++ (trimStart s).rtakeWhile isWhitespace = trimStart s :=
    List.rdropWhile_append_rtakeWhile
  have hstart : s.takeWhile isWhitespace ++ trimStart s = s := List.takeWhile_append_dropWhile
  calc (split pat (trim s)).map trim
      = (split pat (trimStart s)).map trim := by
        conv_rhs => rw [← hend]
        exact (split_append_white hpat hsolid (fun c hc => List.mem_rtakeWhile_imp hc) _).symm
    _ = (split pat s).map trim := by
        conv_rhs => rw [← hstart]
        exact (split_white_append hpat hsolid (fun c hc => List.mem_takeWhile_imp hc) _).symm

theorem intercalate_append {sep : Str} {parts parts' : List Str} (hne : parts ≠ [])
    (hne' : parts' ≠ []) :
    sep.intercalate (parts ++ parts') = sep.intercalate parts ++ sep ++ sep.intercalate parts' := by
  induction parts with
  | nil => exact absurd rfl hne
  | cons part parts ih =>
    cases parts with
    | nil =>
      obtain ⟨next, rest, rfl⟩ := List.exists_cons_of_ne_nil hne'
      simp [List.intercalate_cons_cons]
    | cons next parts =>
      have hrest := ih (List.cons_ne_nil _ _)
      rw [List.cons_append] at hrest
      rw [List.cons_append, List.cons_append, List.intercalate_cons_cons,
        List.intercalate_cons_cons, hrest]
      simp only [List.append_assoc]

end Rust
