import Fangorn.Lib.Text

/-! Files that several writers rewrite at the same time, each with a text of its
own: a writer truncates its file when it opens it, and then writes its text
piece by piece, from the place where it stopped. -/

namespace Disk

open Rust

/-- A file may be written behind its end; the gap reads as zeros. -/
def writeAt (content : Bytes) (offset : Nat) (piece : Bytes) : Bytes :=
  content.take offset ++ List.replicate (offset - content.length) 0 ++ piece ++
    content.drop (offset + piece.length)

structure State (Path Writer : Type) where
  files : Path → Option Bytes
  /-- How much a writer has written since it opened its file. -/
  offsets : Writer → Option Nat

inductive Event (Writer : Type) where
  | opened (writer : Writer)
  | wrote (writer : Writer) (n : Nat)

section Definitions

variable {Path Writer : Type} [DecidableEq Path] [DecidableEq Writer] (target : Writer → Path)
  (text : Writer → Bytes)

def exec (s : State Path Writer) : Event Writer → State Path Writer
  | .opened w =>
    { files := Function.update s.files (target w) (some [])
      offsets := Function.update s.offsets w (some 0) }
  | .wrote w n =>
    match s.offsets w, s.files (target w) with
    | some offset, some content =>
      let piece := ((text w).drop offset).take n
      { files := Function.update s.files (target w) (some (writeAt content offset piece))
        offsets := Function.update s.offsets w (some (offset + piece.length)) }
    | _, _ => s

def run (s : State Path Writer) (events : List (Event Writer)) : State Path Writer :=
  events.foldl (exec target text) s

/-- What is written of a text, with gaps. -/
def Torn (text content : Bytes) : Prop :=
  content.length ≤ text.length ∧
    ∀ (i : Nat) (x : UInt8), content[i]? = some x → x = 0 ∨ text[i]? = some x

/-- The file holds something of the text, and the one who truncated it last has
its part of the text in it. -/
structure Shared (path : Path) (t : Bytes) (s : State Path Writer) : Prop where
  unopened : s.files path = none → ∀ w, target w = path → s.offsets w = none
  torn : ∀ content, s.files path = some content → Torn t content
  last : ∀ content, s.files path = some content → ∃ w offset, target w = path ∧
    s.offsets w = some offset ∧ offset ≤ content.length ∧
      ∀ i < offset, content[i]? = t[i]?
  inside : ∀ w offset, target w = path → s.offsets w = some offset → offset ≤ t.length

end Definitions

section Pieces

variable {text content piece : Bytes} {offset : Nat}

theorem length_writeAt :
    (writeAt content offset piece).length = max content.length (offset + piece.length) := by
  simp only [writeAt, List.length_append, List.length_take, List.length_replicate,
    List.length_drop]
  omega

theorem getElem?_writeAt (i : Nat) : (writeAt content offset piece)[i]? =
    if i < offset then content[i]?.or (some 0)
    else if i < offset + piece.length then piece[i - offset]?
    else content[i]? := by
  have hfront : (content.take offset ++
      List.replicate (offset - content.length) (0 : UInt8)).length = offset := by
    simp only [List.length_append, List.length_take, List.length_replicate]
    omega
  have hmiddle : (content.take offset ++ List.replicate (offset - content.length) (0 : UInt8) ++
      piece).length = offset + piece.length := by
    rw [List.length_append, hfront]
  rw [writeAt]
  split_ifs with hi hi'
  · rw [List.getElem?_append_left (by omega), List.getElem?_append_left (by omega)]
    by_cases hc : i < content.length
    · have hlen : i < (content.take offset).length := by
        rw [List.length_take]
        omega
      rw [List.getElem?_append_left hlen, List.getElem?_take_of_lt hi, List.getElem?_eq_getElem hc]
      rfl
    · have hlen : (content.take offset).length ≤ i := by
        rw [List.length_take]
        omega
      have hgap : i - (content.take offset).length < offset - content.length := by
        rw [List.length_take]
        omega
      rw [List.getElem?_append_right hlen, List.getElem?_replicate_of_lt hgap,
        List.getElem?_eq_none (by omega)]
      rfl
  · rw [List.getElem?_append_left (by omega), List.getElem?_append_right (by omega), hfront]
  · rw [List.getElem?_append_right (by omega), hmiddle, List.getElem?_drop]
    congr 1
    omega

variable {n i : Nat}

theorem getElem?_piece (hi : offset ≤ i) (hn : i < offset + ((text.drop offset).take n).length) :
    ((text.drop offset).take n)[i - offset]? = text[i]? := by
  rw [List.length_take] at hn
  rw [List.getElem?_take_of_lt (by omega), List.getElem?_drop]
  congr 1
  omega

theorem length_piece (hoffset : offset ≤ text.length) :
    offset + ((text.drop offset).take n).length ≤ text.length := by
  rw [List.length_take, List.length_drop]
  omega

theorem Torn.writeAt (h : Torn text content) (hoffset : offset ≤ text.length) :
    Torn text (writeAt content offset ((text.drop offset).take n)) := by
  obtain ⟨hlen, hpoint⟩ := h
  have hpiece := length_piece (n := n) hoffset
  refine ⟨by rw [length_writeAt]; omega, fun i x hx => ?_⟩
  rw [getElem?_writeAt] at hx
  split_ifs at hx with hi hi'
  · cases hc : content[i]? with
    | none =>
      rw [hc] at hx
      exact Or.inl (Option.some.inj hx).symm
    | some y =>
      rw [hc] at hx
      exact hpoint i x (hc.trans hx)
  · rw [getElem?_piece (by omega) hi'] at hx
    exact Or.inr hx
  · exact hpoint i x hx

theorem agrees_writeAt (hi : i < content.length) (h : content[i]? = text[i]?) :
    (writeAt content offset ((text.drop offset).take n))[i]? = text[i]? := by
  rw [getElem?_writeAt]
  split_ifs with hi' hi''
  · rw [List.getElem?_eq_getElem hi] at h ⊢
    exact h
  · exact getElem?_piece (by omega) hi''
  · exact h

theorem agrees_piece (hi : i < offset + ((text.drop offset).take n).length)
    (h : ∀ j < offset, content[j]? = text[j]?) (hoffset : offset ≤ content.length) :
    (writeAt content offset ((text.drop offset).take n))[i]? = text[i]? := by
  by_cases hlow : i < offset
  · exact agrees_writeAt (by omega) (h i hlow)
  · rw [getElem?_writeAt, if_neg hlow, if_pos hi, getElem?_piece (by omega) hi]

/-- Without gaps it is a beginning of the text. -/
theorem Torn.prefix_of_notMem (h : Torn text content) (hzero : 0 ∉ content) :
    content <+: text := by
  obtain ⟨hlen, hpoint⟩ := h
  have htake : content = text.take content.length := by
    refine List.ext_getElem? fun i => ?_
    by_cases hi : i < content.length
    · rw [List.getElem?_take_of_lt hi, List.getElem?_eq_getElem hi]
      rcases hpoint i _ (List.getElem?_eq_getElem hi) with hx | hx
      · exact absurd (hx ▸ List.getElem_mem hi) hzero
      · exact hx.symm
    · rw [List.getElem?_eq_none (by omega), List.getElem?_eq_none (by rw [List.length_take]; omega)]
  rw [htake]
  exact List.take_prefix ..

end Pieces

section Runs

variable {Path Writer : Type} [DecidableEq Path] [DecidableEq Writer] {target : Writer → Path}
  {text : Writer → Bytes} {path : Path} {t : Bytes} {s : State Path Writer}

omit [DecidableEq Path] [DecidableEq Writer] in
theorem Shared.elsewhere (h : Shared target path t s) {s' : State Path Writer}
    (hfile : s'.files path = s.files path)
    (hoffsets : ∀ w, target w = path → s'.offsets w = s.offsets w) : Shared target path t s' where
  unopened hnone w hw := (hoffsets w hw).trans (h.unopened (hfile.symm.trans hnone) w hw)
  torn content hcontent := h.torn content (hfile.symm.trans hcontent)
  last content hcontent := by
    obtain ⟨w, offset, hw, hoffset, hrest⟩ := h.last content (hfile.symm.trans hcontent)
    exact ⟨w, offset, hw, (hoffsets w hw).trans hoffset, hrest⟩
  inside w offset hw hoffset := h.inside w offset hw ((hoffsets w hw).symm.trans hoffset)

theorem Shared.opened (h : Shared target path t s) (w : Writer) :
    Shared target path t (exec target text s (.opened w)) := by
  by_cases hw : target w = path
  · have hfile : (exec target text s (.opened w)).files path = some [] := by
      rw [← hw]
      exact Function.update_self ..
    have hstart : (exec target text s (.opened w)).offsets w = some 0 := Function.update_self ..
    refine ⟨fun hnone => ?_, fun content hcontent => ?_, fun content hcontent => ?_,
      fun w' offset hw' hoffset => ?_⟩
    · cases hfile.symm.trans hnone
    · obtain rfl : [] = content := Option.some.inj (hfile.symm.trans hcontent)
      exact ⟨Nat.zero_le _, fun i x hx => by cases hx⟩
    · obtain rfl : [] = content := Option.some.inj (hfile.symm.trans hcontent)
      exact ⟨w, 0, hw, hstart, le_rfl, fun i hi => by omega⟩
    · by_cases heq : w' = w
      · subst heq
        obtain rfl : 0 = offset := Option.some.inj (hstart.symm.trans hoffset)
        omega
      · exact h.inside w' offset hw' ((Function.update_of_ne heq ..).symm.trans hoffset)
  · exact h.elsewhere (Function.update_of_ne (Ne.symm hw) ..) fun w' hw' =>
      Function.update_of_ne (by rintro rfl; exact hw hw') ..

theorem exec_wrote {w : Writer} {n offset : Nat} {content : Bytes}
    (hoffset : s.offsets w = some offset) (hfile : s.files (target w) = some content) :
    exec target text s (.wrote w n) =
      { files := Function.update s.files (target w)
          (some (writeAt content offset (((text w).drop offset).take n)))
        offsets := Function.update s.offsets w
          (some (offset + (((text w).drop offset).take n).length)) } := by
  simp only [exec, hoffset, hfile]

theorem exec_wrote_of_none {w : Writer} {n : Nat}
    (h : s.offsets w = none ∨ s.files (target w) = none) :
    exec target text s (.wrote w n) = s := by
  rcases h with h | h
  · simp only [exec, h]
  · cases hoffset : s.offsets w with
    | none => simp only [exec, hoffset]
    | some offset => simp only [exec, hoffset, h]

theorem exec_offsets_of_ne {w w' : Writer} (hne : w' ≠ w) (n : Nat) :
    (exec target text s (.opened w)).offsets w' = s.offsets w' ∧
      (exec target text s (.wrote w n)).offsets w' = s.offsets w' := by
  refine ⟨Function.update_of_ne hne .., ?_⟩
  simp only [exec]
  split
  · exact Function.update_of_ne hne ..
  · rfl

theorem exec_wrote_isSome {w : Writer} {n : Nat} (h : (s.offsets w).isSome) :
    ((exec target text s (.wrote w n)).offsets w).isSome := by
  simp only [exec]
  split
  · simp
  · exact h

theorem exec_files_isSome (event : Event Writer) (h : (s.files path).isSome) :
    ((exec target text s event).files path).isSome := by
  have hupdate (w : Writer) (content : Bytes) :
      (Function.update s.files (target w) (some content) path).isSome := by
    by_cases hw : path = target w
    · rw [hw, Function.update_self]
      rfl
    · rwa [Function.update_of_ne hw]
  cases event with
  | opened w => exact hupdate w []
  | wrote w n =>
    simp only [exec]
    split
    · exact hupdate w _
    · exact h

theorem Shared.wrote (htext : ∀ w, target w = path → text w = t) (h : Shared target path t s)
    (w : Writer) (n : Nat) : Shared target path t (exec target text s (.wrote w n)) := by
  cases hoffset : s.offsets w with
  | none => rwa [exec_wrote_of_none (Or.inl hoffset)]
  | some offset =>
    cases hfile : s.files (target w) with
    | none => rwa [exec_wrote_of_none (Or.inr hfile)]
    | some content =>
      have hexec : exec target text s (.wrote w n) = _ := exec_wrote hoffset hfile
      have hfiles := congrArg State.files hexec
      have hoffsets := congrArg State.offsets hexec
      dsimp only at hfiles hoffsets
      have hothers (w' : Writer) (hne : w' ≠ w) :
          (exec target text s (.wrote w n)).offsets w' = s.offsets w' := by
        rw [hoffsets, Function.update_of_ne hne]
      by_cases hw : target w = path
      · subst hw
        rw [htext w rfl] at hfiles hoffsets
        have hnew := (congrFun hfiles (target w)).trans (Function.update_self ..)
        have hown := (congrFun hoffsets w).trans (Function.update_self ..)
        have hin : offset ≤ t.length := h.inside w offset rfl hoffset
        refine ⟨fun hnone => ?_, fun c hc => ?_, fun c hc => ?_, fun w' o hw' ho => ?_⟩
        · cases hnew.symm.trans hnone
        · obtain rfl := Option.some.inj (hnew.symm.trans hc)
          exact (h.torn content hfile).writeAt hin
        · obtain rfl := Option.some.inj (hnew.symm.trans hc)
          obtain ⟨w₁, o₁, hw₁, ho₁, hle, hagree⟩ := h.last content hfile
          by_cases heq : w₁ = w
          · -- the last one to truncate writes on
            subst heq
            obtain rfl : offset = o₁ := Option.some.inj (hoffset.symm.trans ho₁)
            refine ⟨w₁, _, rfl, hown, ?_, fun i hi => agrees_piece hi hagree hle⟩
            rw [length_writeAt]
            omega
          · refine ⟨w₁, o₁, hw₁, (hothers w₁ heq).trans ho₁, ?_, fun i hi => ?_⟩
            · rw [length_writeAt]
              omega
            · exact agrees_writeAt (by omega) (hagree i hi)
        · by_cases heq : w' = w
          · subst heq
            obtain rfl := Option.some.inj (hown.symm.trans ho)
            exact length_piece hin
          · exact h.inside w' o hw' ((hothers w' heq).symm.trans ho)
      · refine h.elsewhere ?_ fun w' hw' => hothers w' (by rintro rfl; exact hw hw')
        rw [hfiles, Function.update_of_ne (Ne.symm hw)]

theorem run_shared (htext : ∀ w, target w = path → text w = t) (h : Shared target path t s)
    (events : List (Event Writer)) : Shared target path t (run target text s events) := by
  induction events generalizing s with
  | nil => exact h
  | cons event events ih =>
    refine ih ?_
    cases event with
    | opened w => exact h.opened w
    | wrote w n => exact h.wrote htext w n

omit [DecidableEq Path] [DecidableEq Writer] in
/-- When all who opened the file are through with their text, it is there. -/
theorem Shared.settled (h : Shared target path t s)
    (hdone : ∀ w offset, target w = path → s.offsets w = some offset → offset = t.length)
    {content : Bytes} (hfile : s.files path = some content) : content = t := by
  obtain ⟨w, offset, hw, hoffset, hle, hagree⟩ := h.last content hfile
  obtain rfl := hdone w offset hw hoffset
  have hlen := (h.torn content hfile).1
  refine List.ext_getElem? fun i => ?_
  by_cases hi : i < t.length
  · exact hagree i hi
  · rw [List.getElem?_eq_none (by omega), List.getElem?_eq_none (by omega)]

end Runs

end Disk
