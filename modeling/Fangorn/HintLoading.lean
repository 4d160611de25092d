import Fangorn.HintReplication
import Mathlib.Data.List.Perm.Subperm

/-! What a joining node loads of the hints that were published before it
started (`load_previous_hints` and `publish_node_hint` in `node/service.rs`).
The bootstrap node has the index 0. -/

namespace Fangorn

open Rust Scale

namespace HintLoading

/-- `publish_node_hint`: no entry where the encoder panics. -/
def publishNodeHint (index : Nat) (data : Bytes) (doc : Str → Option Bytes) :
    Option (Str → Option Bytes) :=
  (Announcement.codec.encode ⟨.hint, data⟩).map fun value =>
    Function.update doc (indexKey index) (some value)

/-- The entries below our index are the published hints, each under the text
of its index, and there are no others. -/
structure HoldsHints (doc : Str → Option Bytes) (published : Nat → Option Bytes)
    (ourIndex : Nat) : Prop where
  present : ∀ i, i < ourIndex → ∀ data, published i = some data →
    ∃ value, Announcement.codec.encode ⟨.hint, data⟩ = some value ∧
      doc (indexKey i) = some value
  absent : ∀ i, i < ourIndex → published i = none → doc (indexKey i) = none

def hintAt (published : Nat → Option Bytes) (i : Nat) : Option Announcement :=
  (published i).map fun data => ⟨.hint, data⟩

/-- The hint of each published index is sent once, and nothing else is. -/
def LoadsAll (doc : Str → Option Bytes) (published : Nat → Option Bytes) (ourIndex : Nat) : Prop :=
  ∃ sent, loadPreviousHints doc ourIndex = .ok sent ∧
    sent.Perm ((List.range ourIndex).filterMap (hintAt published))

variable {doc doc' : Str → Option Bytes} {published : Nat → Option Bytes} {ourIndex : Nat}

theorem indexKey_injective : Function.Injective indexKey := by
  intro i j h
  simp only [indexKey, Nat.toList_repr] at h
  have hi := Nat.ofDigitChars_toDigits (b := 10) (n := i) (by omega) (by omega)
  rw [h] at hi
  exact hi.symm.trans (Nat.ofDigitChars_toDigits (by omega) (by omega))

theorem holdsHints_empty : HoldsHints (fun _ => none) (fun _ => none) ourIndex where
  present _ _ _ h := by cases h
  absent _ _ _ := rfl

theorem HoldsHints.publish (h : HoldsHints doc published ourIndex) {index : Nat} {data : Bytes}
    (hpub : publishNodeHint index data doc = some doc') :
    HoldsHints doc' (Function.update published index (some data)) ourIndex := by
  obtain ⟨value, henc, rfl⟩ := Option.map_eq_some_iff.mp hpub
  have hother {i : Nat} (hne : i ≠ index) :
      Function.update doc (indexKey index) (some value) (indexKey i) = doc (indexKey i) :=
    Function.update_of_ne (fun he => hne (indexKey_injective he)) _ _
  refine ⟨fun i hi d hd => ?_, fun i hi hd => ?_⟩
  · by_cases he : i = index
    · subst he
      rw [Function.update_self, Option.some.injEq] at hd
      subst hd
      exact ⟨value, henc, Function.update_self ..⟩
    · rw [Function.update_of_ne he] at hd
      rw [hother he]
      exact h.present i hi d hd
  · by_cases he : i = index
    · subst he
      rw [Function.update_self] at hd
      cases hd
    · rw [Function.update_of_ne he] at hd
      rw [hother he]
      exact h.absent i hi hd

theorem read_eq_ok (h : HoldsHints doc published ourIndex) {i : Nat} (hi : i < ourIndex)
    {announcement : Announcement} :
    (∃ content, doc (indexKey i) = some content ∧
      StateSync.decodeAnnouncement content = .ok announcement) ↔
    hintAt published i = some announcement := by
  cases hd : published i with
  | none =>
    simp only [h.absent i hi hd, hintAt, hd, reduceCtorEq, false_and, exists_false, Option.map_none]
  | some data =>
    obtain ⟨value, henc, hread⟩ := h.present i hi data hd
    have hdec : StateSync.decodeAnnouncement value = .ok ⟨.hint, data⟩ := by
      rw [StateSync.decodeAnnouncement, Codec.decode_encode _ henc]
      rfl
    simp only [hread, Option.some.injEq, exists_eq_left', hdec, Outcome.ok.injEq, hintAt, hd,
      Option.map_some]

theorem loadHints_eq_ok (h : HoldsHints doc published ourIndex) {is : List Nat}
    (his : ∀ i ∈ is, i < ourIndex) {sent : List Announcement} :
    loadHints doc is = .ok sent ↔ is.map (hintAt published) = sent.map some := by
  induction is generalizing sent with
  | nil => cases sent <;> simp [loadHints]
  | cons i is ih =>
    rw [List.forall_mem_cons] at his
    simp only [loadHints, Outcome.bind_eq_ok, Outcome.expect_eq_ok, Outcome.ok.injEq]
    constructor
    · intro hh
      obtain ⟨content, hread, announcement, hdec, rest, hrest, rfl⟩ := hh
      have hhint := (read_eq_ok h his.1).mp ⟨content, hread, hdec⟩
      rw [List.map_cons, List.map_cons, hhint, (ih his.2).mp hrest]
    · intro hh
      cases sent with
      | nil => simp at hh
      | cons announcement rest =>
        simp only [List.map_cons, List.cons.injEq] at hh
        obtain ⟨content, hread, hdec⟩ := (read_eq_ok h his.1).mpr hh.1
        exact ⟨content, hread, announcement, hdec, rest, (ih his.2).mpr hh.2, rfl⟩

def publishedBelow (published : Nat → Option Bytes) (ourIndex : Nat) : List Nat :=
  (List.range ourIndex).filter fun i => (published i).isSome

theorem mem_publishedBelow {i : Nat} :
    i ∈ publishedBelow published ourIndex ↔ i < ourIndex ∧ (published i).isSome := by
  simp [publishedBelow]

theorem map_hintAt {is : List Nat} (h : ∀ i ∈ is, (published i).isSome) :
    is.map (hintAt published) = (is.filterMap (hintAt published)).map some := by
  induction is with
  | nil => rfl
  | cons i is ih =>
    rw [List.forall_mem_cons] at h
    obtain ⟨data, hd⟩ := Option.isSome_iff_exists.mp h.1
    have hi : hintAt published i = some ⟨.hint, data⟩ := by rw [hintAt, hd]; rfl
    rw [List.map_cons, List.filterMap_cons_some hi, List.map_cons, hi, ih h.2]

theorem filterMap_publishedBelow :
    (publishedBelow published ourIndex).filterMap (hintAt published) =
      (List.range ourIndex).filterMap (hintAt published) := by
  rw [publishedBelow, List.filterMap_filter]
  refine List.filterMap_congr fun i _ => ?_
  cases hd : published i <;> simp [hintAt, hd]

theorem mem_loop {i : Nat} : i ∈ List.range' 1 (ourIndex % 2 ^ 32 - 1) ↔
    1 ≤ i ∧ i < ourIndex % 2 ^ 32 := by
  rw [List.mem_range'_1]
  omega

theorem lt_of_mem_loop {i : Nat} (h : i ∈ List.range' 1 (ourIndex % 2 ^ 32 - 1)) :
    i < ourIndex :=
  (mem_loop.mp h).2.trans_le (Nat.mod_le _ _)

theorem nodup_publishedBelow : (publishedBelow published ourIndex).Nodup :=
  List.nodup_range.filter _

theorem loop_perm_iff :
    (List.range' 1 (ourIndex % 2 ^ 32 - 1)).Perm (publishedBelow published ourIndex) ↔
      ∀ i, i < ourIndex → ((published i).isSome ↔ 1 ≤ i ∧ i < ourIndex % 2 ^ 32) := by
  have hmod : ourIndex % 2 ^ 32 ≤ ourIndex := Nat.mod_le _ _
  rw [List.perm_ext_iff_of_nodup List.nodup_range' nodup_publishedBelow]
  simp only [mem_loop, mem_publishedBelow]
  constructor
  · intro h i hi
    exact ⟨fun hs => (h i).mpr ⟨hi, hs⟩, fun hs => ((h i).mp hs).2⟩
  · intro h i
    constructor
    · intro hs
      have hi : i < ourIndex := hs.2.trans_le hmod
      exact ⟨hi, (h i hi).mpr hs⟩
    · intro hs
      exact (h i hs.1).mp hs.2

theorem loop_subset {sent : List Announcement}
    (h : (List.range' 1 (ourIndex % 2 ^ 32 - 1)).map (hintAt published) = sent.map some) :
    List.range' 1 (ourIndex % 2 ^ 32 - 1) ⊆ publishedBelow published ourIndex := by
  intro i hi
  have hmem : hintAt published i ∈ sent.map some := h ▸ List.mem_map_of_mem hi
  obtain ⟨announcement, -, ha⟩ := List.mem_map.mp hmem
  refine mem_publishedBelow.mpr ⟨lt_of_mem_loop hi, ?_⟩
  cases hd : published i with
  | none => simp [hintAt, hd] at ha
  | some data => rfl

variable (published ourIndex) in
theorem length_publishedBelow : (publishedBelow published ourIndex).length =
    ((List.range ourIndex).filterMap (hintAt published)).length := by
  have hall : ∀ i ∈ publishedBelow published ourIndex, (published i).isSome := by
    intro i hi
    exact (mem_publishedBelow.mp hi).2
  have h := congrArg List.length (map_hintAt hall)
  rw [filterMap_publishedBelow] at h
  simpa using h

/-- All hints are loaded exactly if the published indices are those that the
loop goes through: not the index 0, and every index from 1 on. -/
theorem loadsAll_iff (h : HoldsHints doc published ourIndex) :
    LoadsAll doc published ourIndex ↔
      ∀ i, i < ourIndex → ((published i).isSome ↔ 1 ≤ i ∧ i < ourIndex % 2 ^ 32) := by
  have hloop : ∀ i ∈ List.range' 1 (ourIndex % 2 ^ 32 - 1), i < ourIndex :=
    fun i => lt_of_mem_loop
  rw [← loop_perm_iff]
  constructor
  · intro hh
    obtain ⟨sent, hload, hperm⟩ := hh
    have hsent := (loadHints_eq_ok h hloop).mp hload
    have hlen := congrArg List.length hsent
    have hbelow := length_publishedBelow published ourIndex
    have hsame := hperm.length_eq
    simp only [List.length_map] at hlen
    have hnodup : (List.range' 1 (ourIndex % 2 ^ 32 - 1)).Nodup := List.nodup_range'
    exact (hnodup.subperm (loop_subset hsent)).perm_of_length_le (by omega)
  · intro hperm
    have hall : ∀ i ∈ List.range' 1 (ourIndex % 2 ^ 32 - 1), (published i).isSome := by
      intro i hi
      exact (mem_publishedBelow.mp (hperm.mem_iff.mp hi)).2
    refine ⟨_, (loadHints_eq_ok h hloop).mpr (map_hintAt hall), ?_⟩
    rw [← filterMap_publishedBelow]
    exact hperm.filterMap _

def oneByteHint (index : Nat) : Bytes := [UInt8.ofNat (16 * index)]

def hintsOf (indices : List Nat) : Nat → Option Bytes :=
  indices.foldr (fun i published => Function.update published i (some (oneByteHint i)))
    fun _ => none

def docOf (indices : List Nat) : Str → Option Bytes :=
  indices.foldr (fun i doc => Function.update doc (indexKey i) (some (1 :: 4 :: oneByteHint i)))
    fun _ => none

theorem holdsHints_docOf (indices : List Nat) :
    HoldsHints (docOf indices) (hintsOf indices) ourIndex := by
  induction indices with
  | nil => exact holdsHints_empty
  | cons i indices ih => exact ih.publish rfl

/-- The hint of the bootstrap node is left out. -/
theorem bootstrap_hint_not_loaded : HoldsHints (docOf [0, 1]) (hintsOf [0, 1]) 2 ∧
    loadPreviousHints (docOf [0, 1]) 2 = .ok [⟨.hint, oneByteHint 1⟩] ∧
    ¬ LoadsAll (docOf [0, 1]) (hintsOf [0, 1]) 2 := by
  have hload : loadPreviousHints (docOf [0, 1]) 2 = .ok [⟨.hint, oneByteHint 1⟩] := by decide
  refine ⟨holdsHints_docOf _, hload, fun h => ?_⟩
  obtain ⟨sent, hsent, hperm⟩ := h
  obtain rfl := Outcome.ok.inj (hload.symm.trans hsent)
  exact absurd hperm.length_eq (by decide)

theorem loadsAll_iff_third : LoadsAll (docOf [1, 2]) (hintsOf [1, 2]) 3 ↔
    ∀ i, i < 3 → ((hintsOf [1, 2] i).isSome ↔ 1 ≤ i ∧ i < 3 % 2 ^ 32) :=
  loadsAll_iff (holdsHints_docOf [1, 2])

end HintLoading

end Fangorn
