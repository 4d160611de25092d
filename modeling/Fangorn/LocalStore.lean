import Fangorn.DocStore
import Fangorn.Lib.Disk
import Fangorn.Lib.Hex

/-! Ciphertexts on the local disk (`storage/local_store.rs`): each is kept as
hexadecimal text in a file that is named by its content identifier. An `add`
truncates the file and writes it anew, so that others find it half written. -/

namespace Fangorn

open Rust Scale

/-- `PathBuf::join`. -/
def joinPath (dir name : Str) : Str :=
  if name.head? = some '/' then name
  else if dir = [] ∨ dir.getLast? = some '/' then dir ++ name
  else dir ++ '/' :: name

structure LocalDocStore where
  docsDir : Str

inductive AddPhase (Cid : Type) where
  | called
  | dirEnsured
  | writing
  | returned (result : Outcome Str Cid)

/-- What the operating system does for the call of a task next. -/
inductive AddEvent (Task : Type) where
  | createDir (task : Task) (done : Bool)
  | opens (task : Task) (done : Bool)
  | writes (task : Task) (n : Nat)
  | fails (task : Task)
  | finishes (task : Task)

structure AddState (Cid Task : Type) where
  disk : Disk.State Str Task
  phase : Task → AddPhase Cid

namespace LocalDocStore

section Definitions

variable {Cid Task : Type} [DecidableEq Task] (store : LocalDocStore) (lib : CidLib Cid)
  (buildCid : Bytes → Cid) (data : Task → Bytes)

def cidToFilename (cid : Str) : Str := joinPath store.docsDir cid

/-- The file is looked for before it is read. -/
def fetch (before after : Str → Option Bytes) (cid : Cid) : Outcome Str (Option Bytes) := do
  let filepath := store.cidToFilename (lib.toString cid)
  if (before filepath).isNone then .ok none
  else do
    let content ← .expect (after filepath)
    let ciphertextHex ← .expect (fromUtf8 content)
    let ciphertextBytes ← .expect (Hex.decode (asBytes ciphertextHex))
    .ok (some ciphertextBytes)

def filepath (t : Task) : Str := store.cidToFilename (lib.toString (buildCid (data t)))

def hexEnc (t : Task) : Bytes := asBytes (Hex.text (data t))

def start : AddState Cid Task where
  disk := ⟨fun _ => none, fun _ => none⟩
  phase _ := .called

/-- `add` and `write_to_disk`, one operation on the file system after the other. -/
def exec (s : AddState Cid Task) : AddEvent Task → AddState Cid Task
  | .createDir t done =>
    match s.phase t with
    | .called =>
      let next := if done then .dirEnsured else .returned (.err "create_dir_all".toList)
      { s with phase := Function.update s.phase t next }
    | _ => s
  | .opens t done =>
    match s.phase t with
    | .dirEnsured =>
      if done then
        { disk := Disk.exec (filepath store lib buildCid data) (hexEnc data) s.disk (.opened t)
          phase := Function.update s.phase t .writing }
      else { s with phase := Function.update s.phase t (.returned .panic) }
    | _ => s
  | .writes t n =>
    match s.phase t with
    | .writing =>
      { s with
        disk := Disk.exec (filepath store lib buildCid data) (hexEnc data) s.disk (.wrote t n) }
    | _ => s
  | .fails t =>
    match s.phase t with
    | .writing => { s with phase := Function.update s.phase t (.returned .panic) }
    | _ => s
  | .finishes t =>
    match s.phase t with
    | .writing =>
      if s.disk.offsets t = some (hexEnc data t).length then
        { s with phase := Function.update s.phase t (.returned (.ok (buildCid (data t)))) }
      else s
    | _ => s

def run (events : List (AddEvent Task)) : AddState Cid Task :=
  events.foldl (exec store lib buildCid data) start

/-- Nobody is in the middle of the file of this document, or was stopped there:
who has opened it has written all of it. -/
def Settled (s : AddState Cid Task) (d : Bytes) : Prop :=
  ∀ t offset, data t = d → s.disk.offsets t = some offset → offset = (hexEnc data t).length

inductive Tracks (cid : Cid) (length : Nat) : AddPhase Cid → Option Nat → Prop
  | called : Tracks cid length .called none
  | dirEnsured : Tracks cid length .dirEnsured none
  | refused (e : Str) : Tracks cid length (.returned (.err e)) none
  | unopened : Tracks cid length (.returned .panic) none
  | writing (offset : Nat) : Tracks cid length .writing (some offset)
  | stopped (offset : Nat) : Tracks cid length (.returned .panic) (some offset)
  | added : Tracks cid length (.returned (.ok cid)) (some length)

def Tracked (s : AddState Cid Task) : Prop :=
  ∀ t, Tracks (buildCid (data t)) (hexEnc data t).length (s.phase t) (s.disk.offsets t)

end Definitions

section Steps

variable {Cid Task : Type} [DecidableEq Task] {store : LocalDocStore} {lib : CidLib Cid}
  {buildCid : Bytes → Cid} {data : Task → Bytes} {s : AddState Cid Task}

/-- On the disk an event is one operation of its task, or none. -/
theorem exec_disk (event : AddEvent Task) :
    (exec store lib buildCid data s event).disk = s.disk ∨
      ∃ op, (exec store lib buildCid data s event).disk =
        Disk.exec (filepath store lib buildCid data) (hexEnc data) s.disk op := by
  cases event with
  | createDir t done =>
    simp only [exec]
    split <;> exact Or.inl rfl
  | opens t done =>
    simp only [exec]
    split
    · cases done
      · exact Or.inl rfl
      · exact Or.inr ⟨.opened t, rfl⟩
    · exact Or.inl rfl
  | writes t n =>
    simp only [exec]
    split
    · exact Or.inr ⟨.wrote t n, rfl⟩
    · exact Or.inl rfl
  | fails t =>
    simp only [exec]
    split <;> exact Or.inl rfl
  | finishes t =>
    simp only [exec]
    split
    · split_ifs <;> exact Or.inl rfl
    · exact Or.inl rfl

theorem tracked_update {t : Task} {disk : Disk.State Str Task} {next : AddPhase Cid}
    (h : Tracked buildCid data s) (hothers : ∀ t', t' ≠ t → disk.offsets t' = s.disk.offsets t')
    (ht : Tracks (buildCid (data t)) (hexEnc data t).length next (disk.offsets t)) :
    Tracked buildCid data ⟨disk, Function.update s.phase t next⟩ := by
  intro t'
  dsimp only
  by_cases heq : t' = t
  · subst heq
    rwa [Function.update_self]
  · rw [Function.update_of_ne heq, hothers t' heq]
    exact h t'

theorem exec_tracked (h : Tracked buildCid data s) (event : AddEvent Task) :
    Tracked buildCid data (exec store lib buildCid data s event) := by
  cases event with
  | createDir t done =>
    have ht := h t
    simp only [exec]
    split
    case h_2 => exact h
    case h_1 hcalled =>
      refine tracked_update h (fun _ _ => rfl) ?_
      rw [hcalled] at ht
      generalize s.disk.offsets t = offset at ht
      cases ht
      cases done
      · exact .refused _
      · exact .dirEnsured
  | opens t done =>
    have ht := h t
    simp only [exec]
    split
    case h_2 => exact h
    case h_1 hready =>
      cases done with
      | false =>
        refine tracked_update h (fun _ _ => rfl) ?_
        rw [hready] at ht
        generalize s.disk.offsets t = offset at ht
        cases ht
        exact .unopened
      | true =>
        refine tracked_update h (fun t' hne => (Disk.exec_offsets_of_ne hne 0).1) ?_
        have hopened : (Disk.exec (filepath store lib buildCid data) (hexEnc data) s.disk
          (.opened t)).offsets t = some 0 := by simp [Disk.exec]
        rw [hopened]
        exact .writing 0
  | writes t n =>
    have ht := h t
    simp only [exec]
    split
    case h_2 => exact h
    case h_1 hwriting =>
      have hsame : s.phase = Function.update s.phase t .writing := by
        rw [← hwriting, Function.update_eq_self]
      have hsome : (s.disk.offsets t).isSome := by
        rw [hwriting] at ht
        generalize s.disk.offsets t = offset at ht
        cases ht
        rfl
      have hwrote : ((Disk.exec (filepath store lib buildCid data) (hexEnc data) s.disk
        (.wrote t n)).offsets t).isSome := Disk.exec_wrote_isSome hsome
      obtain ⟨offset, hoffset⟩ := Option.isSome_iff_exists.mp hwrote
      rw [hsame]
      refine tracked_update h (fun t' hne => (Disk.exec_offsets_of_ne hne n).2) ?_
      rw [hoffset]
      exact .writing offset
  | fails t =>
    have ht := h t
    simp only [exec]
    split
    case h_2 => exact h
    case h_1 hwriting =>
      refine tracked_update h (fun _ _ => rfl) ?_
      rw [hwriting] at ht
      generalize s.disk.offsets t = offset at ht
      cases ht with
      | writing offset => exact .stopped offset
  | finishes t =>
    simp only [exec]
    split
    case h_2 => exact h
    case h_1 hwriting =>
      split_ifs with hall
      · refine tracked_update h (fun _ _ => rfl) ?_
        rw [hall]
        exact .added
      · exact h

end Steps

end LocalDocStore

end Fangorn
