import Fangorn.IntentBinding

/-! The shared document as every holder of its write ticket can fill it
(`backend/iroh.rs`), and what a fetch by content identifier is worth. -/

namespace Fangorn

open Rust Scale

structure DocEntry where
  key : Str
  value : Bytes
  deriving DecidableEq, Repr

inductive DocOp where
  | add (data : Bytes) (w : BackendWrite)
  | write (key : Str) (value : Bytes)

/-- A read returns the bytes of an entry that somebody wrote under the key. -/
def Replica (entries : List DocEntry) (read : Str → Outcome Str (Option Bytes)) : Prop :=
  ∀ key value, read key = .ok (some value) → ⟨key, value⟩ ∈ entries

namespace IrohDocStore

variable {Cid : Type} (lib : CidLib Cid) (buildCid : Bytes → Cid)

def entriesOf : DocOp → List DocEntry
  | .add data w =>
    let key := lib.toString (buildCid data)
    (((add lib buildCid w data fun _ => none).2 key).map (DocEntry.mk key)).toList
  | .write key value => [⟨key, value⟩]

def document (ops : List DocOp) : List DocEntry := ops.flatMap (entriesOf lib buildCid)

variable {lib buildCid} {ops : List DocOp} {cid : Cid}

theorem mem_entriesOf_add {data : Bytes} {w : BackendWrite} {entry : DocEntry}
    (h : entry ∈ entriesOf lib buildCid (.add data w)) :
    entry.key = lib.toString (buildCid data) ∧
      Announcement.codec.encode ⟨.doc, data⟩ = some entry.value := by
  simp only [entriesOf, Option.mem_toList, Option.map_eq_some_iff] at h
  obtain ⟨value, hvalue, rfl⟩ := h
  rcases add_cases lib buildCid w data fun _ => none with
    ⟨-, hdocs⟩ | ⟨-, ⟨content, hcontent, hdocs⟩, -⟩
  · rw [hdocs] at hvalue
    cases hvalue
  · rw [hdocs, Function.update_self, Option.some.injEq] at hvalue
    exact ⟨rfl, hvalue ▸ hcontent⟩

/-- A fetch hands on what was written; it never compares it with the identifier. -/
theorem fetch_written {read : Str → Outcome Str (Option Bytes)} {d : Bytes}
    (hread : Replica (document lib buildCid ops) read)
    (h : fetch lib read cid = .ok (some d)) :
    ∃ value tag rest, ⟨lib.toString cid, value⟩ ∈ document lib buildCid ops ∧
      Announcement.codec.decode value = some (⟨tag, d⟩, rest) := by
  obtain ⟨value, tag, rest, hr, hdec⟩ := (fetch_eq_some lib).mp h
  exact ⟨value, tag, rest, hread _ _ hr, hdec⟩

def Authentic (lib : CidLib Cid) (buildCid : Bytes → Cid) (ops : List DocOp) (cid : Cid) : Prop :=
  ∀ read, Replica (document lib buildCid ops) read → ∀ d,
    fetch lib read cid = .ok (some d) → buildCid d = cid

theorem authentic_iff : Authentic lib buildCid ops cid ↔
    ∀ value, ⟨lib.toString cid, value⟩ ∈ document lib buildCid ops → ∀ announcement rest,
      Announcement.codec.decode value = some (announcement, rest) →
        buildCid announcement.data = cid := by
  constructor
  · intro h value hmem announcement rest hdec
    let read : Str → Outcome Str (Option Bytes) := fun key =>
      if key = lib.toString cid then .ok (some value) else .ok none
    have hread : Replica (document lib buildCid ops) read := by
      intro key v hv
      by_cases hkey : key = lib.toString cid
      · simp only [read, hkey, if_true, Outcome.ok.injEq, Option.some.injEq] at hv
        rw [hkey, ← hv]
        exact hmem
      · simp [read, hkey] at hv
    apply h read hread
    exact (fetch_eq_some lib).mpr ⟨value, announcement.tag, rest, if_pos rfl, hdec⟩
  · intro h read hread d hd
    obtain ⟨value, tag, rest, hmem, hdec⟩ := fetch_written hread hd
    exact h value hmem _ rest hdec

theorem authentic_of_adds (hstr : Function.Injective lib.toString)
    (hadds : ∀ op ∈ ops, ∀ entry ∈ entriesOf lib buildCid op, entry.key = lib.toString cid →
      ∃ data w, op = .add data w) : Authentic lib buildCid ops cid := by
  rw [authentic_iff]
  intro value hmem announcement rest hdec
  obtain ⟨op, hop, hentry⟩ := List.mem_flatMap.mp hmem
  obtain ⟨data, w, rfl⟩ := hadds op hop _ hentry rfl
  obtain ⟨hkey, henc⟩ := mem_entriesOf_add hentry
  have hback := Codec.decode_encode _ henc
  rw [hdec, Option.some.injEq, Prod.mk.injEq] at hback
  rw [hback.1]
  exact (hstr hkey).symm

theorem fetch_of_added {data : Bytes} {w : BackendWrite}
    (honly : ∀ value, ⟨lib.toString (buildCid data), value⟩ ∈ document lib buildCid ops →
      ⟨lib.toString (buildCid data), value⟩ ∈ entriesOf lib buildCid (.add data w))
    {read : Str → Outcome Str (Option Bytes)} (hread : Replica (document lib buildCid ops) read)
    {value : Bytes} (hfound : read (lib.toString (buildCid data)) = .ok (some value)) :
    fetch lib read (buildCid data) = .ok (some data) := by
  have henc := (mem_entriesOf_add (honly value (hread _ _ hfound))).2
  exact (fetch_eq_some lib).mpr ⟨value, .doc, [], hfound, Codec.decode_encode _ henc⟩

/-- What a fetch promises: some peer wrote the data under the identifier, and
if only document stores write there, it is the data of the identifier. -/
theorem fetch_as_written (hstr : Function.Injective lib.toString)
    {read : Str → Outcome Str (Option Bytes)} (hread : Replica (document lib buildCid ops) read) :
    (∀ cid d, fetch lib read cid = .ok (some d) →
      (∃ value tag rest, ⟨lib.toString cid, value⟩ ∈ document lib buildCid ops ∧
        Announcement.codec.decode value = some (⟨tag, d⟩, rest)) ∧
      ((∀ op ∈ ops, ∀ entry ∈ entriesOf lib buildCid op, entry.key = lib.toString cid →
        ∃ data w, op = .add data w) → buildCid d = cid)) ∧
    ∀ data w value,
      (∀ v, ⟨lib.toString (buildCid data), v⟩ ∈ document lib buildCid ops →
        ⟨lib.toString (buildCid data), v⟩ ∈ entriesOf lib buildCid (.add data w)) →
      read (lib.toString (buildCid data)) = .ok (some value) →
        fetch lib read (buildCid data) = .ok (some data) := by
  refine ⟨fun cid d hd => ⟨fetch_written hread hd, fun hadds => ?_⟩, ?_⟩
  · exact authentic_of_adds hstr hadds read hread d hd
  · exact fun data w value honly hfound => fetch_of_added honly hread hfound

section Forged

open IntentBinding

def sampleDigest (data : Bytes) : Arr 32 :=
  if data = [1] then documentDigest
  else if data = [2] then
    beArr 32 0xdbc1b4c900ffe48d575b5da5c638040125f65db0fe3e24494b76ea986457d986
  else beArr 32 0

def readFirst (entries : List DocEntry) (key : Str) : Outcome Str (Option Bytes) :=
  .ok ((entries.find? fun entry => entry.key = key).map DocEntry.value)

theorem readFirst_replica (entries : List DocEntry) : Replica entries (readFirst entries) := by
  intro key value h
  simp only [readFirst, Outcome.ok.injEq, Option.map_eq_some_iff] at h
  obtain ⟨entry, hfind, rfl⟩ := h
  have hkey := List.find?_some hfind
  rw [← of_decide_eq_true hkey]
  exact List.mem_of_find?_eq_some hfind

def writes : BackendWrite := ⟨true, true, true⟩

/-- A peer puts other data under the identifier of a ciphertext. -/
theorem forged_entry_fetched :
    fetch digestCid (readFirst (document digestCid sampleDigest
      [.write (digestCid.toString documentDigest) [2, 4, 2]])) documentDigest = .ok (some [2]) ∧
    ¬ Authentic digestCid sampleDigest [.write (digestCid.toString documentDigest) [2, 4, 2]]
      documentDigest := by
  have hfetch : fetch digestCid (readFirst (document digestCid sampleDigest
      [.write (digestCid.toString documentDigest) [2, 4, 2]])) documentDigest =
        .ok (some [2]) := by
    decide
  refine ⟨hfetch, fun h => ?_⟩
  have hcid := h _ (readFirst_replica _) _ hfetch
  revert hcid
  decide

theorem fetch_as_written_own :
    fetch digestCid (readFirst (document digestCid sampleDigest [.add [1] writes])) documentDigest =
      .ok (some [1]) := by
  have hread : Replica (document digestCid sampleDigest [.add [1] writes])
      (readFirst (document digestCid sampleDigest [.add [1] writes])) := readFirst_replica _
  have hown := (fetch_as_written digestCid_toString_injective hread).2 [1] writes [2, 4, 1]
  exact hown (fun v hv => by simpa [document] using hv) (by decide)

end Forged

end IrohDocStore

end Fangorn
