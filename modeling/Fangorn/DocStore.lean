import Fangorn.IntentStore

/-! Ciphertexts in the shared document (`storage/iroh_docstore.rs` over
`backend/iroh.rs`): each is an announcement under the text of its content
identifier. -/

namespace Fangorn

open Rust Scale

inductive Tag where
  | config
  | hint
  | doc
  | systemKeys
  | decryptionRequest
  deriving DecidableEq, Repr

namespace Tag

def index : Tag → UInt8
  | config => 0
  | hint => 1
  | doc => 2
  | systemKeys => 3
  | decryptionRequest => 4

def ofIndex : UInt8 → Option Tag
  | 0 => some config
  | 1 => some hint
  | 2 => some doc
  | 3 => some systemKeys
  | 4 => some decryptionRequest
  | _ => none

theorem ofIndex_eq_some (t : Tag) (n : UInt8) : ofIndex n = some t ↔ t.index = n := by
  unfold ofIndex
  split <;> cases t <;> simp_all [index, eq_comm]

end Tag

structure Announcement where
  tag : Tag
  data : Bytes
  deriving DecidableEq, Repr

namespace Announcement

def codec : Codec Announcement :=
  ((Codec.u8.view Tag.index Tag.ofIndex Tag.ofIndex_eq_some).pair Codec.bytes).view
    (fun a => (a.tag, a.data)) (fun p => some ⟨p.1, p.2⟩)
    (fun a p => by
      obtain ⟨t, d⟩ := a
      obtain ⟨t', d'⟩ := p
      simp [eq_comm])

theorem encode_isSome {tag : Tag} {data : Bytes} :
    (codec.encode ⟨tag, data⟩).isSome ↔ data.length < 2 ^ 32 := by
  simp [codec, Codec.view, Codec.u8]

end Announcement

/-- What becomes of a write of the backend: whether the node has its default
author, whether the entry gets into the document, and whether the call hears of
it. -/
structure BackendWrite where
  author : Bool
  stored : Bool
  reported : Bool

/-- `write` of `backend/iroh.rs`. The author is unwrapped, and a `set_bytes` that
fails may have stored the entry. -/
def IrohBackend.write (w : BackendWrite) (key : Str) (value : Bytes) (doc : Str → Option Bytes) :
    Outcome Str Unit × (Str → Option Bytes) :=
  if !w.author then (.panic, doc)
  else if !w.stored then (.err "set_bytes".toList, doc)
  else
    let doc := Function.update doc key (some value)
    if w.reported then (.ok (), doc) else (.err "set_bytes".toList, doc)

namespace IrohDocStore

variable {Cid : Type} (lib : CidLib Cid)

/-- `buildCid` hashes the data. -/
def add (buildCid : Bytes → Cid) (w : BackendWrite) (data : Bytes) (docs : Str → Option Bytes) :
    Outcome Str Cid × (Str → Option Bytes) :=
  let cid := buildCid data
  match Announcement.codec.encode ⟨.doc, data⟩ with
  | none => (.panic, docs)
  | some content =>
    let (result, docs) := IrohBackend.write w (lib.toString cid) content docs
    (result >>= fun _ => .ok cid, docs)

def fetch (read : Str → Outcome Str (Option Bytes)) (cid : Cid) : Outcome Str (Option Bytes) := do
  let found ← read (lib.toString cid)
  match found with
  | none => .ok none
  | some content => do
    let (announcement, _) ← .okOr "Could not decode the announcement".toList
      (Announcement.codec.decode content)
    .ok (some announcement.data)

section Add

variable (buildCid : Bytes → Cid) (w : BackendWrite) (data : Bytes) (docs : Str → Option Bytes)

/-- The document stays as it is, or the data is in it, whatever the call says. -/
theorem add_cases :
    ((add lib buildCid w data docs).1 = .panic ∨
        w.stored = false ∧ ∃ e, (add lib buildCid w data docs).1 = .err e) ∧
      (add lib buildCid w data docs).2 = docs ∨
    w.stored = true ∧ (∃ content, Announcement.codec.encode ⟨.doc, data⟩ = some content ∧
      (add lib buildCid w data docs).2 =
        Function.update docs (lib.toString (buildCid data)) (some content)) ∧
      ((add lib buildCid w data docs).1 = .ok (buildCid data) ∨
        ∃ e, (add lib buildCid w data docs).1 = .err e) := by
  unfold add IrohBackend.write
  cases hcontent : Announcement.codec.encode ⟨.doc, data⟩ with
  | none => exact Or.inl ⟨Or.inl rfl, rfl⟩
  | some content =>
    obtain ⟨author, stored, reported⟩ := w
    cases author with
    | false => exact Or.inl ⟨Or.inl rfl, rfl⟩
    | true =>
      cases stored with
      | false => exact Or.inl ⟨Or.inr ⟨rfl, _, rfl⟩, rfl⟩
      | true =>
        refine Or.inr ⟨rfl, ⟨content, rfl, ?_⟩, ?_⟩
        · cases reported <;> rfl
        · cases reported with
          | false => exact Or.inr ⟨_, rfl⟩
          | true => exact Or.inl rfl

variable {buildCid w data docs} in
theorem add_eq_ok {cid : Cid} {docs' : Str → Option Bytes}
    (h : add lib buildCid w data docs = (.ok cid, docs')) :
    cid = buildCid data ∧ ∃ content, Announcement.codec.encode ⟨.doc, data⟩ = some content ∧
      docs' = Function.update docs (lib.toString (buildCid data)) (some content) := by
  have hcases := add_cases lib buildCid w data docs
  rw [h] at hcases
  rcases hcases with ⟨hbad | ⟨-, e, herr⟩, -⟩ | ⟨-, hdocs, hok | ⟨e, herr⟩⟩
  · cases hbad
  · cases herr
  · exact ⟨Outcome.ok.inj hok, hdocs⟩
  · cases herr

variable {w data} in
theorem add_of_length (h : data.length < 2 ^ 32) (hauthor : w.author = true) :
    ∃ content, Announcement.codec.encode ⟨.doc, data⟩ = some content ∧
      add lib buildCid w data docs =
        if w.stored then
          (if w.reported then .ok (buildCid data) else .err "set_bytes".toList,
            Function.update docs (lib.toString (buildCid data)) (some content))
        else (.err "set_bytes".toList, docs) := by
  obtain ⟨content, hcontent⟩ := Option.isSome_iff_exists.mp (Announcement.encode_isSome.mpr h)
  refine ⟨content, hcontent, ?_⟩
  obtain ⟨author, stored, reported⟩ := w
  obtain rfl : author = true := hauthor
  rw [add, hcontent]
  cases stored <;> cases reported <;> rfl

variable {data} in
theorem add_of_oversized (h : ¬ data.length < 2 ^ 32) :
    add lib buildCid w data docs = (.panic, docs) := by
  have hnone : Announcement.codec.encode ⟨.doc, data⟩ = none := by
    rw [← Option.not_isSome_iff_eq_none, Announcement.encode_isSome]
    exact h
  rw [add, hnone]

variable {w} in
theorem add_of_no_author (h : w.author = false) :
    add lib buildCid w data docs = (.panic, docs) := by
  unfold add IrohBackend.write
  rw [h]
  cases Announcement.codec.encode ⟨.doc, data⟩ <;> rfl

end Add

theorem fetch_eq_some {read : Str → Outcome Str (Option Bytes)} {cid : Cid} {data : Bytes} :
    fetch lib read cid = .ok (some data) ↔ ∃ content tag rest,
      read (lib.toString cid) = .ok (some content) ∧
      Announcement.codec.decode content = some (⟨tag, data⟩, rest) := by
  simp only [fetch, Outcome.bind_eq_ok]
  constructor
  · intro h
    obtain ⟨found, hr, h⟩ := h
    cases found with
    | none => simp at h
    | some content =>
      simp only [Outcome.bind_eq_ok, Outcome.okOr_eq_ok, Prod.exists, Outcome.ok.injEq,
        Option.some.injEq] at h
      obtain ⟨⟨tag, _⟩, rest, hd, rfl⟩ := h
      exact ⟨content, tag, rest, hr, hd⟩
  · intro h
    obtain ⟨content, tag, rest, hr, hd⟩ := h
    exact ⟨some content, hr, by simp [hd, Outcome.okOr]⟩

theorem fetch_eq_none {read : Str → Outcome Str (Option Bytes)} {cid : Cid} :
    fetch lib read cid = .ok none ↔ read (lib.toString cid) = .ok none := by
  simp only [fetch, Outcome.bind_eq_ok]
  constructor
  · intro h
    obtain ⟨found, hr, h⟩ := h
    cases found with
    | none => exact hr
    | some content => simp [Outcome.bind_eq_ok] at h
  · intro h
    exact ⟨none, h, rfl⟩

end IrohDocStore

end Fangorn
