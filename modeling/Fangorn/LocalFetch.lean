import Fangorn.LocalStore
import Fangorn.IntentBinding

/-! What is found in the file of a document while any number of calls add
documents, and after that: the directory as a store like the shared document. -/

namespace Fangorn

open Rust Scale IntentBinding

namespace LocalDocStore

section Runs

variable {Cid Task : Type} [DecidableEq Task] {store : LocalDocStore} {lib : CidLib Cid}
  {buildCid : Bytes → Cid} {data : Task → Bytes} {s : AddState Cid Task} {d : Bytes}

/-- No two of the documents have the same identifier. -/
def Distinct (lib : CidLib Cid) (buildCid : Bytes → Cid) (data : Task → Bytes) : Prop :=
  ∀ t t', lib.toString (buildCid (data t)) = lib.toString (buildCid (data t')) → data t = data t'

/-- The text of an identifier is one component of a path. -/
def PlainNames (lib : CidLib Cid) : Prop := ∀ cid, (lib.toString cid).head? ≠ some '/'

theorem cidToFilename_inj (hplain : PlainNames lib) {cid cid' : Cid} :
    store.cidToFilename (lib.toString cid) = store.cidToFilename (lib.toString cid') ↔
      lib.toString cid = lib.toString cid' := by
  refine ⟨fun h => ?_, congrArg _⟩
  unfold cidToFilename joinPath at h
  rw [if_neg (hplain cid), if_neg (hplain cid')] at h
  split_ifs at h with hdir
  · exact List.append_cancel_left h
  · exact List.tail_eq_of_cons_eq (List.append_cancel_left h)

theorem run_append (events more : List (AddEvent Task)) :
    run store lib buildCid data (events ++ more) =
      more.foldl (exec store lib buildCid data) (run store lib buildCid data events) :=
  List.foldl_append

theorem run_tracked (events : List (AddEvent Task)) :
    Tracked buildCid data (run store lib buildCid data events) := by
  induction events using List.reverseRecOn with
  | nil => exact fun _ => .called
  | append_singleton events event ih =>
    rw [run_append]
    exact exec_tracked ih event

theorem opened_of_returned {events : List (AddEvent Task)} {t : Task}
    (h : (run store lib buildCid data events).phase t = .returned (.ok (buildCid (data t)))) :
    ((run store lib buildCid data events).disk.offsets t).isSome := by
  have htracked : Tracked buildCid data (run store lib buildCid data events) := run_tracked events
  have htracks := htracked t
  rw [h] at htracks
  generalize (run store lib buildCid data events).disk.offsets t = offset at htracks ⊢
  cases htracks
  rfl

theorem run_shared {path : Str} {text : Bytes}
    (htext : ∀ t, filepath store lib buildCid data t = path → hexEnc data t = text)
    (events : List (AddEvent Task)) : Disk.Shared (filepath store lib buildCid data) path text
      (run store lib buildCid data events).disk := by
  induction events using List.reverseRecOn with
  | nil =>
    exact ⟨fun _ _ _ => rfl, nofun, nofun, nofun⟩
  | append_singleton events event ih =>
    rw [run_append]
    show Disk.Shared _ path text (exec store lib buildCid data _ event).disk
    rcases exec_disk event with hsame | ⟨op, hop⟩
    · rwa [hsame]
    · rw [hop]
      exact Disk.run_shared htext ih [op]

theorem files_isSome {events : List (AddEvent Task)} (more : List (AddEvent Task)) {path : Str}
    (h : ((run store lib buildCid data events).disk.files path).isSome) :
    ((run store lib buildCid data (events ++ more)).disk.files path).isSome := by
  induction more using List.reverseRecOn with
  | nil => rwa [List.append_nil]
  | append_singleton more event ih =>
    rw [← List.append_assoc, run_append]
    show ((exec store lib buildCid data _ event).disk.files path).isSome
    rcases exec_disk event with hsame | ⟨op, hop⟩
    · rwa [hsame]
    · rw [hop]
      exact Disk.exec_files_isSome op ih

theorem fetch_of_some {before after : Str → Option Bytes} {cid : Cid} {content : Bytes}
    (hfound : (before (store.cidToFilename (lib.toString cid))).isSome)
    (hcontent : after (store.cidToFilename (lib.toString cid)) = some content) :
    fetch store lib before after cid =
      match fromUtf8 content, Hex.decode content with
      | some _, some bytes => .ok (some bytes)
      | _, _ => .panic := by
  obtain ⟨old, hold⟩ := Option.isSome_iff_exists.mp hfound
  simp only [fetch]
  rw [hold, hcontent, Option.isNone_some, if_neg Bool.false_ne_true]
  cases hutf : fromUtf8 content with
  | none => simp only [Outcome.expect, Outcome.ok_bind, Outcome.panic_bind, hutf]
  | some hex =>
    obtain rfl := fromUtf8_eq_some.mp hutf
    simp only [Outcome.expect, Outcome.ok_bind, hutf]
    cases Hex.decode (asBytes hex) <;> rfl

theorem fetch_of_none {before after : Str → Option Bytes} {cid : Cid}
    (hnone : before (store.cidToFilename (lib.toString cid)) = none) :
    fetch store lib before after cid = .ok none := by
  simp only [fetch]
  rw [hnone]
  rfl

theorem fetch_hex {before after : Str → Option Bytes} {cid : Cid}
    (hfound : (before (store.cidToFilename (lib.toString cid))).isSome)
    (hcontent : after (store.cidToFilename (lib.toString cid)) = some (asBytes (Hex.text d))) :
    fetch store lib before after cid = .ok (some d) := by
  rw [fetch_of_some hfound hcontent, fromUtf8_asBytes, Hex.asBytes_text, Hex.decode_encode]

theorem fetch_torn {before after : Str → Option Bytes} {cid : Cid} {content : Bytes}
    (hfound : (before (store.cidToFilename (lib.toString cid))).isSome)
    (hcontent : after (store.cidToFilename (lib.toString cid)) = some content)
    (htorn : Disk.Torn (asBytes (Hex.text d)) content) :
    fetch store lib before after cid = .panic ∨
      ∃ part, fetch store lib before after cid = .ok (some part) ∧ part <+: d := by
  rw [fetch_of_some hfound hcontent]
  cases fromUtf8 content with
  | none => exact Or.inl rfl
  | some hex =>
    cases hdecode : Hex.decode content with
    | none => exact Or.inl rfl
    | some part =>
      have hprefix := htorn.prefix_of_notMem (Hex.zero_notMem_of_decode hdecode)
      rw [Hex.asBytes_text] at hprefix
      exact Or.inr ⟨part, rfl, Hex.decode_prefix hprefix hdecode⟩

omit [DecidableEq Task] in
theorem hexEnc_of_filepath (hdistinct : Distinct lib buildCid data) (hplain : PlainNames lib)
    (t : Task) : ∀ t', filepath store lib buildCid data t' = filepath store lib buildCid data t →
      hexEnc data t' = asBytes (Hex.text (data t)) := by
  intro t' hpath
  have hname := (cidToFilename_inj hplain).mp hpath
  rw [hexEnc, hdistinct t' t hname]

variable (hdistinct : Distinct lib buildCid data) (hplain : PlainNames lib)
include hdistinct hplain

theorem document_shared (store : LocalDocStore) (events : List (AddEvent Task)) (t : Task) :
    Disk.Shared (filepath store lib buildCid data) (filepath store lib buildCid data t)
      (asBytes (Hex.text (data t))) (run store lib buildCid data events).disk :=
  run_shared (hexEnc_of_filepath hdistinct hplain t) events

theorem settled_content {store : LocalDocStore} {events : List (AddEvent Task)} {t : Task}
    (hsettled : Settled data (run store lib buildCid data events) (data t)) {content : Bytes}
    (hcontent : (run store lib buildCid data events).disk.files
      (filepath store lib buildCid data t) = some content) :
    content = asBytes (Hex.text (data t)) := by
  refine (document_shared hdistinct hplain store events t).settled
    (fun t' offset hpath hoffset => ?_) hcontent
  have hdata : data t' = data t := hdistinct t' t ((cidToFilename_inj hplain).mp hpath)
  rw [hsettled t' offset hdata hoffset, hexEnc, hdata]

theorem exists_opener {store : LocalDocStore} {events : List (AddEvent Task)} {path : Str}
    {content : Bytes}
    (h : (run store lib buildCid data events).disk.files path = some content) :
    ∃ t offset, filepath store lib buildCid data t = path ∧
      (run store lib buildCid data events).disk.offsets t = some offset := by
  by_cases hpath : ∃ t, filepath store lib buildCid data t = path
  · obtain ⟨t, rfl⟩ := hpath
    obtain ⟨t', offset, ht', hoffset, -⟩ :=
      (document_shared hdistinct hplain store events t).last content h
    exact ⟨t', offset, ht', hoffset⟩
  · have hshared : Disk.Shared (filepath store lib buildCid data) path []
        (run store lib buildCid data events).disk :=
      run_shared (fun t ht => absurd ⟨t, ht⟩ hpath) events
    obtain ⟨t', offset, ht', hoffset, -⟩ := hshared.last content h
    exact ⟨t', offset, ht', hoffset⟩

theorem isSome_of_opened {events : List (AddEvent Task)} {t t' : Task} (hdata : data t' = data t)
    (h : ((run store lib buildCid data events).disk.offsets t').isSome) :
    ((run store lib buildCid data events).disk.files
      (filepath store lib buildCid data t)).isSome := by
  by_contra hno
  have hpath : filepath store lib buildCid data t' = filepath store lib buildCid data t := by
    rw [filepath, hdata, filepath]
  have hclosed := (document_shared hdistinct hplain store events t).unopened
    (Option.not_isSome_iff_eq_none.mp hno) t' hpath
  rw [hclosed] at h
  cases h

/-- Any number of calls add documents, each at its own pace, and stop anywhere.
Who fetches one of the documents finds nothing, or a beginning of it, or fails.
It is found if it had been added, and found whole if nobody is in its midst or
was stopped there. -/
theorem fetch_of_adds (store : LocalDocStore) (events more : List (AddEvent Task)) (t : Task) :
    let result := fetch store lib (run store lib buildCid data events).disk.files
      (run store lib buildCid data (events ++ more)).disk.files (buildCid (data t))
    (result = .ok none ∨ result = .panic ∨ ∃ part, result = .ok (some part) ∧ part <+: data t) ∧
    ((∃ t', data t' = data t ∧ (run store lib buildCid data events).phase t' =
      .returned (.ok (buildCid (data t')))) → result ≠ .ok none) ∧
    (Settled data (run store lib buildCid data (events ++ more)) (data t) →
      result = .ok none ∨ result = .ok (some (data t))) := by
  intro result
  cases hfound : (run store lib buildCid data events).disk.files
      (filepath store lib buildCid data t) with
  | none =>
    have hresult : result = .ok none := fetch_of_none hfound
    refine ⟨Or.inl hresult, ?_, fun _ => Or.inl hresult⟩
    rintro ⟨t', hdata, hreturned⟩
    have hsome := isSome_of_opened hdistinct hplain hdata (opened_of_returned hreturned)
    rw [hfound] at hsome
    cases hsome
  | some old =>
    have hbefore : ((run store lib buildCid data events).disk.files
        (filepath store lib buildCid data t)).isSome := Option.isSome_of_mem hfound
    obtain ⟨content, hcontent⟩ := Option.isSome_iff_exists.mp (files_isSome more hbefore)
    have hshared := document_shared hdistinct hplain store (events ++ more) t
    have hread : result = .panic ∨ ∃ part, result = .ok (some part) ∧ part <+: data t :=
      fetch_torn hbefore hcontent (hshared.torn content hcontent)
    refine ⟨Or.inr hread, fun _ hnone => ?_, fun hsettled => Or.inr ?_⟩
    · rcases hread with hpanic | ⟨part, hpart, -⟩
      · cases hpanic.symm.trans hnone
      · cases hpart.symm.trans hnone
    · exact fetch_hex hbefore (settled_content hdistinct hplain hsettled hcontent ▸ hcontent)

end Runs

def docs : LocalDocStore := ⟨"tmp/docs/".toList⟩

def oneByte (_ : Bool) : Bytes := [1]

/-- The second call truncates what the first one has written. -/
def addedTwice : List (AddEvent Bool) :=
  [.createDir false true, .opens false true, .writes false 2, .finishes false,
    .createDir true true, .opens true true, .writes true 1]

def rewritten : List (AddEvent Bool) := [.writes true 9, .finishes true]

theorem oneByte_distinct : Distinct digestCid sampleSetting.buildCid oneByte := fun _ _ _ => rfl

theorem digestCid_plain : PlainNames digestCid := by
  intro cid
  show some 'f' ≠ some '/'
  decide

theorem rewritten_returned (t : Bool) :
    (run docs digestCid sampleSetting.buildCid oneByte (addedTwice ++ rewritten)).phase t =
      .returned (.ok (sampleSetting.buildCid (oneByte t))) := by
  cases t <;> rfl

theorem rewritten_settled (t : Bool) : Settled oneByte
    (run docs digestCid sampleSetting.buildCid oneByte (addedTwice ++ rewritten)) (oneByte t) := by
  intro t' offset _ hoffset
  have htracked : Tracked sampleSetting.buildCid oneByte
      (run docs digestCid sampleSetting.buildCid oneByte (addedTwice ++ rewritten)) :=
    run_tracked _
  have htracks := htracked t'
  rw [rewritten_returned t', hoffset] at htracks
  cases htracks
  rfl

theorem fetch_of_adds_rewritten :
    fetch docs digestCid
      (run docs digestCid sampleSetting.buildCid oneByte addedTwice).disk.files
      (run docs digestCid sampleSetting.buildCid oneByte (addedTwice ++ rewritten)).disk.files
      (sampleSetting.buildCid [1]) = .ok (some [1]) := by
  obtain ⟨-, hfound, hwhole⟩ := fetch_of_adds oneByte_distinct digestCid_plain docs addedTwice
    rewritten true
  have hreturned : (run docs digestCid sampleSetting.buildCid oneByte addedTwice).phase false =
    .returned (.ok (sampleSetting.buildCid (oneByte false))) := rfl
  rcases hwhole (rewritten_settled true) with hnone | hsome
  · exact absurd hnone (hfound ⟨false, rfl, hreturned⟩)
  · exact hsome

end LocalDocStore

namespace IrohDocStore

variable {Cid : Type} (lib : CidLib Cid) (buildCid : Bytes → Cid)

/-- The shared document after these documents were added, one after the other. -/
def addAll (documents : List Bytes) : Str → Option Bytes :=
  documents.foldl (fun docs d => (add lib buildCid ⟨true, true, true⟩ d docs).2) fun _ => none

theorem addAll_concat (documents : List Bytes) {d : Bytes} (hsize : d.length < 2 ^ 32) :
    ∃ content, Announcement.codec.encode ⟨.doc, d⟩ = some content ∧
      addAll lib buildCid (documents ++ [d]) =
        Function.update (addAll lib buildCid documents) (lib.toString (buildCid d))
          (some content) := by
  obtain ⟨content, hcontent, hadd⟩ :
      ∃ content, Announcement.codec.encode ⟨.doc, d⟩ = some content ∧
        add lib buildCid ⟨true, true, true⟩ d (addAll lib buildCid documents) = _ :=
    add_of_length lib buildCid (addAll lib buildCid documents) hsize rfl
  refine ⟨content, hcontent, ?_⟩
  rw [addAll, List.foldl_concat]
  exact congrArg Prod.snd hadd

variable {lib buildCid}

/-- The shared document as a dictionary of what was added. -/
theorem fetch_addAll {documents : List Bytes} (hsize : ∀ d ∈ documents, d.length < 2 ^ 32)
    (cid : Cid) :
    (∃ d ∈ documents, lib.toString (buildCid d) = lib.toString cid ∧
      fetch lib (fun key => .ok (addAll lib buildCid documents key)) cid = .ok (some d)) ∨
    (∀ d ∈ documents, lib.toString (buildCid d) ≠ lib.toString cid) ∧
      fetch lib (fun key => .ok (addAll lib buildCid documents key)) cid = .ok none := by
  induction documents using List.reverseRecOn with
  | nil => exact Or.inr ⟨nofun, rfl⟩
  | append_singleton documents d ih =>
    rw [List.forall_mem_append, List.forall_mem_singleton] at hsize
    obtain ⟨content, hcontent, hupdate⟩ := addAll_concat lib buildCid documents hsize.2
    rw [hupdate]
    by_cases hkey : lib.toString (buildCid d) = lib.toString cid
    · refine Or.inl ⟨d, List.mem_append_right _ List.mem_cons_self, hkey, ?_⟩
      refine (fetch_eq_some lib).mpr ⟨content, .doc, [], ?_, Codec.decode_encode _ hcontent⟩
      rw [hkey, Function.update_self]
    · have hsame : fetch lib (fun key => .ok (Function.update (addAll lib buildCid documents)
          (lib.toString (buildCid d)) (some content) key)) cid =
          fetch lib (fun key => .ok (addAll lib buildCid documents key)) cid := by
        rw [fetch, fetch, Function.update_of_ne (Ne.symm hkey)]
      rw [hsame]
      rcases ih hsize.1 with ⟨d', hd', hrest⟩ | ⟨hnone, hrest⟩
      · exact Or.inl ⟨d', List.mem_append_left _ hd', hrest⟩
      · refine Or.inr ⟨fun d' hd' => ?_, hrest⟩
        rcases List.mem_append.mp hd' with hd' | hd'
        · exact hnone d' hd'
        · rwa [List.mem_singleton.mp hd']

end IrohDocStore

namespace LocalDocStore

variable {Cid Task : Type} [DecidableEq Task] {lib : CidLib Cid} {buildCid : Bytes → Cid}
  {data : Task → Bytes}

/-- Once nobody is in the middle of a file, in whatever way the calls ran, the
directory answers every `fetch` as the shared document does to which the same
documents were added one after the other. -/
theorem agrees_with_shared (hdistinct : Distinct lib buildCid data) (hplain : PlainNames lib)
    (store : LocalDocStore) (events : List (AddEvent Task))
    (hsettled : ∀ t, Settled data (run store lib buildCid data events) (data t))
    {documents : List Bytes} (hsize : ∀ d ∈ documents, d.length < 2 ^ 32)
    (hadded : ∀ d, d ∈ documents ↔ ∃ t, data t = d ∧
      ((run store lib buildCid data events).disk.offsets t).isSome)
    (cid : Cid) :
    fetch store lib (run store lib buildCid data events).disk.files
        (run store lib buildCid data events).disk.files cid =
      IrohDocStore.fetch lib (fun key => .ok (IrohDocStore.addAll lib buildCid documents key))
        cid := by
  rcases IrohDocStore.fetch_addAll hsize cid with ⟨d, hd, hkey, hfetch⟩ | ⟨hnone, hfetch⟩
  · obtain ⟨t, rfl, hopened⟩ := (hadded d).mp hd
    have hpath : store.cidToFilename (lib.toString cid) = filepath store lib buildCid data t := by
      rw [filepath, hkey]
    have hsome := isSome_of_opened hdistinct hplain rfl hopened
    obtain ⟨content, hcontent⟩ := Option.isSome_iff_exists.mp hsome
    have hdone := settled_content hdistinct hplain (hsettled t) hcontent
    rw [hfetch]
    exact fetch_hex (hpath ▸ hsome) (hpath ▸ hdone ▸ hcontent)
  · rw [hfetch]
    refine fetch_of_none ?_
    by_contra hfile
    obtain ⟨content, hcontent⟩ := Option.ne_none_iff_exists'.mp hfile
    obtain ⟨t, offset, hpath, hoffset⟩ := exists_opener hdistinct hplain hcontent
    exact hnone (data t) ((hadded _).mpr ⟨t, rfl, Option.isSome_of_mem hoffset⟩)
      ((cidToFilename_inj hplain).mp hpath)

theorem agrees_with_shared_rewritten :
    IrohDocStore.fetch digestCid (fun key => .ok (IrohDocStore.addAll digestCid
        sampleSetting.buildCid [[1]] key)) (sampleSetting.buildCid [1]) =
      fetch docs digestCid
        (run docs digestCid sampleSetting.buildCid oneByte (addedTwice ++ rewritten)).disk.files
        (run docs digestCid sampleSetting.buildCid oneByte (addedTwice ++ rewritten)).disk.files
        (sampleSetting.buildCid [1]) := by
  refine (agrees_with_shared oneByte_distinct digestCid_plain docs _ rewritten_settled
    (by decide) (fun d => ?_) (sampleSetting.buildCid [1])).symm
  rw [List.mem_singleton]
  constructor
  · rintro rfl
    exact ⟨true, rfl, opened_of_returned (rewritten_returned true)⟩
  · rintro ⟨t, rfl, -⟩
    rfl

end LocalDocStore

end Fangorn
