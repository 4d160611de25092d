import Fangorn.StartupRuns
import Fangorn.HintLoading

/-! Where a node can fail in the steps of its start that use the document, in
every state that a run leads to, and what becomes of the hint that it
publishes. -/

namespace Fangorn

open Rust Scale

namespace Startup

section Calls

variable {Config PublicKey α : Type} {m : Member Config PublicKey}
  {call : Member.Call Config PublicKey α} {stage : Stage} {write : BackendWrite} {key : Str}
  {a : Announcement}

def Succeeds (write : BackendWrite) : Prop :=
  write.author = true ∧ write.stored = true ∧ write.reported = true

theorem Posts.up {E : Entry → Prop} {A : Announcement → Prop} (h : Posts E A call) :
    (call m).2.up = m.up := by
  obtain ⟨entries, announcements, -, -, hm⟩ := h m
  rw [hm]
  rfl

theorem settle_up {E : Entry → Prop} {A : Announcement → Prop} (h : Posts E A call)
    (hup : m.up = true) :
    (m.settle call (Member.reach stage)).up = true ↔ ∃ b, (call m).1 = .ok b := by
  have hkeeps := h.up (m := m)
  rw [Member.settle]
  rcases hcall : call m with ⟨o, m'⟩
  rw [hcall] at hkeeps
  cases o with
  | ok b =>
    exact ⟨fun _ => ⟨b, rfl⟩, fun _ => hkeeps.trans hup⟩
  | err e => simp
  | panic => simp

theorem setBytes_ok : (∃ b, (Member.setBytes write key a m).1 = .ok b) ↔
    Succeeds write ∧ (Announcement.codec.encode a).isSome := by
  unfold Member.setBytes Succeeds
  cases write.author <;> cases write.stored <;> cases write.reported <;>
    cases Announcement.codec.encode a <;> simp

theorem setBytes_stored {value : Bytes} (hauthor : write.author = true)
    (hstored : write.stored = true) (henc : Announcement.codec.encode a = some value) :
    (Member.setBytes write key a m).2 = m.post [⟨key, value⟩] [] := by
  unfold Member.setBytes
  simp [hauthor, hstored, henc]

theorem settle_keeps : (m.settle call (Member.reach stage)).replica = (call m).2.replica ∧
    (m.settle call (Member.reach stage)).sync = (call m).2.sync := by
  rw [Member.settle]
  rcases call m with ⟨o, m'⟩
  cases o <;> exact ⟨rfl, rfl⟩

theorem sendAll_ok (h : m.sync.applying = true) (announcements : List Announcement) :
    (Member.sendAll announcements m).1 = .ok () := by
  induction announcements generalizing m with
  | nil => rfl
  | cons a rest ih =>
    rw [Member.sendAll, Action.bind_of_ok (send_ok h)]
    exact ih h

end Calls

section Definitions

variable {ι Config PublicKey SystemKeys : Type} [DecidableEq ι]
  (lib : CommitteeLib ι Config PublicKey SystemKeys) (drawn : Config)

/-- When each step of a start goes well, and what waits in the channel when a
config or a hint that it asks for is not there. -/
structure Startable (node : ι) (m : Member Config PublicKey) : Prop where
  join : m.stage = .built → ∀ opened write,
    (m.exec lib node (.join opened write)).up = true ↔ opened = true ∧
      (node = lib.bootstrap → Succeeds write ∧
        (Announcement.codec.encode ⟨.config, lib.config⟩).isSome)
  configure : m.stage = .syncing → ∀ found, (∀ e ∈ found, e ∈ m.replica ∧ e.key = configKey) →
    ((m.exec lib node (.configure found)).up = true ↔ found.isSome)
  load : m.stage = .configured → ∀ found, (∀ e ∈ found, e ∈ m.replica) →
    ((m.exec lib node (.load found)).up = true ↔ node = lib.bootstrap ∨
      ∀ i ∈ List.range' 1 (lib.index node % 2 ^ 32 - 1), ∃ e ∈ found, e.key = indexKey i)
  announce : m.stage = .loaded → ∀ vault,
    ((m.exec lib node (.announce vault)).up = true ↔
      vault = true ∧ m.sync.state.config ≠ none)
  publish : m.stage = .sent → ∀ write,
    ((m.exec lib node (.publish write)).up = true ↔ Succeeds write)
  gather : m.stage = .announced → node = lib.bootstrap → m.pending = none →
    ((m.exec lib node .gather).up = true ↔ m.sync.state.config ≠ none ∧
      m.sync.state.hints ≠ none ∧ (2 ≤ m.sync.state.hintList.length →
        ((lib.keys.new m.sync.state.hintList drawn).bind lib.keys.serialize).isSome))
  store : m.stage = .announced → ∀ bytes, m.pending = some bytes → ∀ env left,
    ((m.exec lib node (.store env left)).up = true ↔ env.fileWritten = true ∧
      env.author = true ∧ env.stored = true ∧ env.reported = true ∧ bytes.length < 2 ^ 32)
  config_waits : m.stage ≠ .built → m.stage ≠ .joined → m.stage ≠ .syncing →
    m.sync.state.config = none → ∃ a ∈ m.sync.queue, a.tag = .config
  hint_waits : m.HasAnnounced → m.sync.state.hints = none →
    ∃ a ∈ m.sync.queue, a.tag = .hint

/-- The newest entry of a replica under each key. -/
def latest (replica : List Entry) : Str → Option Bytes := Member.readFrom replica.reverse

end Definitions

section Steps

variable {ι Config PublicKey SystemKeys : Type} [DecidableEq ι]
  {lib : CommitteeLib ι Config PublicKey SystemKeys} {drawn : Config} {w : World ι PublicKey}
  {m : Member Config PublicKey} {node : ι}

theorem Sound.join_up (h : Sound lib drawn w m) (hup : m.up = true) (hstage : m.stage = .built)
    (opened : Bool) (write : BackendWrite) :
    (m.exec lib node (.join opened write)).up = true ↔ opened = true ∧
      (node = lib.bootstrap → Succeeds write ∧
        (Announcement.codec.encode ⟨.config, lib.config⟩).isSome) := by
  simp only [Member.exec]
  rw [if_pos ⟨hup, hstage⟩, settle_up (setupDocumentStream_posts lib drawn w node opened write) hup]
  unfold Member.setupDocumentStream
  cases opened with
  | false => simp [Action.lift]
  | true =>
    by_cases hboot : node = lib.bootstrap
    · simp only [Bool.not_true, Bool.false_eq_true, if_false, if_true, true_and, hboot,
        true_implies]
      rw [Action.bind_of_ok (send_ok h.clean.applying)]
      exact setBytes_ok
    · simp [hboot, Action.lift]

theorem Sound.configure_up (h : Sound lib drawn w m) (hup : m.up = true)
    (hstage : m.stage = .syncing) {found : Option Entry}
    (hfound : ∀ e ∈ found, e ∈ m.replica ∧ e.key = configKey) :
    (m.exec lib node (.configure found)).up = true ↔ found.isSome := by
  simp only [Member.exec]
  rw [if_pos ⟨hup, hstage, hfound⟩]
  cases found with
  | none =>
    have hpanics : Member.loadAndDistributeConfig none m = (.panic, m) :=
      Action.bind_of_panic rfl
    rw [Option.map_none, settle_of_panic hpanics]
    simp
  | some e =>
    obtain ⟨a, -, hok⟩ := load_ok h.clean (hfound e rfl).1
    rw [Option.map_some, settle_of_ok hok]
    exact ⟨fun _ => rfl, fun _ => hup⟩

omit [DecidableEq ι] in
theorem loadHints_ok {read : Str → Option Bytes} {is : List Nat}
    (hread : ∀ key value, read key = some value → Holds lib drawn w key value) :
    (∃ announcements, loadHints read is = .ok announcements) ↔
      ∀ i ∈ is, ∃ value, read (indexKey i) = some value := by
  induction is with
  | nil => simp [loadHints]
  | cons i is ih =>
    rw [List.forall_mem_cons, ← ih]
    constructor
    · rintro ⟨announcements, hload⟩
      simp only [loadHints, Outcome.bind_eq_ok, Outcome.expect_eq_ok] at hload
      obtain ⟨content, hcontent, -, -, rest, hrest, -⟩ := hload
      exact ⟨⟨content, hcontent⟩, rest, hrest⟩
    · rintro ⟨⟨value, hvalue⟩, rest, hrest⟩
      obtain ⟨a, -, -, hdecode⟩ := (hread _ _ hvalue).decode
      refine ⟨a :: rest, ?_⟩
      simp [loadHints, hvalue, Outcome.expect, hdecode, hrest]

theorem readFrom_isSome {found : List Entry} {key : Str} :
    (∃ value, Member.readFrom found key = some value) ↔ ∃ e ∈ found, e.key = key := by
  rw [← Option.isSome_iff_exists, Member.readFrom, Option.isSome_map, List.find?_isSome]
  simp

theorem Sound.load_up (h : Sound lib drawn w m) (hup : m.up = true)
    (hstage : m.stage = .configured) {found : List Entry}
    (hfound : ∀ e ∈ found, e ∈ m.replica) :
    (m.exec lib node (.load found)).up = true ↔ node = lib.bootstrap ∨
      ∀ i ∈ List.range' 1 (lib.index node % 2 ^ 32 - 1), ∃ e ∈ found, e.key = indexKey i := by
  simp only [Member.exec]
  rw [if_pos ⟨hup, hstage, hfound⟩,
    settle_up (loadPrevious_posts node h.clean hfound) hup]
  unfold Member.loadPrevious
  by_cases hboot : node = lib.bootstrap
  · simp [hboot, Action.lift]
  · rw [if_neg hboot, or_iff_right hboot]
    simp only [← readFrom_isSome]
    rw [← loadHints_ok fun _ _ hvalue => readFrom_holds h.clean hfound hvalue]
    constructor
    · rintro ⟨b, hb⟩
      rw [loadPreviousHints] at hb
      rcases hload : loadHints (Member.readFrom found)
        (List.range' 1 (lib.index node % 2 ^ 32 - 1)) with announcements | e | _
      · exact ⟨announcements, rfl⟩
      · rw [hload] at hb
        cases hb
      · rw [hload] at hb
        cases hb
    · rintro ⟨announcements, hload⟩
      have hread : (Action.lift (loadPreviousHints (Member.readFrom found) (lib.index node)) :
          Member.Call Config PublicKey _) m = (.ok announcements, m) := by
        rw [loadPreviousHints, hload]
        rfl
      rw [Action.bind_of_ok hread]
      exact ⟨(), sendAll_ok h.clean.applying announcements⟩

theorem Sound.announce_up (h : Sound lib drawn w m) (hup : m.up = true)
    (hstage : m.stage = .loaded) (vault : Bool) :
    (m.exec lib node (.announce vault)).up = true ↔
      vault = true ∧ m.sync.state.config ≠ none := by
  simp only [Member.exec]
  rw [if_pos ⟨hup, hstage⟩]
  rcases hconfig : m.sync.state.config with - | config
  · rw [settle_of_panic (sendNodeHint_of_unconfigured hconfig vault)]
    simp
  · cases vault with
    | false =>
      rw [settle_of_panic (sendNodeHint_of_locked)]
      simp
    | true =>
      rw [settle_of_ok (sendNodeHint_ok hconfig h.clean.applying)]
      exact ⟨fun _ => ⟨rfl, by simp⟩, fun _ => hup⟩

theorem Sound.publish_up (hlib : lib.Correct drawn) (h : Sound lib drawn w m) (hup : m.up = true)
    (hstage : m.stage = .sent) (write : BackendWrite) :
    (m.exec lib node (.publish write)).up = true ↔ Succeeds write := by
  obtain ⟨⟨key, a⟩, hwriting⟩ := Option.ne_none_iff_exists'.mp (h.placed.writing hstage)
  obtain ⟨n, -, -, rfl⟩ := h.clean.writing key a hwriting
  simp only [Member.exec, hwriting]
  rw [if_pos ⟨hup, hstage⟩,
    settle_up (.setBytes (E := fun _ => True) (A := fun _ => True) fun _ _ => trivial)
      hup, setBytes_ok]
  exact and_iff_left (Announcement.encode_isSome.mpr (hlib.short _))

theorem Sound.gather_up (h : Sound lib drawn w m) (hup : m.up = true)
    (hstage : m.stage = .announced) (hboot : node = lib.bootstrap) (hpending : m.pending = none) :
    (m.exec lib node .gather).up = true ↔ m.sync.state.config ≠ none ∧
      m.sync.state.hints ≠ none ∧ (2 ≤ m.sync.state.hintList.length →
        ((lib.keys.new m.sync.state.hintList drawn).bind lib.keys.serialize).isSome) := by
  simp only [Member.exec]
  rw [if_pos ⟨hup, hboot, Or.inl hstage, hpending⟩]
  have hnever : m.stage ≠ .serving := by simp [hstage]
  unfold Member.gather gatherKeys
  rcases hconfig : m.sync.state.config with - | config
  · simp [Outcome.okOr, hnever]
  · obtain rfl := h.clean.config config hconfig
    rcases hhints : m.sync.state.hints with - | hints
    · simp [Outcome.okOr, hnever]
    · have hlist : m.sync.state.hintList = hints := by
        rw [State.hintList, hhints]
        rfl
      rw [hlist]
      by_cases hlen : hints.length ≤ 1
      · have hfew : ¬ 2 ≤ hints.length := by omega
        simp [Outcome.okOr, hlen, hfew, Member.serving, hup]
      · have hmany : 2 ≤ hints.length := by omega
        rcases hkeys : lib.keys.new hints config with - | systemKeys
        · simp [Outcome.okOr, hlen, hmany, hkeys, hnever]
        · rcases hserialize : lib.keys.serialize systemKeys with - | bytes
          · simp [Outcome.okOr, hlen, hmany, hkeys, hserialize, hnever]
          · simp [Outcome.okOr, hlen, hmany, hkeys, hserialize, hup]

theorem Sound.store_up (h : Sound lib drawn w m) (hup : m.up = true)
    (hstage : m.stage = .announced) {bytes : Bytes} (hpending : m.pending = some bytes)
    (env : PublishEnv) (left : Option Bytes) :
    (m.exec lib node (.store env left)).up = true ↔ env.fileWritten = true ∧
      env.author = true ∧ env.stored = true ∧ env.reported = true ∧ bytes.length < 2 ^ 32 := by
  have hnever : m.stage ≠ .serving := by simp [hstage]
  simp only [Member.exec, hpending]
  have hshort : bytes.length < 2 ^ 32 ↔
      (Announcement.codec.encode ⟨.systemKeys, bytes⟩).isSome := Announcement.encode_isSome.symm
  rw [if_pos ⟨hup, Or.inl hstage⟩, Member.store, hshort]
  unfold storeKeys
  rw [h.clean.applying]
  cases env.fileWritten
  · simp [hnever]
  · cases env.author
    · simp [hnever]
    · cases henc : Announcement.codec.encode ⟨.systemKeys, bytes⟩ with
      | none => simp [hnever, henc]
      | some content =>
        cases env.stored
        · simp [hnever, henc]
        · cases env.reported <;> simp [hnever, henc, Member.serving, Member.post, hup]

omit [DecidableEq ι] in
theorem latest_concat {replica : List Entry} {key : Str} {value : Bytes} :
    latest (replica ++ [⟨key, value⟩]) = Function.update (latest replica) key (some value) := by
  funext k
  rw [latest, List.reverse_append, List.reverse_singleton, List.singleton_append,
    Member.readFrom]
  by_cases hk : k = key
  · subst hk
    simp
  · rw [List.find?_cons_of_neg (by simpa using Ne.symm hk), Function.update_of_ne hk]
    rfl

variable (lib node) in
theorem publish_stored {key : Str} {a : Announcement} {value : Bytes} {write : BackendWrite}
    (hup : m.up = true) (hstage : m.stage = .sent) (hwriting : m.writing = some (key, a))
    (hauthor : write.author = true) (hstored : write.stored = true)
    (henc : Announcement.codec.encode a = some value) :
    (m.exec lib node (.publish write)).replica = m.replica ++ [⟨key, value⟩] ∧
      (m.exec lib node (.publish write)).sync.queue = m.sync.queue ∧
      (m.exec lib node (.publish write)).sync.state = m.sync.state := by
  simp only [Member.exec, hwriting]
  rw [if_pos ⟨hup, hstage⟩, settle_keeps.1, settle_keeps.2, setBytes_stored hauthor hstored henc]
  exact ⟨rfl, List.append_nil _, rfl⟩

/-- The two steps on the hint are a publication to the document and to the node's
own channel, also when the write is not reported. -/
theorem announce_publish (h : Sound lib drawn w m) (hup : m.up = true) (hstage : m.stage = .loaded)
    (hconfig : m.sync.state.config ≠ none) {write : BackendWrite} (hauthor : write.author = true)
    (hstored : write.stored = true) {id : PublicKey → Nat} (hint : PublishedHint lib.state id)
    (hindex : hint.index = lib.index node) (hdata : hint.data = lib.serialize (lib.pk node drawn))
    (published delivered : List (PublishedHint lib.state id)) :
    let m' := (m.exec lib node (.announce true)).exec lib node (.publish write)
    HintLoading.publishNodeHint hint.index hint.data (latest m.replica) =
        some (latest m'.replica) ∧
      HintNode.Step lib.state id ⟨published, delivered, m.sync.queue, m.sync.state⟩
        ⟨published ++ [hint], delivered ++ [hint], m'.sync.queue, m'.sync.state⟩ := by
  obtain ⟨config, hconfig⟩ := Option.ne_none_iff_exists'.mp hconfig
  obtain rfl := h.clean.config config hconfig
  have hannounce : m.exec lib node (.announce true) =
      { m.post [] [hint.announcement] with
        stage := .sent, writing := some (indexKey (lib.index node), hint.announcement) } := by
    simp only [Member.exec]
    rw [if_pos ⟨hup, hstage⟩, settle_of_ok (sendNodeHint_ok hconfig h.clean.applying), ← hdata]
    rfl
  obtain ⟨hreplica, hqueue, hstate⟩ := publish_stored lib node
    (m := { m.post [] [hint.announcement] with
      stage := .sent, writing := some (indexKey (lib.index node), hint.announcement) })
    hup rfl rfl hauthor hstored hint.encoded
  intro m'
  have hm' : m' = Member.exec lib node _ (.publish write) := congrArg (Member.exec lib node · _)
    hannounce
  rw [hm', hreplica, hqueue, hstate, HintLoading.publishNodeHint, hint.encoded]
  simp only [Member.post, List.append_nil, latest_concat, hindex]
  exact ⟨rfl, .publishOwn hint ⟨published, delivered, m.sync.queue, m.sync.state⟩⟩

/-- Each step of a start that uses the document goes well in every state that a
run leads to, if the calls that it makes do and what it reads is there. -/
theorem startable_run (hlib : lib.Correct drawn) (events : List (Event ι)) (node : ι)
    (hup : (run lib events node).up = true) :
    Startable lib drawn node (run lib events node) where
  join hstage := (sound_run hlib events node).join_up hup hstage
  configure hstage _ hfound := (sound_run hlib events node).configure_up hup hstage hfound
  load hstage _ hfound := (sound_run hlib events node).load_up hup hstage hfound
  announce hstage := (sound_run hlib events node).announce_up hup hstage
  publish hstage := (sound_run hlib events node).publish_up hlib hup hstage
  gather hstage hboot hpending :=
    (sound_run hlib events node).gather_up hup hstage hboot hpending
  store hstage _ hpending := (sound_run hlib events node).store_up hup hstage hpending
  config_waits hb hj hs hnone :=
    ((sound_run hlib events node).placed.configured hb hj hs).resolve_left fun h => h hnone
  hint_waits ha hnone := by
    refine ((sound_run hlib events node).placed.hinted ha).resolve_left fun h => h ?_
    rw [State.hintList, hnone]
    rfl

theorem startable_run_two :
    (run sampleCommittee (sampleStart.take 6) 0).stage = .loaded ∧
    Startable sampleCommittee 9 0 (run sampleCommittee (sampleStart.take 6) 0) :=
  ⟨by decide, startable_run sampleCommittee_correct _ 0 (by decide)⟩

end Steps

end Startup

end Fangorn
