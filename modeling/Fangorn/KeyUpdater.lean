import Fangorn.NodeState
import Mathlib.Logic.Relation

/-! The task of the bootstrap node that republishes the system keys when hints
arrive (`spawn_system_keys_updater` and `publish_system_keys` in
`node/service.rs`), step by step beside the task that applies announcements. -/

namespace Fangorn

open Rust

/-- `SystemPublicKeys::new` with `k = 1`, and its serialisation. -/
structure KeyLib (Config PublicKey SystemKeys : Type) where
  new : List PublicKey → Config → Option SystemKeys
  serialize : SystemKeys → Option Bytes

/-- Where `publish_system_keys` writes: a local file, the channel of the node's
own announcements, and the entry of the document under the key of system keys. -/
structure Published where
  file : Option Bytes
  sent : List Announcement
  entry : Option Bytes

/-- How the calls of one attempt end. A `set_bytes` that fails may have stored. -/
structure PublishEnv where
  fileWritten : Bool
  channelOpen : Bool
  author : Bool
  stored : Bool
  reported : Bool

section Publish

variable {Config PublicKey SystemKeys : Type} (keyLib : KeyLib Config PublicKey SystemKeys)

/-- The part that holds the lock: nothing to publish for fewer than two hints. -/
def gatherKeys (state : State Config PublicKey) : Outcome Unit (Option Bytes) := do
  let config ← .okOr () state.config
  let hints ← .okOr () state.hints
  if hints.length ≤ 1 then .ok none
  else do
    let systemKeys ← .okOr () (keyLib.new hints config)
    let bytes ← .okOr () (keyLib.serialize systemKeys)
    .ok (some bytes)

def storeKeys (env : PublishEnv) (bytes : Bytes) (out : Published) :
    Outcome Unit Unit × Published :=
  if !env.fileWritten then (.panic, out)
  else
    let out := { out with file := some bytes }
    if !env.channelOpen then (.err (), out)
    else
      let announcement : Announcement := ⟨.systemKeys, bytes⟩
      let out := { out with sent := out.sent ++ [announcement] }
      if !env.author then (.err (), out)
      else
        match Announcement.codec.encode announcement with
        | none => (.panic, out)
        | some content =>
          if !env.stored then (.err (), out)
          else
            let out := { out with entry := some content }
            if env.reported then (.ok (), out) else (.err (), out)

end Publish

inductive Phase where
  | head
  | counted (currentHintCount : Nat)
  | gathered (currentHintCount : Nat) (bytes : Bytes)
  | stopped
  deriving DecidableEq, Repr

structure Updater (Config PublicKey : Type) where
  state : State Config PublicKey
  lastHintCount : Nat
  phase : Phase
  out : Published

namespace Updater

variable {Config PublicKey SystemKeys : Type}

/-- The count is taken under one lock, which is released before publishing. -/
def count (u : Updater Config PublicKey) : Updater Config PublicKey :=
  let currentHintCount := u.state.hintList.length
  if u.lastHintCount < currentHintCount then { u with phase := .counted currentHintCount }
  else { u with phase := .head }

section Steps

variable (lib : StateLib Config PublicKey) (keyLib : KeyLib Config PublicKey SystemKeys)

def gather (currentHintCount : Nat) (u : Updater Config PublicKey) : Updater Config PublicKey :=
  match gatherKeys keyLib u.state with
  | .ok none => { u with lastHintCount := currentHintCount, phase := .head }
  | .ok (some bytes) => { u with phase := .gathered currentHintCount bytes }
  | .err _ => { u with phase := .head }
  | .panic => { u with phase := .stopped }

def store (env : PublishEnv) (currentHintCount : Nat) (bytes : Bytes)
    (u : Updater Config PublicKey) : Updater Config PublicKey :=
  match storeKeys env bytes u.out with
  | (.ok _, out) => ⟨u.state, currentHintCount, .head, out⟩
  | (.err _, out) => ⟨u.state, u.lastHintCount, .head, out⟩
  | (.panic, out) => ⟨u.state, u.lastHintCount, .stopped, out⟩

inductive Step : Updater Config PublicKey → Updater Config PublicKey → Prop
  | apply (announcement : Announcement) (s' : State Config PublicKey)
      (u : Updater Config PublicKey) : State.update lib announcement u.state = .ok s' →
      Step u { u with state := s' }
  | count (u : Updater Config PublicKey) : u.phase = .head → Step u u.count
  | gather (n : Nat) (u : Updater Config PublicKey) : u.phase = .counted n →
      Step u (u.gather keyLib n)
  | store (env : PublishEnv) (n : Nat) (bytes : Bytes) (u : Updater Config PublicKey) :
      u.phase = .gathered n bytes → Step u (u.store env n bytes)

/-- The task starts at the head of its loop, in any state of the node and document. -/
def Reachable (u : Updater Config PublicKey) : Prop :=
  ∃ state out, Relation.ReflTransGen (Step lib keyLib) ⟨state, 0, .head, out⟩ u

def KeysOf (hints : List PublicKey) (bytes : Bytes) : Prop :=
  ∃ config systemKeys, keyLib.new hints config = some systemKeys ∧
    keyLib.serialize systemKeys = some bytes

def PublishedFrom (hints : List PublicKey) (out : Published) : Prop :=
  ∃ bytes content, KeysOf keyLib hints bytes ∧
    Announcement.codec.encode ⟨.systemKeys, bytes⟩ = some content ∧ out.entry = some content

/-- A recorded count is covered by what is published, and a count under way by
the bytes that are about to be. -/
structure Covered (u : Updater Config PublicKey) : Prop where
  le : u.lastHintCount ≤ u.state.hintList.length
  published : 2 ≤ u.lastHintCount → ∃ n, u.lastHintCount ≤ n ∧ n ≤ u.state.hintList.length ∧
    PublishedFrom keyLib (u.state.hintList.take n) u.out
  counted : ∀ n, u.phase = .counted n → u.lastHintCount < n ∧ n ≤ u.state.hintList.length
  gathered : ∀ n bytes, u.phase = .gathered n bytes → u.lastHintCount < n ∧
    ∃ m, n ≤ m ∧ m ≤ u.state.hintList.length ∧ KeysOf keyLib (u.state.hintList.take m) bytes

end Steps

variable {lib : StateLib Config PublicKey} {keyLib : KeyLib Config PublicKey SystemKeys}
  {u u' : Updater Config PublicKey}

theorem gatherKeys_none {state : State Config PublicKey}
    (h : gatherKeys keyLib state = .ok none) : state.hintList.length ≤ 1 := by
  simp only [gatherKeys, Outcome.bind_eq_ok, Outcome.okOr_eq_ok] at h
  obtain ⟨config, -, hints, hhints, h⟩ := h
  by_cases hlen : hints.length ≤ 1
  · simpa [State.hintList, hhints] using hlen
  · rw [if_neg hlen] at h
    simp only [Outcome.bind_eq_ok, Outcome.okOr_eq_ok] at h
    obtain ⟨_, -, _, -, h⟩ := h
    cases h

theorem gatherKeys_some {state : State Config PublicKey} {bytes : Bytes}
    (h : gatherKeys keyLib state = .ok (some bytes)) : KeysOf keyLib state.hintList bytes := by
  simp only [gatherKeys, Outcome.bind_eq_ok, Outcome.okOr_eq_ok] at h
  obtain ⟨config, -, hints, hhints, h⟩ := h
  by_cases hlen : hints.length ≤ 1
  · simp [hlen] at h
  · rw [if_neg hlen] at h
    simp only [Outcome.bind_eq_ok, Outcome.okOr_eq_ok, Outcome.ok.injEq,
      Option.some.injEq] at h
    obtain ⟨systemKeys, hkeys, _, hser, rfl⟩ := h
    refine ⟨config, systemKeys, ?_, hser⟩
    simpa [State.hintList, hhints] using hkeys

/-- An attempt leaves the entry alone or puts the new keys there, and it
succeeds only in the second case. -/
theorem storeKeys_entry (env : PublishEnv) (bytes : Bytes) (out : Published) :
    (storeKeys env bytes out).2.entry = out.entry ∧ (storeKeys env bytes out).1 ≠ .ok () ∨
      ∃ content, Announcement.codec.encode ⟨.systemKeys, bytes⟩ = some content ∧
        (storeKeys env bytes out).2.entry = some content := by
  unfold storeKeys
  cases env.fileWritten
  · simp
  · cases env.channelOpen
    · simp
    · cases env.author
      · simp
      · cases henc : Announcement.codec.encode ⟨.systemKeys, bytes⟩ with
        | none => simp [henc]
        | some content =>
          cases env.stored
          · simp [henc]
          · cases env.reported
            · simp [henc]
            · simp [henc]

theorem PublishedFrom.congr {hints : List PublicKey} {out out' : Published}
    (h : PublishedFrom keyLib hints out) (he : out'.entry = out.entry) :
    PublishedFrom keyLib hints out' := by
  obtain ⟨bytes, content, hkeys, henc, hentry⟩ := h
  exact ⟨bytes, content, hkeys, henc, he.trans hentry⟩

theorem covered_of_idle (hle : u.lastHintCount ≤ u.state.hintList.length)
    (hpub : 2 ≤ u.lastHintCount → ∃ n, u.lastHintCount ≤ n ∧ n ≤ u.state.hintList.length ∧
      PublishedFrom keyLib (u.state.hintList.take n) u.out)
    (hidle : u.phase = .head ∨ u.phase = .stopped) : Covered keyLib u := by
  refine ⟨hle, hpub, fun n hn => ?_, fun n bytes hn => ?_⟩
  · rw [hn] at hidle
    simp at hidle
  · rw [hn] at hidle
    simp at hidle

theorem apply_covered (h : Covered keyLib u) {announcement : Announcement}
    {s' : State Config PublicKey}
    (happly : State.update lib announcement u.state = .ok s') :
    Covered keyLib { u with state := s' } := by
  have hmore := State.update_hintList happly
  have hlen : u.state.hintList.length ≤ s'.hintList.length := by
    rw [hmore, List.length_append]
    omega
  have htake : ∀ n, n ≤ u.state.hintList.length →
      s'.hintList.take n = u.state.hintList.take n := by
    intro n hn
    rw [hmore, List.take_append_of_le_length hn]
  refine ⟨h.le.trans hlen, fun h2 => ?_, fun n hn => ?_, fun n bytes hn => ?_⟩
  · obtain ⟨n, hle, hn, hpub⟩ := h.published h2
    refine ⟨n, hle, hn.trans hlen, ?_⟩
    rwa [htake n hn]
  · obtain ⟨hlt, hn⟩ := h.counted n hn
    exact ⟨hlt, hn.trans hlen⟩
  · obtain ⟨hlt, m, hnm, hm, hkeys⟩ := h.gathered n bytes hn
    refine ⟨hlt, m, hnm, hm.trans hlen, ?_⟩
    rwa [htake m hm]

theorem count_covered (h : Covered keyLib u) : Covered keyLib u.count := by
  unfold count
  by_cases hlt : u.lastHintCount < u.state.hintList.length
  · simp only [hlt, if_true]
    refine ⟨h.le, h.published, fun n hn => ?_, fun n bytes hn => ?_⟩
    · obtain rfl := Phase.counted.inj hn
      exact ⟨hlt, le_rfl⟩
    · cases hn
  · simp only [hlt, if_false]
    exact covered_of_idle h.le h.published (.inl rfl)

theorem gather_covered (h : Covered keyLib u) {n : Nat} (hphase : u.phase = .counted n) :
    Covered keyLib (u.gather keyLib n) := by
  obtain ⟨hlt, hn⟩ := h.counted n hphase
  unfold gather
  cases hg : gatherKeys keyLib u.state with
  | ok found =>
    cases found with
    | none =>
      -- nothing was published, but then fewer than two hints are recorded
      have hfew := gatherKeys_none hg
      have hno : ¬ 2 ≤ n := by omega
      exact covered_of_idle hn (fun h2 => absurd h2 hno) (.inl rfl)
    | some bytes =>
      refine ⟨h.le, h.published, fun m hm => ?_, fun m b hm => ?_⟩
      · cases hm
      · obtain ⟨rfl, rfl⟩ := Phase.gathered.inj hm
        refine ⟨hlt, u.state.hintList.length, hn, le_rfl, ?_⟩
        rw [List.take_length]
        exact gatherKeys_some hg
  | err e => exact covered_of_idle h.le h.published (.inl rfl)
  | panic => exact covered_of_idle h.le h.published (.inr rfl)

theorem store_covered (h : Covered keyLib u) (env : PublishEnv) {n : Nat} {bytes : Bytes}
    (hphase : u.phase = .gathered n bytes) : Covered keyLib (u.store env n bytes) := by
  obtain ⟨hlt, m, hnm, hm, hkeys⟩ := h.gathered n bytes hphase
  have hentry := storeKeys_entry env bytes u.out
  unfold store
  cases hs : storeKeys env bytes u.out with
  | mk r out =>
    rw [hs] at hentry
    have hpublished : ∀ last, last ≤ n → (r ≠ .ok () → last = u.lastHintCount) → 2 ≤ last →
        ∃ k, last ≤ k ∧ k ≤ u.state.hintList.length ∧
          PublishedFrom keyLib (u.state.hintList.take k) out := by
      intro last hlast hr h2
      rcases hentry with ⟨hsame, hfail⟩ | ⟨content, henc, hnew⟩
      · have he := hr hfail
        obtain ⟨k, hle, hk, hpub⟩ := h.published (he ▸ h2)
        exact ⟨k, he.le.trans hle, hk, hpub.congr hsame⟩
      · exact ⟨m, hlast.trans hnm, hm, bytes, content, hkeys, henc, hnew⟩
    cases r with
    | ok v =>
      exact covered_of_idle (hnm.trans hm) (hpublished n le_rfl fun hr => absurd rfl hr) (.inl rfl)
    | err e => exact covered_of_idle h.le (hpublished _ hlt.le fun _ => rfl) (.inl rfl)
    | panic => exact covered_of_idle h.le (hpublished _ hlt.le fun _ => rfl) (.inr rfl)

theorem reachable_covered (h : Reachable lib keyLib u) : Covered keyLib u := by
  obtain ⟨state, out, hrun⟩ := h
  induction hrun with
  | refl =>
    have hzero : ¬ 2 ≤ 0 := by decide
    exact covered_of_idle (Nat.zero_le _) (fun h2 => absurd h2 hzero) (.inl rfl)
  | tail _ hstep ih =>
    cases hstep with
    | apply announcement s' u happly => exact apply_covered ih happly
    | count u _ => exact count_covered ih
    | gather n u hphase => exact gather_covered ih hphase
    | store env n bytes u hphase => exact store_covered ih env hphase

/-- No hint is lost between counting and publishing: the published keys cover
every count that was recorded. -/
theorem no_lost_hint (h : Reachable lib keyLib u) :
    u.lastHintCount ≤ u.state.hintList.length ∧
    (2 ≤ u.lastHintCount → ∃ n, u.lastHintCount ≤ n ∧ n ≤ u.state.hintList.length ∧
      PublishedFrom keyLib (u.state.hintList.take n) u.out) ∧
    (u.lastHintCount = u.state.hintList.length → 2 ≤ u.lastHintCount →
      PublishedFrom keyLib u.state.hintList u.out) := by
  have hc := reachable_covered h
  refine ⟨hc.le, hc.published, fun heq h2 => ?_⟩
  obtain ⟨n, hle, hn, hpub⟩ := hc.published h2
  rwa [List.take_of_length_le (by omega)] at hpub

section Sample

def byteState : StateLib Unit UInt8 := ⟨fun _ => some (), fun data => data.head?⟩

def byteKeys : KeyLib Unit UInt8 Bytes := ⟨fun hints _ => some hints, some⟩

def lateHint : Updater Unit UInt8 where
  state := ⟨some (), some [1, 2, 3]⟩
  lastHintCount := 2
  phase := .head
  out := ⟨some [1, 2], [⟨.systemKeys, [1, 2]⟩], some [3, 8, 1, 2]⟩

theorem lateHint_reachable : Reachable byteState byteKeys lateHint := by
  let start : Updater Unit UInt8 := ⟨⟨some (), some [1, 2]⟩, 0, .head, ⟨none, [], none⟩⟩
  let gathered : Updater Unit UInt8 := { start with phase := .gathered 2 [1, 2] }
  have hcount : Step byteState byteKeys start start.count := .count start rfl
  have hgather : Step byteState byteKeys start.count gathered := .gather 2 start.count rfl
  have hlate : Step byteState byteKeys gathered
      { gathered with state := ⟨some (), some [1, 2, 3]⟩ } :=
    .apply ⟨.hint, [3]⟩ ⟨some (), some [1, 2, 3]⟩ gathered rfl
  have hstore : Step byteState byteKeys { gathered with state := ⟨some (), some [1, 2, 3]⟩ }
      lateHint := .store ⟨true, true, true, true, true⟩ 2 [1, 2] _ rfl
  exact ⟨_, _, (((Relation.ReflTransGen.single hcount).tail hgather).tail hlate).tail hstore⟩

theorem no_lost_hint_lateHint : ∃ n, 2 ≤ n ∧ n ≤ 3 ∧
    PublishedFrom byteKeys (([1, 2, 3] : List UInt8).take n) lateHint.out :=
  (no_lost_hint lateHint_reachable).2.1 le_rfl

end Sample

end Updater

end Fangorn
