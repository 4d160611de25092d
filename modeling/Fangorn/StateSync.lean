import Fangorn.NodeState
import Mathlib.Logic.Relation

/-! How a node follows the shared document: `run_state_sync`
(`node/service.rs`) passes entries on, and the task in `Node::build`
(`node/node.rs`) applies them to the state. -/

namespace Fangorn

open Rust

/-- An entry that a peer inserted. Its content may arrive after some reads. -/
structure InsertRemote where
  value : Bytes
  failures : Nat
  deriving DecidableEq, Repr

structure SyncNode (Config PublicKey : Type) where
  incoming : List InsertRemote
  queue : List Announcement
  state : State Config PublicKey
  syncing : Bool
  applying : Bool

namespace StateSync

variable {Config PublicKey : Type}

def decodeAnnouncement (value : Bytes) : Outcome Unit Announcement := do
  let (announcement, _) ← .expect (Announcement.codec.decode value)
  .ok announcement

/-- The first read passes every announcement on, the three retries none of documents. -/
def announcementOf (e : InsertRemote) : Outcome Unit (Option Announcement) :=
  if e.failures = 0 then do
    let announcement ← decodeAnnouncement e.value
    .ok (some announcement)
  else if e.failures ≤ 3 then do
    let announcement ← decodeAnnouncement e.value
    .ok (if announcement.tag ≠ .doc then some announcement else none)
  else .ok none

/-- Sending to the task that applies announcements panics when it is gone. -/
def receive (e : InsertRemote) (rest : List InsertRemote) (t : SyncNode Config PublicKey) :
    SyncNode Config PublicKey :=
  match announcementOf e with
  | .ok none => { t with incoming := rest }
  | .ok (some announcement) =>
    if t.applying then { t with incoming := rest, queue := t.queue ++ [announcement] }
    else { t with incoming := rest, syncing := false }
  | _ => { t with incoming := rest, syncing := false }

section Steps

variable (lib : StateLib Config PublicKey)

def applyNext (announcement : Announcement) (rest : List Announcement)
    (t : SyncNode Config PublicKey) : SyncNode Config PublicKey :=
  match State.update lib announcement t.state with
  | .ok state => { t with queue := rest, state := state }
  | _ => { t with queue := rest, applying := false }

inductive Step : SyncNode Config PublicKey → SyncNode Config PublicKey → Prop
  | receive (e : InsertRemote) (rest : List InsertRemote) (t : SyncNode Config PublicKey) :
      t.syncing = true → t.incoming = e :: rest → Step t (receive e rest t)
  | applyNext (announcement : Announcement) (rest : List Announcement)
      (t : SyncNode Config PublicKey) : t.applying = true → t.queue = announcement :: rest →
      Step t (applyNext lib announcement rest t)

def start (entries : List InsertRemote) (state : State Config PublicKey) :
    SyncNode Config PublicKey := ⟨entries, [], state, true, true⟩

def deserialises (announcement : Announcement) : Bool :=
  match announcement.tag with
  | .config => (lib.config announcement.data).isSome
  | .hint => (lib.hint announcement.data).isSome
  | _ => true

def wellFormed (value : Bytes) : Bool :=
  match Announcement.codec.decode value with
  | some (announcement, _) => deserialises lib announcement
  | none => false

def updated (s : State Config PublicKey) (announcement : Announcement) :
    State Config PublicKey :=
  match State.update lib announcement s with
  | .ok s' => s'
  | _ => s

def entryApplied (s : State Config PublicKey) (e : InsertRemote) : State Config PublicKey :=
  match Announcement.codec.decode e.value with
  | some (announcement, _) => if e.failures ≤ 3 then updated lib s announcement else s
  | none => s

def undisturbed (entries : List InsertRemote) (s : State Config PublicKey) :
    State Config PublicKey :=
  (entries.filter fun e => wellFormed lib e.value).foldl (entryApplied lib) s

/-- At every point of every run both tasks are there, and once the queue is
applied, the state is that of the well-formed entries received so far. -/
def Harmless (entries : List InsertRemote) (s : State Config PublicKey) : Prop :=
  ∀ t, Relation.ReflTransGen (Step lib) (start entries s) t →
    t.syncing = true ∧ t.applying = true ∧ ∃ received, entries = received ++ t.incoming ∧
      t.queue.foldl (updated lib) t.state = undisturbed lib received s

end Steps

variable {lib : StateLib Config PublicKey} {announcement : Announcement}
  {s : State Config PublicKey} {e : InsertRemote} {t t' : SyncNode Config PublicKey}

theorem update_of_deserialises (h : deserialises lib announcement = true) :
    State.update lib announcement s = .ok (updated lib s announcement) := by
  have hok : ∃ s', State.update lib announcement s = .ok s' := by
    by_cases hconfig : announcement.tag = .config
    · rw [deserialises, hconfig] at h
      obtain ⟨config, hdata⟩ := Option.isSome_iff_exists.mp h
      exact ⟨_, State.update_config hconfig hdata⟩
    · by_cases hhint : announcement.tag = .hint
      · rw [deserialises, hhint] at h
        obtain ⟨hint, hdata⟩ := Option.isSome_iff_exists.mp h
        exact ⟨_, State.update_hint hhint hdata⟩
      · exact ⟨s, State.update_other hconfig hhint⟩
  obtain ⟨s', hs'⟩ := hok
  rw [updated, hs']

theorem update_of_not_deserialises (h : deserialises lib announcement = false) :
    State.update lib announcement s = .panic ∧ announcement.tag ≠ .doc := by
  unfold deserialises at h
  cases htag : announcement.tag with
  | config =>
    rw [htag] at h
    have hnone : lib.config announcement.data = none := by simpa using h
    simp [State.update, htag, hnone, Outcome.expect]
  | hint =>
    rw [htag] at h
    have hnone : lib.hint announcement.data = none := by simpa using h
    simp [State.update, htag, hnone, Outcome.expect]
  | doc => simp [htag] at h
  | systemKeys => simp [htag] at h
  | decryptionRequest => simp [htag] at h

theorem updated_doc (h : announcement.tag = .doc) : updated lib s announcement = s := by
  rw [updated, State.update_other (by simp [h]) (by simp [h])]

/-- An entry that arrives in time is passed on, unless it is a document that
would change nothing. -/
theorem announcementOf_of_decode {rest : Bytes} (hlate : e.failures ≤ 3)
    (hdec : Announcement.codec.decode e.value = some (announcement, rest)) :
    announcementOf e = .ok (some announcement) ∨
      announcementOf e = .ok none ∧ announcement.tag = .doc := by
  have hvalue : decodeAnnouncement e.value = .ok announcement := by
    simp [decodeAnnouncement, hdec, Outcome.expect]
  unfold announcementOf
  rw [hvalue]
  by_cases h0 : e.failures = 0
  · simp [h0]
  · by_cases hdoc : announcement.tag = .doc
    · simp [h0, hlate, hdoc]
    · simp [h0, hlate, hdoc]

theorem announcementOf_of_not_decode (hlate : e.failures ≤ 3)
    (hdec : Announcement.codec.decode e.value = none) : announcementOf e = .panic := by
  have hvalue : decodeAnnouncement e.value = .panic := by
    simp [decodeAnnouncement, hdec, Outcome.expect]
  unfold announcementOf
  rw [hvalue]
  by_cases h0 : e.failures = 0
  · simp [h0]
  · simp [h0, hlate]

theorem announcementOf_of_never (hlate : ¬ e.failures ≤ 3) : announcementOf e = .ok none := by
  have h0 : e.failures ≠ 0 := by omega
  simp [announcementOf, h0, hlate]

section Run

variable {entries : List InsertRemote} {s₀ : State Config PublicKey}

structure Healthy (lib : StateLib Config PublicKey) (entries : List InsertRemote)
    (s₀ : State Config PublicKey) (t : SyncNode Config PublicKey) : Prop where
  syncing : t.syncing = true
  applying : t.applying = true
  queued : ∀ a ∈ t.queue, deserialises lib a = true
  drained : ∃ received, entries = received ++ t.incoming ∧
    t.queue.foldl (updated lib) t.state = undisturbed lib received s₀

def AllReadable (lib : StateLib Config PublicKey) (entries : List InsertRemote) : Prop :=
  ∀ e ∈ entries, e.failures ≤ 3 → wellFormed lib e.value = true

theorem undisturbed_concat (received : List InsertRemote) (e : InsertRemote) :
    undisturbed lib (received ++ [e]) s =
      if wellFormed lib e.value then entryApplied lib (undisturbed lib received s) e
      else undisturbed lib received s := by
  cases hw : wellFormed lib e.value with
  | true => simp [undisturbed, List.filter_append, hw]
  | false => simp [undisturbed, List.filter_append, hw]

theorem wellFormed_decode (h : wellFormed lib e.value = true) :
    ∃ a rest, Announcement.codec.decode e.value = some (a, rest) ∧ deserialises lib a = true := by
  unfold wellFormed at h
  cases hdec : Announcement.codec.decode e.value with
  | none => simp [hdec] at h
  | some p =>
    obtain ⟨a, rest⟩ := p
    exact ⟨a, rest, rfl, by simpa [hdec] using h⟩

theorem receive_healthy (hall : AllReadable lib entries) (h : Healthy lib entries s₀ t)
    {rest : List InsertRemote} (hin : t.incoming = e :: rest) :
    Healthy lib entries s₀ (receive e rest t) := by
  obtain ⟨received, hentries, hdrain⟩ := h.drained
  rw [hin] at hentries
  have hnext : entries = (received ++ [e]) ++ rest := by rw [hentries, List.append_assoc]; rfl
  have hmem : e ∈ entries := by rw [hentries]; exact List.mem_append_right _ List.mem_cons_self
  by_cases hlate : e.failures ≤ 3
  · have hw := hall e hmem hlate
    obtain ⟨a, r, hdec, hdes⟩ := wellFormed_decode hw
    have hundist : undisturbed lib (received ++ [e]) s₀ =
        updated lib (undisturbed lib received s₀) a := by
      rw [undisturbed_concat, if_pos hw]
      simp [entryApplied, hdec, hlate]
    rcases announcementOf_of_decode hlate hdec with hsent | ⟨hkept, hdoc⟩
    · have hstep : receive e rest t =
          { t with incoming := rest, queue := t.queue ++ [a] } := by
        simp [receive, hsent, h.applying]
      rw [hstep]
      refine ⟨h.syncing, h.applying, fun b hb => ?_, received ++ [e], hnext, ?_⟩
      · rcases List.mem_append.mp hb with hb | hb
        · exact h.queued b hb
        · rw [List.mem_singleton.mp hb]
          exact hdes
      · rw [List.foldl_concat, hdrain, hundist]
    · have hstep : receive e rest t = { t with incoming := rest } := by simp [receive, hkept]
      rw [hstep]
      refine ⟨h.syncing, h.applying, h.queued, received ++ [e], hnext, ?_⟩
      rw [hundist, updated_doc hdoc]
      exact hdrain
  · have hstep : receive e rest t = { t with incoming := rest } := by
      simp [receive, announcementOf_of_never hlate]
    rw [hstep]
    refine ⟨h.syncing, h.applying, h.queued, received ++ [e], hnext, ?_⟩
    have hsame : entryApplied lib (undisturbed lib received s₀) e =
        undisturbed lib received s₀ := by
      unfold entryApplied
      cases Announcement.codec.decode e.value with
      | none => rfl
      | some p => simp [hlate]
    rw [undisturbed_concat, hsame, ite_self]
    exact hdrain

theorem applyNext_healthy (h : Healthy lib entries s₀ t) {rest : List Announcement}
    (hqueue : t.queue = announcement :: rest) :
    Healthy lib entries s₀ (applyNext lib announcement rest t) := by
  obtain ⟨received, hentries, hdrain⟩ := h.drained
  have hqueued := h.queued
  rw [hqueue] at hqueued hdrain
  have hdes := hqueued announcement List.mem_cons_self
  have hstep : applyNext lib announcement rest t =
      { t with queue := rest, state := updated lib t.state announcement } := by
    simp [applyNext, update_of_deserialises hdes]
  rw [hstep]
  exact ⟨h.syncing, h.applying, fun a ha => hqueued a (List.mem_cons_of_mem _ ha),
    received, hentries, hdrain⟩

theorem run_healthy (hall : AllReadable lib entries)
    (hrun : Relation.ReflTransGen (Step lib) (start entries s₀) t) :
    Healthy lib entries s₀ t := by
  induction hrun with
  | refl => exact ⟨rfl, rfl, fun a ha => absurd ha List.not_mem_nil, [], rfl, rfl⟩
  | tail _ hstep ih =>
    cases hstep with
    | receive e rest t _ hin => exact receive_healthy hall ih hin
    | applyNext a rest t _ hqueue => exact applyNext_healthy ih hqueue

variable (s₀) in
theorem reach_after (pre post : List InsertRemote) (hall : AllReadable lib pre) :
    ∃ state, Relation.ReflTransGen (Step lib) (start (pre ++ post) s₀)
      ⟨post, [], state, true, true⟩ := by
  induction pre generalizing s₀ with
  | nil => exact ⟨s₀, .refl⟩
  | cons e pre ih =>
    have hrest : AllReadable lib pre := fun x hx => hall x (List.mem_cons_of_mem _ hx)
    have hfirst : Relation.ReflTransGen (Step lib) (start (e :: (pre ++ post)) s₀)
        (receive e (pre ++ post) (start (e :: (pre ++ post)) s₀)) :=
      .single (.receive e _ _ rfl rfl)
    have hkeep : announcementOf e = .ok none → ∃ state, Relation.ReflTransGen (Step lib)
        (start (e :: (pre ++ post)) s₀) ⟨post, [], state, true, true⟩ := by
      intro hnone
      obtain ⟨state, hrun⟩ := ih s₀ hrest
      have hstep : receive e (pre ++ post) (start (e :: (pre ++ post)) s₀) =
          start (pre ++ post) s₀ := by simp [receive, hnone, start]
      exact ⟨state, (hstep ▸ hfirst).trans hrun⟩
    by_cases hlate : e.failures ≤ 3
    · obtain ⟨a, r, hdec, hdes⟩ := wellFormed_decode (hall e List.mem_cons_self hlate)
      rcases announcementOf_of_decode hlate hdec with hsent | ⟨hkept, -⟩
      · obtain ⟨state, hrun⟩ := ih (updated lib s₀ a) hrest
        have hstep : receive e (pre ++ post) (start (e :: (pre ++ post)) s₀) =
            ⟨pre ++ post, [a], s₀, true, true⟩ := by simp [receive, hsent, start]
        have happly : applyNext lib a [] (⟨pre ++ post, [a], s₀, true, true⟩ : SyncNode _ _) =
            start (pre ++ post) (updated lib s₀ a) := by
          simp [applyNext, update_of_deserialises hdes, start]
        have hsecond : Step lib ⟨pre ++ post, [a], s₀, true, true⟩
            (start (pre ++ post) (updated lib s₀ a)) := happly ▸ .applyNext a [] _ rfl rfl
        exact ⟨state, ((hstep ▸ hfirst).tail hsecond).trans hrun⟩
      · exact hkeep hkept
    · exact hkeep (announcementOf_of_never hlate)

theorem unreadable_stops (post : List InsertRemote) (state : State Config PublicKey)
    (hlate : e.failures ≤ 3) (hw : wellFormed lib e.value = false) :
    ∃ t, Relation.ReflTransGen (Step lib) ⟨e :: post, [], state, true, true⟩ t ∧
      (t.syncing = false ∨ t.applying = false) := by
  have hfirst : Step lib ⟨e :: post, [], state, true, true⟩
      (receive e post ⟨e :: post, [], state, true, true⟩) := .receive e post _ rfl rfl
  cases hdec : Announcement.codec.decode e.value with
  | none =>
    have hpanic := announcementOf_of_not_decode hlate hdec
    exact ⟨_, .single hfirst, .inl (by simp [receive, hpanic])⟩
  | some p =>
    obtain ⟨a, r⟩ := p
    have hdes : deserialises lib a = false := by simpa [wellFormed, hdec] using hw
    obtain ⟨hpanic, hnotdoc⟩ := update_of_not_deserialises (s := state) hdes
    rcases announcementOf_of_decode hlate hdec with hsent | ⟨-, hdoc⟩
    · have hstep : receive e post (⟨e :: post, [], state, true, true⟩ : SyncNode _ _) =
          ⟨post, [a], state, true, true⟩ := by simp [receive, hsent]
      have hsecond : Step lib (⟨post, [a], state, true, true⟩ : SyncNode _ _)
          (applyNext lib a [] ⟨post, [a], state, true, true⟩) := .applyNext a [] _ rfl rfl
      exact ⟨_, (Relation.ReflTransGen.single (hstep ▸ hfirst)).tail hsecond,
        .inr (by simp [applyNext, hpanic])⟩
    · exact absurd hdoc hnotdoc

/-- Malformed entries are harmless exactly when none arrives. -/
theorem harmless_iff : Harmless lib entries s₀ ↔ AllReadable lib entries := by
  constructor
  · intro h
    have hprefix : ∀ pre post, entries = pre ++ post → AllReadable lib pre := by
      intro pre
      induction pre using List.reverseRecOn with
      | nil => exact fun _ _ e he => absurd he List.not_mem_nil
      | append_singleton pre bad ih =>
        intro post hsplit e he hlate
        rw [List.append_assoc, List.singleton_append] at hsplit
        have hpre := ih _ hsplit
        rcases List.mem_append.mp he with he | he
        · exact hpre e he hlate
        · rw [List.mem_singleton.mp he] at hlate ⊢
          by_contra hw
          obtain ⟨state, hreach⟩ := reach_after s₀ pre (bad :: post) hpre
          obtain ⟨t, hstop, hdead⟩ :=
            unreadable_stops post state hlate (Bool.eq_false_iff.mpr hw)
          obtain ⟨hsync, happly, -⟩ := h t (hsplit ▸ hreach.trans hstop)
          simp [hsync, happly] at hdead
    exact hprefix entries [] (List.append_nil entries).symm
  · intro hall t hrun
    have ht := run_healthy hall hrun
    exact ⟨ht.syncing, ht.applying, ht.drained⟩

end Run

section Sample

def byteState : StateLib UInt8 UInt8 := ⟨List.head?, List.head?⟩

/-- A byte that is no announcement comes before a hint. -/
theorem stray_byte_stops_sync :
    ¬ Harmless byteState [⟨[255], 0⟩, ⟨[1, 4, 7], 0⟩] State.empty := by
  intro h
  let stray : InsertRemote := ⟨[255], 0⟩
  have hbad : wellFormed byteState stray.value = false := by decide
  obtain ⟨t, hrun, hdead⟩ :=
    unreadable_stops [⟨[1, 4, 7], 0⟩] State.empty (Nat.zero_le 3 : stray.failures ≤ 3) hbad
  obtain ⟨hsync, happly, -⟩ := h t hrun
  simp [hsync, happly] at hdead

end Sample

end StateSync

end Fangorn
