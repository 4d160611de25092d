import Fangorn.StateSync
import Mathlib.Data.List.Nodup
import Mathlib.Data.List.Perm.Basic

/-! How the hints of the committee reach a node: `publish_node_hint`,
`load_previous_hints` and the live events (`node/service.rs`). -/

namespace Fangorn

open Rust Scale

section Hints

variable {Config PublicKey : Type}

/-- A hint in the document: under the text of its index, as an announcement
whose data are a public key with this index as its id. -/
structure PublishedHint (lib : StateLib Config PublicKey) (id : PublicKey → Nat) where
  index : Nat
  publicKey : PublicKey
  data : Bytes
  value : Bytes
  reads : lib.hint data = some publicKey
  named : id publicKey = index
  encoded : Announcement.codec.encode ⟨.hint, data⟩ = some value

def PublishedHint.announcement {lib : StateLib Config PublicKey} {id : PublicKey → Nat}
    (h : PublishedHint lib id) : Announcement := ⟨.hint, h.data⟩

def indexKey (i : Nat) : Str := (Nat.repr i).toList

/-- The loop over the keys of the earlier nodes: an entry that is missing or
does not decode is a panic. -/
def loadHints (read : Str → Option Bytes) : List Nat → Outcome Unit (List Announcement)
  | [] => .ok []
  | i :: rest => do
    let content ← .expect (read (indexKey i))
    let announcement ← StateSync.decodeAnnouncement content
    let announcements ← loadHints read rest
    .ok (announcement :: announcements)

/-- The index is cut to a `u32` for the range of the loop. -/
def loadPreviousHints (read : Str → Option Bytes) (ourIndex : Nat) :
    Outcome Unit (List Announcement) :=
  loadHints read (List.range' 1 (ourIndex % 2 ^ 32 - 1))

/-- A node and the hints of the document; `delivered` are those that went into
its channel, in order. -/
structure HintNode (lib : StateLib Config PublicKey) (id : PublicKey → Nat) where
  published : List (PublishedHint lib id)
  delivered : List (PublishedHint lib id)
  queue : List Announcement
  state : State Config PublicKey

namespace HintNode

variable (lib : StateLib Config PublicKey) (id : PublicKey → Nat)

inductive Step : HintNode lib id → HintNode lib id → Prop
  | publish (h : PublishedHint lib id) (t : HintNode lib id) :
      Step t { t with published := t.published ++ [h] }
  | publishOwn (h : PublishedHint lib id) (t : HintNode lib id) :
      Step t { t with
        published := t.published ++ [h]
        delivered := t.delivered ++ [h]
        queue := t.queue ++ [h.announcement] }
  | load (read : Str → Option Bytes) (ourIndex : Nat) (hints : List (PublishedHint lib id))
      (t : HintNode lib id) : (∀ h ∈ hints, h ∈ t.published) →
      loadPreviousHints read ourIndex = .ok (hints.map PublishedHint.announcement) →
      Step t { t with
        delivered := t.delivered ++ hints
        queue := t.queue ++ hints.map PublishedHint.announcement }
  | insertRemote (h : PublishedHint lib id) (failures : Nat) (announcement : Announcement)
      (t : HintNode lib id) : h ∈ t.published →
      StateSync.announcementOf ⟨h.value, failures⟩ = .ok (some announcement) →
      Step t { t with
        delivered := t.delivered ++ [h]
        queue := t.queue ++ [announcement] }
  | other (announcement : Announcement) (t : HintNode lib id) : announcement.tag ≠ .hint →
      Step t { t with queue := t.queue ++ [announcement] }
  | apply (announcement : Announcement) (rest : List Announcement)
      (state : State Config PublicKey) (t : HintNode lib id) : t.queue = announcement :: rest →
      State.update lib announcement t.state = .ok state →
      Step t { t with queue := rest, state := state }

def Reachable (t : HintNode lib id) : Prop :=
  Relation.ReflTransGen (Step lib id) ⟨[], [], [], State.empty⟩ t

variable {lib id}

structure Complete (t : HintNode lib id) : Prop where
  delivered : ∀ h ∈ t.published, h ∈ t.delivered
  drained : ∀ a ∈ t.queue, a.tag ≠ .hint

structure OnePerIndex (t : HintNode lib id) : Prop where
  one : ∀ h ∈ t.published, (t.state.hintList.map id).count h.index = 1
  no_other : ∀ publicKey ∈ t.state.hintList, ∃ h ∈ t.published, h.index = id publicKey

/-- The committees of two nodes agree, up to the order of their members. -/
structure Converged (t t' : HintNode lib id) : Prop where
  here : OnePerIndex t
  there : OnePerIndex t'
  same : t.state.hintList.Perm t'.state.hintList

structure Once (t : HintNode lib id) : Prop where
  delivered : t.delivered.Nodup
  published : ∀ h ∈ t.published, ∀ h' ∈ t.published, h.index = h'.index → h = h'

variable {t t' : HintNode lib id}

structure Accounted (t : HintNode lib id) : Prop where
  published : ∀ h ∈ t.delivered, h ∈ t.published
  hints : t.state.hintList ++ t.queue.filterMap (State.hintOf lib) =
    t.delivered.map PublishedHint.publicKey

theorem hintOf_announcement (h : PublishedHint lib id) :
    State.hintOf lib h.announcement = some h.publicKey := by
  simp [State.hintOf, PublishedHint.announcement, h.reads]

theorem hintOf_announcements (hints : List (PublishedHint lib id)) :
    (hints.map PublishedHint.announcement).filterMap (State.hintOf lib) =
      hints.map PublishedHint.publicKey := by
  induction hints with
  | nil => rfl
  | cons h hints ih => rw [List.map_cons, List.filterMap_cons, hintOf_announcement, ih]; rfl

theorem announcementOf_published {h : PublishedHint lib id} {failures : Nat}
    {announcement : Announcement}
    (hsent : StateSync.announcementOf ⟨h.value, failures⟩ = .ok (some announcement)) :
    announcement = h.announcement := by
  have hdec := Codec.decode_encode _ h.encoded
  by_cases hlate : failures ≤ 3
  · obtain hsome | ⟨-, hdoc⟩ :=
      StateSync.announcementOf_of_decode (e := ⟨h.value, failures⟩) hlate hdec
    · rw [hsome] at hsent
      exact (Option.some.inj (Outcome.ok.inj hsent)).symm
    · cases hdoc
  · rw [StateSync.announcementOf_of_never hlate] at hsent
    cases hsent

theorem deliver_accounted (h : Accounted t) {published : List (PublishedHint lib id)}
    (hgrown : ∀ x ∈ t.published, x ∈ published) (hints : List (PublishedHint lib id))
    (hsub : ∀ x ∈ hints, x ∈ published) :
    Accounted { t with
      published := published
      delivered := t.delivered ++ hints
      queue := t.queue ++ hints.map PublishedHint.announcement } := by
  refine ⟨fun x hx => ?_, ?_⟩
  · rcases List.mem_append.mp hx with hx | hx
    · exact hgrown x (h.published x hx)
    · exact hsub x hx
  · rw [List.filterMap_append, hintOf_announcements, ← List.append_assoc, h.hints,
      List.map_append]

theorem step_accounted (h : Accounted t) (hs : Step lib id t t') : Accounted t' := by
  cases hs with
  | publish x t =>
    exact ⟨fun y hy => List.mem_append_left _ (h.published y hy), h.hints⟩
  | publishOwn x t =>
    exact deliver_accounted h (fun y hy => List.mem_append_left _ hy) [x]
      fun y hy => List.mem_append_right _ hy
  | load read ourIndex hints t hsub _ => exact deliver_accounted h (fun y hy => hy) hints hsub
  | insertRemote x failures announcement t hx hsent =>
    rw [announcementOf_published hsent]
    refine deliver_accounted h (fun y hy => hy) [x] fun y hy => ?_
    rwa [List.mem_singleton.mp hy]
  | other announcement t htag =>
    refine ⟨h.published, ?_⟩
    have hnone : State.hintOf lib announcement = none := if_neg htag
    rw [List.filterMap_append, ← List.append_assoc, h.hints]
    simp [hnone]
  | apply announcement rest state t hqueue hupdate =>
    refine ⟨h.published, ?_⟩
    have hhints := h.hints
    rw [hqueue] at hhints
    rw [State.update_hintList hupdate, ← hhints]
    cases ho : State.hintOf lib announcement with
    | none => simp [ho]
    | some hint => simp [ho]

theorem reachable_accounted (h : Reachable lib id t) : Accounted t := by
  induction h with
  | refl => exact ⟨fun x hx => absurd hx List.not_mem_nil, rfl⟩
  | tail _ hstep ih => exact step_accounted ih hstep

theorem hintList_of_complete (h : Accounted t) (hc : Complete t) :
    t.state.hintList = t.delivered.map PublishedHint.publicKey := by
  have hnone : t.queue.filterMap (State.hintOf lib) = [] := by
    rw [List.filterMap_eq_nil_iff]
    exact fun a ha => if_neg (hc.drained a ha)
  simpa [hnone] using h.hints

theorem ids_of_complete (h : Accounted t) (hc : Complete t) :
    t.state.hintList.map id = t.delivered.map PublishedHint.index := by
  rw [hintList_of_complete h hc, List.map_map]
  exact List.map_congr_left fun x _ => x.named

theorem onePerIndex_iff_once (h : Accounted t) (hc : Complete t) : OnePerIndex t ↔ Once t := by
  have hids := ids_of_complete h hc
  constructor
  · intro hone
    have hnodup : (t.delivered.map PublishedHint.index).Nodup := by
      rw [List.nodup_iff_count_le_one]
      intro i
      by_cases hi : i ∈ t.delivered.map PublishedHint.index
      · obtain ⟨x, hx, rfl⟩ := List.mem_map.mp hi
        rw [← hids, hone.one x (h.published x hx)]
      · rw [List.count_eq_zero_of_not_mem hi]
        exact Nat.zero_le 1
    refine ⟨hnodup.of_map, fun x hx y hy hxy => ?_⟩
    exact List.inj_on_of_nodup_map hnodup (hc.delivered x hx) (hc.delivered y hy) hxy
  · intro honce
    have hnodup : (t.delivered.map PublishedHint.index).Nodup := by
      apply honce.delivered.map_on
      intro x hx y hy hxy
      exact honce.published x (h.published x hx) y (h.published y hy) hxy
    refine ⟨fun x hx => ?_, fun publicKey hmem => ?_⟩
    · rw [hids]
      exact List.count_eq_one_of_mem hnodup (List.mem_map_of_mem (hc.delivered x hx))
    · rw [hintList_of_complete h hc] at hmem
      obtain ⟨x, hx, rfl⟩ := List.mem_map.mp hmem
      exact ⟨x, h.published x hx, x.named.symm⟩

/-- The hints are the published ones whatever the order and repetition of the
deliveries, but only as a set. -/
theorem mem_hintList (h : Accounted t) (hc : Complete t) {publicKey : PublicKey} :
    publicKey ∈ t.state.hintList ↔ ∃ x ∈ t.published, x.publicKey = publicKey := by
  rw [hintList_of_complete h hc, List.mem_map]
  constructor
  · intro hh
    obtain ⟨x, hx, he⟩ := hh
    exact ⟨x, h.published x hx, he⟩
  · intro hh
    obtain ⟨x, hx, he⟩ := hh
    exact ⟨x, hc.delivered x hx, he⟩

/-- Two nodes that applied all hints of the same document agree on a committee
exactly when each hint reached each of them once and no index has two hints. -/
theorem converged_iff_once (h : Reachable lib id t) (h' : Reachable lib id t') (hc : Complete t)
    (hc' : Complete t') (hsame : ∀ x, x ∈ t.published ↔ x ∈ t'.published) :
    Converged t t' ↔ Once t ∧ Once t' := by
  have ha := reachable_accounted h
  have ha' := reachable_accounted h'
  constructor
  · intro hconv
    exact ⟨(onePerIndex_iff_once ha hc).mp hconv.here,
      (onePerIndex_iff_once ha' hc').mp hconv.there⟩
  · intro honce
    refine ⟨(onePerIndex_iff_once ha hc).mpr honce.1,
      (onePerIndex_iff_once ha' hc').mpr honce.2, ?_⟩
    have hperm : t.delivered.Perm t'.delivered := by
      rw [List.perm_ext_iff_of_nodup honce.1.delivered honce.2.delivered]
      intro x
      constructor
      · exact fun hx => hc'.delivered x ((hsame x).mp (ha.published x hx))
      · exact fun hx => hc.delivered x ((hsame x).mpr (ha'.published x hx))
    rw [hintList_of_complete ha hc, hintList_of_complete ha' hc']
    exact hperm.map _

section Overlap

/-- Keys of one byte, with the index in the upper half. -/
def byteLib : StateLib UInt8 UInt8 := ⟨List.head?, List.head?⟩

def byteId (publicKey : UInt8) : Nat := publicKey.toNat / 16

def firstHint : PublishedHint byteLib byteId where
  index := 1
  publicKey := 0x17
  data := [0x17]
  value := [1, 4, 0x17]
  reads := rfl
  named := by decide
  encoded := by decide

def secondHint : PublishedHint byteLib byteId where
  index := 2
  publicKey := 0x25
  data := [0x25]
  value := [1, 4, 0x25]
  reads := rfl
  named := by decide
  encoded := by decide

def readFirst (key : Str) : Option Bytes := if key = ['1'] then some [1, 4, 0x17] else none

theorem loadPreviousHints_second :
    loadPreviousHints readFirst 2 = .ok ([firstHint].map PublishedHint.announcement) := by
  decide

def joined (delivered : List (PublishedHint byteLib byteId)) (hints : List UInt8) :
    HintNode byteLib byteId where
  published := [firstHint, secondHint]
  delivered := delivered
  queue := []
  state := ⟨none, some hints⟩

theorem joined_reachable :
    Reachable byteLib byteId (joined [firstHint, secondHint] [0x17, 0x25]) := by
  let t₁ : HintNode byteLib byteId := ⟨[firstHint], [], [], State.empty⟩
  let t₂ : HintNode byteLib byteId :=
    ⟨[firstHint], [firstHint], [firstHint.announcement], State.empty⟩
  let t₃ : HintNode byteLib byteId := ⟨[firstHint, secondHint], [firstHint, secondHint],
    [firstHint.announcement, secondHint.announcement], State.empty⟩
  let t₄ : HintNode byteLib byteId := ⟨[firstHint, secondHint], [firstHint, secondHint],
    [secondHint.announcement], ⟨none, some [0x17]⟩⟩
  have h₁ : Step byteLib byteId ⟨[], [], [], State.empty⟩ t₁ := .publish firstHint _
  have h₂ : Step byteLib byteId t₁ t₂ :=
    .load readFirst 2 [firstHint] t₁ (fun x hx => hx) loadPreviousHints_second
  have h₃ : Step byteLib byteId t₂ t₃ := .publishOwn secondHint t₂
  have h₄ : Step byteLib byteId t₃ t₄ :=
    .apply firstHint.announcement [secondHint.announcement] ⟨none, some [0x17]⟩ t₃ rfl rfl
  have h₅ : Step byteLib byteId t₄ (joined [firstHint, secondHint] [0x17, 0x25]) :=
    .apply secondHint.announcement [] ⟨none, some [0x17, 0x25]⟩ t₄ rfl rfl
  exact ((((Relation.ReflTransGen.single h₁).tail h₂).tail h₃).tail h₄).tail h₅

/-- The live event brings the first hint before `load_previous_hints` does. -/
theorem overlap_doubles_hint :
    let t := joined [firstHint, firstHint, secondHint] [0x17, 0x17, 0x25]
    Reachable byteLib byteId t ∧ Complete t ∧ ¬ OnePerIndex t ∧ ¬ Converged t t := by
  let a := firstHint.announcement
  let b := secondHint.announcement
  let t₁ : HintNode byteLib byteId := ⟨[firstHint], [], [], State.empty⟩
  let t₂ : HintNode byteLib byteId := ⟨[firstHint], [firstHint], [a], State.empty⟩
  let t₃ : HintNode byteLib byteId := ⟨[firstHint], [firstHint, firstHint], [a, a], State.empty⟩
  let t₄ : HintNode byteLib byteId := ⟨[firstHint, secondHint],
    [firstHint, firstHint, secondHint], [a, a, b], State.empty⟩
  let t₅ : HintNode byteLib byteId := ⟨[firstHint, secondHint],
    [firstHint, firstHint, secondHint], [a, b], ⟨none, some [0x17]⟩⟩
  let t₆ : HintNode byteLib byteId := ⟨[firstHint, secondHint],
    [firstHint, firstHint, secondHint], [b], ⟨none, some [0x17, 0x17]⟩⟩
  have h₁ : Step byteLib byteId ⟨[], [], [], State.empty⟩ t₁ := .publish firstHint _
  have h₂ : Step byteLib byteId t₁ t₂ :=
    .insertRemote firstHint 0 a t₁ List.mem_cons_self (by decide)
  have h₃ : Step byteLib byteId t₂ t₃ :=
    .load readFirst 2 [firstHint] t₂ (fun x hx => hx) loadPreviousHints_second
  have h₄ : Step byteLib byteId t₃ t₄ := .publishOwn secondHint t₃
  have h₅ : Step byteLib byteId t₄ t₅ := .apply a [a, b] ⟨none, some [0x17]⟩ t₄ rfl rfl
  have h₆ : Step byteLib byteId t₅ t₆ := .apply a [b] ⟨none, some [0x17, 0x17]⟩ t₅ rfl rfl
  have h₇ : Step byteLib byteId t₆ (joined [firstHint, firstHint, secondHint] [0x17, 0x17, 0x25]) :=
    .apply b [] ⟨none, some [0x17, 0x17, 0x25]⟩ t₆ rfl rfl
  have htwo : ¬ OnePerIndex (joined [firstHint, firstHint, secondHint] [0x17, 0x17, 0x25]) := by
    intro h
    have hcount := h.one firstHint List.mem_cons_self
    revert hcount
    decide
  refine ⟨?_, ⟨fun x hx => List.mem_cons_of_mem _ hx, fun x hx => absurd hx List.not_mem_nil⟩,
    htwo, fun h => htwo h.here⟩
  exact ((((((Relation.ReflTransGen.single h₁).tail h₂).tail h₃).tail h₄).tail h₅).tail h₆).tail h₇

theorem converged_iff_once_joined :
    Converged (joined [firstHint, secondHint] [0x17, 0x25])
      (joined [firstHint, secondHint] [0x17, 0x25]) := by
  have hc : Complete (joined [firstHint, secondHint] [0x17, 0x25]) :=
    ⟨fun x hx => hx, fun x hx => absurd hx List.not_mem_nil⟩
  have honce : Once (joined [firstHint, secondHint] [0x17, 0x25]) := by
    have hne : firstHint ≠ secondHint := fun h => by
      have hindex := congrArg PublishedHint.index h
      revert hindex
      decide
    refine ⟨by simp [joined, hne], fun x hx y hy hxy => ?_⟩
    simp only [joined, List.mem_cons, List.not_mem_nil, or_false] at hx hy
    rcases hx with rfl | rfl
    · rcases hy with rfl | rfl
      · rfl
      · cases hxy
    · rcases hy with rfl | rfl
      · cases hxy
      · rfl
  exact (converged_iff_once joined_reachable joined_reachable hc hc fun _ => Iff.rfl).mpr
    ⟨honce, honce⟩

end Overlap

end HintNode

end Hints

end Fangorn
