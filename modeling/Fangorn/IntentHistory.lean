import Fangorn.IntentStore
import Mathlib.Logic.Relation

/-! What the intent store answers after any run of its own calls: the last
registration of a filename that was not removed again. -/

namespace Fangorn

open Rust Ink Scale

namespace ContractIntentStore

inductive Event (Cid : Type) where
  | registered (filename : Bytes) (cid : Cid) (intents : List Intent)
  | removed (filename : Bytes)

def latest {Cid : Type} : List (Event Cid) → Bytes → Option (Cid × List Intent)
  | [], _ => none
  | .registered filename cid intents :: older, f =>
    if f = filename then some (cid, intents.map Intent.detached) else latest older f
  | .removed filename :: older, f => if f = filename then none else latest older f

inductive StoreCall (Cid : Type) where
  | register (caller : AccountId) (filename : Bytes) (cid : Cid) (intents : List Intent)
  | get (filename : Bytes)
  | remove (caller : AccountId) (filename : Bytes)

structure StoreRun (Cid : Type) where
  registry : PredicateRegistry
  history : List (Event Cid)

variable {Cid : Type}

section Run

variable (lib : CidLib Cid) (blake2 : Bytes → Arr 32)

/-- A call that fails or panics is no event, and no transaction went through. -/
def StoreCall.exec : StoreCall Cid → StoreRun Cid → StoreRun Cid
  | register caller filename cid intents, t =>
    match registerIntent lib blake2 caller filename cid intents t.registry with
    | .ok s => ⟨s, .registered filename cid intents :: t.history⟩
    | _ => t
  | get _, t => t
  | remove caller filename, t =>
    match removeIntent blake2 caller filename t.registry with
    | .ok s => ⟨s, .removed filename :: t.history⟩
    | _ => t

def Reachable (t : StoreRun Cid) : Prop :=
  Relation.ReflTransGen (fun t t' => ∃ c : StoreCall Cid, t' = c.exec lib blake2 t) ⟨.new, []⟩ t

/-- The chain answers reads of the contract at this address from this registry. -/
def Serves (chain : Chain) (contractAddress account : AccountId) (s : PredicateRegistry) : Prop :=
  ∀ input out, query blake2 PredicateRegistry.messages account input s = some out →
    chain.call contractAddress input = .ok out

structure Stored (t : StoreRun Cid) : Prop where
  absent : ∀ f, latest t.history f = none → t.registry.read f = none
  present : ∀ f found, latest t.history f = some found → ∃ entry,
    t.registry.read f = some entry ∧ (Entry.codec.encode entry).isSome ∧
      openEntry lib entry = .ok found

end Run

variable {lib : CidLib Cid} {blake2 : Bytes → Arr 32} {caller : AccountId}
  {filename f : Bytes} {cid : Cid} {intents : List Intent} {s s' : PredicateRegistry}

section Calls

theorem registerIntent_iff (hu : UniqueSelectors blake2 PredicateRegistry.messages) :
    registerIntent lib blake2 caller filename cid intents s = .ok s' ↔
      ∃ predicate, Intent.encodeVec intents = some predicate ∧
        ((Codec.bytes.pair (Codec.bytes.pair Codec.bytes)).encode
          (filename, lib.toBytes cid, predicate)).isSome ∧
        s.registerPredicate filename (lib.toBytes cid) predicate = (.ok (), s') ∧
        s'.rootStorage.isSome := by
  have hm : PredicateRegistry.registerMessage ∈ PredicateRegistry.messages := List.mem_cons_self
  simp only [registerIntent, registerArgs, Outcome.bind_eq_ok, Outcome.expect_eq_ok,
    Outcome.okOr_eq_ok, Option.bind_eq_bind, Option.bind_eq_some_iff, SubstrateBackend.callData]
  constructor
  · intro h
    obtain ⟨args, ⟨predicate, hpred, hargs⟩, hcall⟩ := h
    obtain ⟨u, hreg, -, hroot⟩ := (transact_result hu hm (Codec.decode_encode _ hargs)).mp hcall
    exact ⟨predicate, hpred, Option.isSome_of_mem hargs, hreg, hroot⟩
  · intro h
    obtain ⟨predicate, hpred, henc, hreg, hroot⟩ := h
    obtain ⟨args, hargs⟩ := Option.isSome_iff_exists.mp henc
    refine ⟨args, ⟨predicate, hpred, hargs⟩, ?_⟩
    exact (transact_result hu hm (Codec.decode_encode _ hargs)).mpr ⟨(), hreg, rfl, hroot⟩

theorem removeIntent_iff (hu : UniqueSelectors blake2 PredicateRegistry.messages) :
    removeIntent blake2 caller filename s = .ok s' ↔
      (Codec.bytes.encode filename).isSome ∧ ∃ entry,
        s.removePredicate filename = (.ok entry, s') ∧ (Entry.codec.encode entry).isSome ∧
        s'.rootStorage.isSome := by
  have hm : PredicateRegistry.removeMessage ∈ PredicateRegistry.messages := by
    simp [PredicateRegistry.messages]
  simp only [removeIntent, Outcome.bind_eq_ok, Outcome.expect_eq_ok, Outcome.okOr_eq_ok,
    SubstrateBackend.callData]
  constructor
  · intro h
    obtain ⟨args, hargs, hcall⟩ := h
    obtain ⟨entry, hrem, henc, hroot⟩ :=
      (transact_result hu hm (Codec.decode_encode _ hargs)).mp hcall
    exact ⟨Option.isSome_of_mem hargs, entry, hrem,
      by simpa [PredicateRegistry.encodeResult] using henc, hroot⟩
  · intro h
    obtain ⟨hargs, entry, hrem, henc, hroot⟩ := h
    obtain ⟨args, hargs⟩ := Option.isSome_iff_exists.mp hargs
    refine ⟨args, hargs, ?_⟩
    exact (transact_result hu hm (Codec.decode_encode _ hargs)).mpr
      ⟨entry, hrem, by simpa [PredicateRegistry.encodeResult] using henc, hroot⟩

end Calls

section History

variable {t : StoreRun Cid}

theorem new_stored : Stored lib (⟨.new, []⟩ : StoreRun Cid) where
  absent _ _ := rfl
  present f found h := by simp [latest] at h

theorem register_stored (hcid : ∀ c, lib.ofBytes (lib.toBytes c) = some c)
    (hu : UniqueSelectors blake2 PredicateRegistry.messages) (h : Stored lib t)
    (hok : registerIntent lib blake2 caller filename cid intents t.registry = .ok s') :
    Stored lib ⟨s', .registered filename cid intents :: t.history⟩ := by
  obtain ⟨predicate, hpred, henc, hreg, -⟩ := (registerIntent_iff hu).mp hok
  have hhere := PredicateRegistry.read_of_registered hreg
  have hother : ∀ f, f ≠ filename → s'.read f = t.registry.read f := by
    intro f hf
    have hread := PredicateRegistry.registerPredicate_read t.registry filename f
      (lib.toBytes cid) predicate
    rwa [hreg, if_neg fun hh => hf hh.1] at hread
  refine ⟨fun f hf => ?_, fun f found hf => ?_⟩
  · by_cases he : f = filename
    · simp [latest, he] at hf
    · rw [latest, if_neg he] at hf
      exact (hother f he).trans (h.absent f hf)
  · by_cases he : f = filename
    · rw [latest, if_pos he] at hf
      subst he
      refine ⟨_, hhere, ?_, ?_⟩
      · have hsizes := (Codec.pair_encode_isSome _ _).mp henc
        exact hsizes.2
      · rw [← Option.some.inj hf]
        exact openEntry_eq_ok.mpr ⟨Intent.decodeVec_encodeVec hpred, hcid cid⟩
    · rw [latest, if_neg he] at hf
      obtain ⟨entry, hread, hentry⟩ := h.present f found hf
      exact ⟨entry, (hother f he).trans hread, hentry⟩

theorem remove_stored (hu : UniqueSelectors blake2 PredicateRegistry.messages) (h : Stored lib t)
    (hok : removeIntent blake2 caller filename t.registry = .ok s') :
    Stored lib ⟨s', .removed filename :: t.history⟩ := by
  obtain ⟨-, entry, hrem, -⟩ := (removeIntent_iff hu).mp hok
  have hread : ∀ f, s'.read f = if f = filename then none else t.registry.read f := by
    intro f
    have hread := PredicateRegistry.removePredicate_read t.registry filename f
    rwa [hrem] at hread
  refine ⟨fun f hf => ?_, fun f found hf => ?_⟩
  · by_cases he : f = filename
    · rw [hread, if_pos he]
    · rw [latest, if_neg he] at hf
      rw [hread, if_neg he]
      exact h.absent f hf
  · by_cases he : f = filename
    · simp [latest, he] at hf
    · rw [latest, if_neg he] at hf
      rw [hread, if_neg he]
      exact h.present f found hf

theorem exec_stored (hcid : ∀ c, lib.ofBytes (lib.toBytes c) = some c)
    (hu : UniqueSelectors blake2 PredicateRegistry.messages) (h : Stored lib t)
    (c : StoreCall Cid) : Stored lib (c.exec lib blake2 t) := by
  cases c with
  | register caller filename cid intents =>
    cases hc : registerIntent lib blake2 caller filename cid intents t.registry with
    | ok s' => simpa [StoreCall.exec, hc] using register_stored hcid hu h hc
    | err e => simpa [StoreCall.exec, hc] using h
    | panic => simpa [StoreCall.exec, hc] using h
  | get f => exact h
  | remove caller filename =>
    cases hc : removeIntent blake2 caller filename t.registry with
    | ok s' => simpa [StoreCall.exec, hc] using remove_stored hu h hc
    | err e => simpa [StoreCall.exec, hc] using h
    | panic => simpa [StoreCall.exec, hc] using h

theorem reachable_stored (hcid : ∀ c, lib.ofBytes (lib.toBytes c) = some c)
    (hu : UniqueSelectors blake2 PredicateRegistry.messages) (h : Reachable lib blake2 t) :
    Stored lib t := by
  induction h with
  | refl => exact new_stored
  | tail _ hstep ih =>
    obtain ⟨c, rfl⟩ := hstep
    exact exec_stored hcid hu ih c

theorem getIntent_of_stored (hu : UniqueSelectors blake2 PredicateRegistry.messages)
    (h : Stored lib t) {chain : Chain} {contractAddress account : AccountId}
    (hserves : Serves blake2 chain contractAddress account t.registry)
    (hf : (Codec.bytes.encode f).isSome) :
    getIntent lib blake2 chain contractAddress f = .ok (latest t.history f) := by
  obtain ⟨args, hargs⟩ := Option.isSome_iff_exists.mp hf
  have hm : PredicateRegistry.readMessage ∈ PredicateRegistry.messages := by
    simp [PredicateRegistry.messages]
  have hquery := query_view hu hm (Codec.decode_encode _ hargs) account t.registry
  have hread : ∀ out, Entry.codec.opt.encode (t.registry.read f) = some out →
      SubstrateBackend.read blake2 chain contractAddress "read".toList (some args) =
        .ok (some (0 :: out)) := by
    intro out hout
    rw [hout] at hquery
    exact (SubstrateBackend.read_eq_ok ..).mpr ⟨0 :: out, hserves _ _ hquery, rfl⟩
  cases hl : latest t.history f with
  | none =>
    have hnone := h.absent f hl
    have hout : Entry.codec.opt.encode (t.registry.read f) = some [0] := by rw [hnone]; rfl
    simp only [getIntent, hargs, hread _ hout, Outcome.expect, Outcome.ok_bind]
    rfl
  | some found =>
    obtain ⟨entry, hentry, henc, hopen⟩ := h.present f found hl
    obtain ⟨e, he⟩ := Option.isSome_iff_exists.mp henc
    have hout : Entry.codec.opt.encode (t.registry.read f) = some (1 :: e) := by
      rw [hentry]
      simp [Codec.opt, he]
    have hdec := Codec.decode_encode _ hout
    simp only [getIntent, hargs, hread _ hout, Outcome.expect, Outcome.ok_bind, List.tail_cons,
      hdec, Outcome.okOr, hentry, hopen]

/-- The intent store is a map from filenames: it answers with the last
registration that was not removed. -/
theorem getIntent_of_run (hcid : ∀ c, lib.ofBytes (lib.toBytes c) = some c)
    (hu : UniqueSelectors blake2 PredicateRegistry.messages) (h : Reachable lib blake2 t) :
    (∀ chain contractAddress account f,
      Serves blake2 chain contractAddress account t.registry → (Codec.bytes.encode f).isSome →
        getIntent lib blake2 chain contractAddress f = .ok (latest t.history f)) ∧
    (∀ caller f cid intents, (latest t.history f).isSome →
      (StoreCall.register caller f cid intents).exec lib blake2 t = t) ∧
    ∀ caller f, latest t.history f = none →
      (StoreCall.remove caller f).exec lib blake2 t = t := by
  have hs := reachable_stored hcid hu h
  refine ⟨fun _ _ _ _ => getIntent_of_stored hu hs, fun caller f cid intents hf => ?_,
    fun caller f hf => ?_⟩
  · obtain ⟨found, hfound⟩ := Option.isSome_iff_exists.mp hf
    obtain ⟨entry, hread, -⟩ := hs.present f found hfound
    cases hc : registerIntent lib blake2 caller f cid intents t.registry with
    | ok s' =>
      obtain ⟨_, -, -, hreg, -⟩ := (registerIntent_iff hu).mp hc
      rw [PredicateRegistry.registerPredicate_of_some hread] at hreg
      simp at hreg
    | err e => simp [StoreCall.exec, hc]
    | panic => simp [StoreCall.exec, hc]
  · cases hc : removeIntent blake2 caller f t.registry with
    | ok s' =>
      obtain ⟨-, entry, hrem, -⟩ := (removeIntent_iff hu).mp hc
      rw [PredicateRegistry.removePredicate_of_none (hs.absent f hf)] at hrem
      simp at hrem
    | err e => simp [StoreCall.exec, hc]
    | panic => simp [StoreCall.exec, hc]

end History

section Sample

/-- BLAKE2b-256 of the message names. -/
def blake2OfRegistry (b : Bytes) : Arr 32 :=
  if b = asBytes "register_predicate".toList then
    beArr 32 0xe572eebe7f699128c451c9d9b6de05f25114188df6a72ab7f496b037660ffd2f
  else if b = asBytes "read".toList then
    beArr 32 0x217466dfeeae8cc92971fcc476b7da02e03ee45a1f8cf357be112487447c6f1f
  else if b = asBytes "read_all".toList then
    beArr 32 0xe7c135a5ad6b50b5a95a5e85ae31f8e7b0e239255951bf29f1a47620106c6cac
  else if b = asBytes "remove_predicate".toList then
    beArr 32 0x2d272f1042ab8e138ad5d44c0a514407346f22d9154746ea7de70176b14763ae
  else beArr 32 0

theorem uniqueSelectors_registry : UniqueSelectors blake2OfRegistry PredicateRegistry.messages := by
  unfold UniqueSelectors
  decide

def rawCid : CidLib Bytes := ⟨fun cid => cid, some, fun _ => []⟩

def registryChain (s : PredicateRegistry) : Chain where
  call _ input :=
    match query blake2OfRegistry PredicateRegistry.messages (beArr 32 0) input s with
    | some out => .ok out
    | none => .error []
  account _ := .ok none

theorem registryChain_serves (s : PredicateRegistry) (contractAddress : AccountId) :
    Serves blake2OfRegistry (registryChain s) contractAddress (beArr 32 0) s := by
  intro input out h
  simp [registryChain, h]

def ownerIntent : Intent := ⟨"Sr25519".toList, [], none⟩

def ownedFile : StoreRun Bytes :=
  (StoreCall.register (beArr 32 1) [102] [1, 85, 18, 0] [ownerIntent]).exec rawCid blake2OfRegistry
    ⟨.new, []⟩

theorem ownedFile_history :
    ownedFile.history = [.registered [102] [1, 85, 18, 0] [ownerIntent]] := by
  have hreg : registerIntent rawCid blake2OfRegistry (beArr 32 1) [102] [1, 85, 18, 0]
      [ownerIntent] .new = .ok (PredicateRegistry.registerPredicate [102] [1, 85, 18, 0]
        (4 :: 28 :: asBytes "Sr25519".toList ++ [0]) .new).2 :=
    (registerIntent_iff uniqueSelectors_registry).mpr
      ⟨4 :: 28 :: asBytes "Sr25519".toList ++ [0], by decide, by decide, rfl, by decide⟩
  simp [ownedFile, StoreCall.exec, hreg]

theorem getIntent_of_run_ownedFile :
    getIntent rawCid blake2OfRegistry (registryChain ownedFile.registry) (beArr 32 9) [102] =
      .ok (some ([1, 85, 18, 0], [ownerIntent])) := by
  have hrun : Reachable rawCid blake2OfRegistry ownedFile := .single ⟨_, rfl⟩
  have hget := (getIntent_of_run (fun _ => rfl) uniqueSelectors_registry hrun).1
    (registryChain ownedFile.registry) (beArr 32 9) (beArr 32 0) [102]
    (registryChain_serves _ _) (by decide)
  rwa [ownedFile_history] at hget

end Sample

end ContractIntentStore

end Fangorn
