import Fangorn.GadgetRegistry
import Fangorn.PredicateRegistry

/-! The intent store of client and node (`storage/contract_store.rs`), which
keeps encoded intents in the predicate registry. -/

namespace Fangorn

open Rust Ink Scale

/-- `Cid::to_bytes`, `Cid::try_from` and `Cid::to_string`. -/
structure CidLib (Cid : Type) where
  toBytes : Cid → Bytes
  ofBytes : Bytes → Option Cid
  toString : Cid → Str

namespace ContractIntentStore

variable {Cid : Type} (lib : CidLib Cid) (blake2 : Bytes → Arr 32)

/-- The arguments of a registration; the encoders may panic. -/
def registerArgs (filename : Bytes) (cid : Cid) (intent : List Intent) : Option Bytes := do
  let intentBytes ← Intent.encodeVec intent
  (Codec.bytes.pair (Codec.bytes.pair Codec.bytes)).encode
    (filename, lib.toBytes cid, intentBytes)

def registerIntent (caller : AccountId) (filename : Bytes) (cid : Cid) (intent : List Intent)
    (s : PredicateRegistry) : Outcome Unit PredicateRegistry := do
  let data ← .expect (registerArgs lib filename cid intent)
  .okOr () (transact blake2 PredicateRegistry.messages caller
    (SubstrateBackend.callData blake2 "register_predicate".toList data) s)

/-- What an entry of the registry stands for; bad bytes are a panic. -/
def openEntry (entry : Entry) : Outcome Str (Cid × List Intent) := do
  let intents ← .expect (Intent.decodeVec entry.predicate)
  let cid ← .expect (lib.ofBytes entry.cid)
  .ok (cid, intents)

def getIntent (chain : Chain) (contractAddress : AccountId) (filename : Bytes) :
    Outcome Str (Option (Cid × List Intent)) := do
  let data ← .expect (Codec.bytes.encode filename)
  let result ← SubstrateBackend.read blake2 chain contractAddress "read".toList (some data)
  let data ← .expect result
  let (decoded, _) ← .okOr "Could not decode the entry".toList (Entry.codec.opt.decode data.tail)
  match decoded with
  | none => .ok none
  | some entry => do
    let found ← openEntry lib entry
    .ok (some found)

def removeIntent (caller : AccountId) (filename : Bytes) (s : PredicateRegistry) :
    Outcome Unit PredicateRegistry := do
  let data ← .expect (Codec.bytes.encode filename)
  .okOr () (transact blake2 PredicateRegistry.messages caller
    (SubstrateBackend.callData blake2 "remove_predicate".toList data) s)

variable {lib blake2} {chain : Chain} {contractAddress : AccountId} {filename : Bytes}

theorem registerIntent_eq_ok {caller : AccountId} {cid : Cid} {intent : List Intent}
    {s s' : PredicateRegistry}
    (h : registerIntent lib blake2 caller filename cid intent s = .ok s') :
    ∃ predicate, Intent.encodeVec intent = some predicate ∧
      s.registerPredicate filename (lib.toBytes cid) predicate = (.ok (), s') ∧
      s'.rootStorage.isSome := by
  simp only [registerIntent, registerArgs, Outcome.bind_eq_ok, Outcome.expect_eq_ok,
    Outcome.okOr_eq_ok, Option.bind_eq_bind, Option.bind_eq_some_iff] at h
  obtain ⟨args, ⟨predicate, hpred, hargs⟩, hcall⟩ := h
  rw [SubstrateBackend.callData, PredicateRegistry.transact_register caller s hargs] at hcall
  refine ⟨predicate, hpred, ?_⟩
  cases hr : s.registerPredicate filename (lib.toBytes cid) predicate with
  | mk result t =>
    cases result with
    | ok u =>
      simp only [hr, Option.ite_none_right_eq_some, Option.some.injEq] at hcall
      obtain ⟨hroot, rfl⟩ := hcall
      exact ⟨rfl, hroot⟩
    | error e => simp [hr] at hcall

theorem registerIntent_ok_iff {caller : AccountId} {cid : Cid} {intent : List Intent}
    {s : PredicateRegistry} :
    (∃ s', registerIntent lib blake2 caller filename cid intent s = .ok s') ↔
      (registerArgs lib filename cid intent).isSome ∧
        s.predicateRegistry.contains filename = false ∧ s.HasRoom filename := by
  constructor
  · intro h
    obtain ⟨s', hs'⟩ := h
    obtain ⟨predicate, -, hok, hroot⟩ := registerIntent_eq_ok hs'
    obtain ⟨args, hargs, -⟩ := Outcome.bind_eq_ok.mp hs'
    refine ⟨Option.isSome_of_mem (Outcome.expect_eq_ok.mp hargs), ?_⟩
    cases hc : s.predicateRegistry.contains filename with
    | false => exact ⟨rfl, (PredicateRegistry.hasRoom_iff hok).mpr hroot⟩
    | true => simp [PredicateRegistry.registerPredicate, hc] at hok
  · intro h
    obtain ⟨hargs, hfree, hroom⟩ := h
    obtain ⟨args, hargs⟩ := Option.isSome_iff_exists.mp hargs
    obtain ⟨predicate, -, hencode⟩ := Option.bind_eq_some_iff.mp hargs
    have hok : ∃ s', s.registerPredicate filename (lib.toBytes cid) predicate = (.ok (), s') :=
      ⟨_, if_neg (by simp [hfree])⟩
    obtain ⟨s', hok⟩ := hok
    refine ⟨s', Outcome.bind_eq_ok.mpr ⟨args, Outcome.expect_eq_ok.mpr hargs, ?_⟩⟩
    rw [SubstrateBackend.callData, PredicateRegistry.transact_register caller s hencode, hok]
    dsimp only
    rw [if_pos ((PredicateRegistry.hasRoom_iff hok).mp hroom)]
    rfl

theorem openEntry_eq_ok {entry : Entry} {cid : Cid} {intents : List Intent} :
    openEntry lib entry = .ok (cid, intents) ↔
      Intent.decodeVec entry.predicate = some intents ∧ lib.ofBytes entry.cid = some cid := by
  simp only [openEntry, Outcome.bind_eq_ok, Outcome.expect_eq_ok, Outcome.ok.injEq,
    Prod.mk.injEq]
  constructor
  · intro h
    obtain ⟨intents, hi, cid, hc, rfl, rfl⟩ := h
    exact ⟨hi, hc⟩
  · intro h
    exact ⟨intents, h.1, cid, h.2, rfl, rfl⟩

def Answers (blake2 : Bytes → Arr 32) (chain : Chain) (contractAddress : AccountId)
    (filename : Bytes) (entry : Option Entry) : Prop :=
  ∃ args out rest, Codec.bytes.encode filename = some args ∧
    chain.call contractAddress (SubstrateBackend.callData blake2 "read".toList args) = .ok out ∧
    Entry.codec.opt.decode out.tail = some (entry, rest)

theorem getIntent_eq_some {cid : Cid} {intents : List Intent} :
    getIntent lib blake2 chain contractAddress filename = .ok (some (cid, intents)) ↔
      ∃ entry, Answers blake2 chain contractAddress filename (some entry) ∧
        openEntry lib entry = .ok (cid, intents) := by
  simp only [getIntent, Outcome.bind_eq_ok, Outcome.expect_eq_ok, Outcome.okOr_eq_ok,
    SubstrateBackend.read_eq_ok, Prod.exists, Option.getD_some, Answers]
  constructor
  · intro h
    obtain ⟨args, ha, _, ⟨out, ho, rfl⟩, _, hd, decoded, rest, hdec, h⟩ := h
    obtain rfl := Option.some.inj hd
    cases decoded with
    | none => simp at h
    | some entry =>
      obtain ⟨found, hfound, he⟩ := Outcome.bind_eq_ok.mp h
      obtain rfl := Option.some.inj (Outcome.ok.inj he)
      exact ⟨entry, ⟨args, out, rest, ha, ho, hdec⟩, hfound⟩
  · intro h
    obtain ⟨entry, ⟨args, out, rest, ha, ho, hdec⟩, hfound⟩ := h
    refine ⟨args, ha, some out, ⟨out, ho, rfl⟩, out, rfl, some entry, rest, hdec, ?_⟩
    simp [hfound]

end ContractIntentStore

end Fangorn
