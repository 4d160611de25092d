import Fangorn.DocStore

/-! The encryption client (`crypto/encrypt.rs`) on the stores it shares with
the workers. -/

namespace Fangorn

open Rust Ink Scale

/-- An accepted registration; one made by the client has its raw intent. -/
structure Registration where
  rawIntent : Option Str
  filename : Bytes
  entry : Entry

/-- Document and predicate registry, with the history of what was encrypted
under which raw intent and of what was registered. -/
structure SharedStores (Ciphertext : Type) where
  docs : Str → Option Bytes
  registry : PredicateRegistry
  stored : List (Str × Ciphertext)
  registrations : List Registration

namespace SharedStores

variable {Ciphertext : Type}

def empty : SharedStores Ciphertext := ⟨fun _ => none, .new, [], []⟩

def registerPredicate (filename cid predicate : Bytes) (s : SharedStores Ciphertext) :
    SharedStores Ciphertext :=
  match s.registry.registerPredicate filename cid predicate with
  | (.ok _, registry) => { s with
      registry := registry
      registrations := s.registrations ++ [⟨none, filename, ⟨cid, predicate⟩⟩] }
  | (.error _, _) => s

def removePredicate (filename : Bytes) (s : SharedStores Ciphertext) : SharedStores Ciphertext :=
  match s.registry.removePredicate filename with
  | (.ok _, registry) => { s with registry := registry }
  | (.error _, _) => s

end SharedStores

/-- The message of a parsing error is kept as the error itself. -/
inductive EncryptionClientError where
  | docstoreError (s : Str)
  | encryptionError (s : Str)
  | intentParsingError (e : IntentError)
  | serializationError

structure EncryptionClient (Cid Ciphertext : Type) where
  registry : GadgetRegistry
  cid : CidLib Cid
  buildCid : Bytes → Cid
  blake2 : Bytes → Arr 32
  account : AccountId
  ciphertextToBytes : Ciphertext → Option Bytes

namespace EncryptionClient

variable {Cid Ciphertext : Type} (client : EncryptionClient Cid Ciphertext)

/-- `encrypt` is one call of the library, which draws its own randomness. -/
def encryptInner (encrypt : Bytes → Except Str Ciphertext) (plaintext : Bytes) :
    Outcome EncryptionClientError (Ciphertext × Bytes) :=
  match encrypt plaintext with
  | .error e => .err (.encryptionError e)
  | .ok ciphertext => do
    let ciphertextBytes ← .okOr .serializationError (client.ciphertextToBytes ciphertext)
    .ok (ciphertext, ciphertextBytes)

/-- The ciphertext stays in the document also when the registration fails,
which is a panic. -/
def encrypt (encryptLib : Bytes → Except Str Ciphertext) (w : BackendWrite)
    (plaintext filename : Bytes) (rawIntent : Str) (s : SharedStores Ciphertext) :
    Outcome EncryptionClientError Unit × SharedStores Ciphertext :=
  match client.registry.parseIntents rawIntent with
  | .err e => (.err (.intentParsingError e), s)
  | .panic => (.panic, s)
  | .ok intents =>
    match client.encryptInner encryptLib plaintext with
    | .err e => (.err e, s)
    | .panic => (.panic, s)
    | .ok (ciphertext, ciphertextBytes) =>
      let stored := s.stored ++ [(rawIntent, ciphertext)]
      match IrohDocStore.add client.cid client.buildCid w ciphertextBytes s.docs with
      | (.err e, docs) => (.err (.docstoreError e),
          { s with docs := docs, stored := if w.stored then stored else s.stored })
      | (.panic, docs) => (.panic, { s with docs := docs })
      | (.ok cid, docs) =>
        let s := { s with docs := docs, stored := stored }
        match ContractIntentStore.registerIntent client.cid client.blake2 client.account filename
            cid intents s.registry with
        | .err _ => (.panic, s)
        | .panic => (.panic, s)
        | .ok registry =>
          let registered := (registry.read filename).toList.map fun entry =>
            ⟨some rawIntent, filename, entry⟩
          (.ok (), { s with
            registry := registry
            registrations := s.registrations ++ registered })

section Effects

structure Stores (rawIntent : Str) (s s' : SharedStores Ciphertext) (intents : List Intent)
    (ciphertextBytes : Bytes) : Prop where
  parsed : client.registry.parseIntents rawIntent = .ok intents
  stored : ∃ ciphertext, client.ciphertextToBytes ciphertext = some ciphertextBytes ∧
    s'.stored = s.stored ++ [(rawIntent, ciphertext)]
  document : ∃ content, Announcement.codec.encode ⟨.doc, ciphertextBytes⟩ = some content ∧
    s'.docs = Function.update s.docs
      (client.cid.toString (client.buildCid ciphertextBytes)) (some content)

structure Registers (rawIntent : Str) (filename : Bytes) (s s' : SharedStores Ciphertext)
    (intents : List Intent) (ciphertextBytes predicate : Bytes) : Prop where
  encoded : Intent.encodeVec intents = some predicate
  accepted : s.registry.registerPredicate filename
    (client.cid.toBytes (client.buildCid ciphertextBytes)) predicate = (.ok (), s'.registry)
  recorded : s'.registrations = s.registrations ++ [⟨some rawIntent, filename,
    ⟨client.cid.toBytes (client.buildCid ciphertextBytes), predicate⟩⟩]

variable {client}

theorem encryptInner_eq_ok {encryptLib : Bytes → Except Str Ciphertext} {plaintext : Bytes}
    {ciphertext : Ciphertext} {ciphertextBytes : Bytes}
    (h : client.encryptInner encryptLib plaintext = .ok (ciphertext, ciphertextBytes)) :
    client.ciphertextToBytes ciphertext = some ciphertextBytes := by
  unfold encryptInner at h
  cases hlib : encryptLib plaintext with
  | error e => simp [hlib] at h
  | ok c =>
    simp only [hlib, Outcome.bind_eq_ok, Outcome.okOr_eq_ok, Outcome.ok.injEq,
      Prod.mk.injEq] at h
    obtain ⟨bytes, hbytes, rfl, rfl⟩ := h
    exact hbytes

theorem encrypt_cases {encryptLib : Bytes → Except Str Ciphertext} {w : BackendWrite}
    {plaintext filename : Bytes} {rawIntent : Str} {s s' : SharedStores Ciphertext}
    {o : Outcome EncryptionClientError Unit}
    (h : client.encrypt encryptLib w plaintext filename rawIntent s = (o, s')) :
    s' = s ∨ ∃ intents ciphertextBytes, client.Stores rawIntent s s' intents ciphertextBytes ∧
      ((s'.registry = s.registry ∧ s'.registrations = s.registrations) ∨
        ∃ predicate,
          client.Registers rawIntent filename s s' intents ciphertextBytes predicate) := by
  unfold encrypt at h
  cases hparse : client.registry.parseIntents rawIntent with
  | err e =>
    rw [hparse] at h
    exact Or.inl (Prod.mk.inj h).2.symm
  | panic =>
    rw [hparse] at h
    exact Or.inl (Prod.mk.inj h).2.symm
  | ok intents =>
    cases hinner : client.encryptInner encryptLib plaintext with
    | err e =>
      rw [hparse, hinner] at h
      exact Or.inl (Prod.mk.inj h).2.symm
    | panic =>
      rw [hparse, hinner] at h
      exact Or.inl (Prod.mk.inj h).2.symm
    | ok sealed =>
      obtain ⟨ciphertext, ciphertextBytes⟩ := sealed
      have hbytes := encryptInner_eq_ok hinner
      rw [hparse, hinner] at h
      dsimp only at h
      rcases hadd : IrohDocStore.add client.cid client.buildCid w ciphertextBytes s.docs with
        ⟨result, docs⟩
      have hcases := IrohDocStore.add_cases client.cid client.buildCid w ciphertextBytes s.docs
      rw [hadd] at h hcases
      rcases hcases with ⟨hresult, rfl⟩ | ⟨hwritten, ⟨content, hcontent, rfl⟩, hresult⟩
      · rcases hresult with rfl | ⟨hlost, e, rfl⟩
        · exact Or.inl (Prod.mk.inj h).2.symm
        · simp only [hlost, Bool.false_eq_true, if_false] at h
          exact Or.inl (Prod.mk.inj h).2.symm
      refine Or.inr ⟨intents, ciphertextBytes, ?_⟩
      rcases hresult with rfl | ⟨e, rfl⟩
      · dsimp only at h
        cases hreg : ContractIntentStore.registerIntent client.cid client.blake2 client.account
            filename (client.buildCid ciphertextBytes) intents s.registry with
        | err e =>
          rw [hreg] at h
          obtain ⟨-, rfl⟩ := Prod.mk.inj h
          exact ⟨⟨hparse, ⟨ciphertext, hbytes, rfl⟩, content, hcontent, rfl⟩, Or.inl ⟨rfl, rfl⟩⟩
        | panic =>
          rw [hreg] at h
          obtain ⟨-, rfl⟩ := Prod.mk.inj h
          exact ⟨⟨hparse, ⟨ciphertext, hbytes, rfl⟩, content, hcontent, rfl⟩, Or.inl ⟨rfl, rfl⟩⟩
        | ok registry =>
          obtain ⟨predicate, hpred, hok, -⟩ := ContractIntentStore.registerIntent_eq_ok hreg
          have hread := PredicateRegistry.read_of_registered hok
          rw [hreg] at h
          obtain ⟨-, rfl⟩ := Prod.mk.inj h
          refine ⟨⟨hparse, ⟨ciphertext, hbytes, rfl⟩, content, hcontent, rfl⟩,
            Or.inr ⟨predicate, hpred, hok, ?_⟩⟩
          simp [hread]
      · simp only [hwritten, if_true] at h
        obtain ⟨-, rfl⟩ := Prod.mk.inj h
        exact ⟨⟨hparse, ⟨ciphertext, hbytes, rfl⟩, content, hcontent, rfl⟩, Or.inl ⟨rfl, rfl⟩⟩

end Effects

end EncryptionClient

end Fangorn
