import Fangorn.Encryption
import Fangorn.PasswordAccess
import Fangorn.Worker

/-! Clients, the predicate registry, the request pool and a worker together:
under which condition a share of a ciphertext is sent out. -/

namespace Fangorn

open Rust Ink Scale

namespace IntentBinding

variable {Cid Ciphertext Addr : Type}

/-- Last come the shares a worker sent out, each with its request. -/
structure SystemState (Cid Ciphertext Addr : Type) where
  stores : SharedStores Ciphertext
  pool : RequestPool
  released : List (DecryptionRequest × Release Cid Ciphertext Addr)

/-- What clients and workers share: the gadgets, the serialisation of
ciphertexts, identifiers of documents and the hash behind the selectors. -/
structure Setting (Cid Ciphertext Addr : Type) where
  gadgets : GadgetRegistry
  lib : NodeLib Cid Ciphertext Addr
  ciphertextToBytes : Ciphertext → Option Bytes
  buildCid : Bytes → Cid
  blake2 : Bytes → Arr 32

section Steps

variable (S : Setting Cid Ciphertext Addr)

def clientOf (account : AccountId) : EncryptionClient Cid Ciphertext :=
  ⟨S.gadgets, S.lib.cid, S.buildCid, S.blake2, account, S.ciphertextToBytes⟩

/-- A worker's answers, where it gets any, come from the stores. -/
structure Sees (env : WorkerEnv Cid Ciphertext Addr) (stores : SharedStores Ciphertext) :
    Prop where
  lib : env.lib = S.lib
  blake2 : env.blake2 = S.blake2
  registry : ∃ account, ∀ input out, env.chain.call env.intentStore input = .ok out →
    query S.blake2 PredicateRegistry.messages account input stores.registry = some out
  document : ∀ key found, env.docRead key = .ok found → found = stores.docs key

inductive SystemStep : SystemState Cid Ciphertext Addr → SystemState Cid Ciphertext Addr → Prop
  | encrypt (account : AccountId) (encryptLib : Bytes → Except Str Ciphertext) (w : BackendWrite)
      (plaintext filename : Bytes) (rawIntent : Str) (s : SystemState Cid Ciphertext Addr) :
      SystemStep s { s with stores :=
        ((clientOf S account).encrypt encryptLib w plaintext filename rawIntent s.stores).2 }
  | register (filename cid predicate : Bytes) (s : SystemState Cid Ciphertext Addr) :
      SystemStep s { s with stores := s.stores.registerPredicate filename cid predicate }
  | remove (filename : Bytes) (s : SystemState Cid Ciphertext Addr) :
      SystemStep s { s with stores := s.stores.removePredicate filename }
  | request (req : DecryptionRequest) (s : SystemState Cid Ciphertext Addr) :
      SystemStep s { s with pool := (RequestPool.add S.blake2 req s.pool).2 }
  | process (env : WorkerEnv Cid Ciphertext Addr)
      (attest : DecryptionRequest → RequestPool → Outcome Unit RequestPool)
      (req : DecryptionRequest) (s : SystemState Cid Ciphertext Addr) (o : Outcome Str Unit)
      (w : World RequestPool Cid Ciphertext Addr) :
      req ∈ s.pool.readAll → Sees S env s.stores →
      Worker.processDecryptionRequest S.gadgets env attest req ⟨s.pool, []⟩ = (o, w) →
      SystemStep s ⟨s.stores, w.pool, s.released ++ w.sent.map (req, ·)⟩

def Reachable (s : SystemState Cid Ciphertext Addr) : Prop :=
  ∃ pool, Relation.ReflTransGen (SystemStep S) ⟨.empty, pool, []⟩ s

def Passes (req : DecryptionRequest) (intents : List Intent) : Prop :=
  ∃ witness, Hex.decode req.witnessHex = some witness ∧
    S.gadgets.verifyIntents intents witness = .ok true

/-- The ciphertext of the share is the document of this identifier. -/
def Documented (stores : SharedStores Ciphertext) (cid : Cid) (ciphertext : Ciphertext) : Prop :=
  ∃ rawIntent c b, (rawIntent, c) ∈ stores.stored ∧ S.ciphertextToBytes c = some b ∧
    S.lib.cid.toString cid = S.lib.cid.toString (S.buildCid b) ∧
    S.lib.ciphertextOfBytes b = some ciphertext

structure Recorded (stores : SharedStores Ciphertext) : Prop where
  entries : ∀ filename entry, stores.registry.read filename = some entry →
    ∃ reg ∈ stores.registrations, reg.filename = filename ∧ reg.entry = entry
  own : ∀ reg ∈ stores.registrations, ∀ rawIntent, reg.rawIntent = some rawIntent →
    ∃ intents, S.gadgets.parseIntents rawIntent = .ok intents ∧
      Intent.decodeVec reg.entry.predicate = some (intents.map Intent.detached)
  documents : ∀ key content, stores.docs key = some content →
    ∃ rawIntent c b, (rawIntent, c) ∈ stores.stored ∧ S.ciphertextToBytes c = some b ∧
      key = S.lib.cid.toString (S.buildCid b) ∧
      Announcement.codec.encode ⟨.doc, b⟩ = some content

/-- The entry in force under the requested filename names the document that the
share is made from, and the witness passes its intents. -/
structure InForce (stores : SharedStores Ciphertext) (req : DecryptionRequest)
    (release : Release Cid Ciphertext Addr) : Prop where
  entry : ∃ entry intents, stores.registry.read req.filename = some entry ∧
    S.lib.cid.ofBytes entry.cid = some release.cid ∧
    Intent.decodeVec entry.predicate = some intents ∧ Passes S req intents
  document : Documented S stores release.cid release.ciphertext

/-- The entry in force was registered by an encryption under this intent, or has
the same intents. -/
def Keeps (stores : SharedStores Ciphertext) (filename : Bytes) (rawIntent : Str)
    (intents : List Intent) : Prop :=
  ∀ entry, stores.registry.read filename = some entry →
    ⟨some rawIntent, filename, entry⟩ ∈ stores.registrations ∨
      Intent.decodeVec entry.predicate = some (intents.map Intent.detached)

end Steps

section Invariant

variable {S : Setting Cid Ciphertext Addr} {stores stores' : SharedStores Ciphertext}
  {s t : SystemState Cid Ciphertext Addr}

theorem recorded_empty : Recorded S (.empty : SharedStores Ciphertext) where
  entries _ _ h := by simp [SharedStores.empty, PredicateRegistry.read, PredicateRegistry.new] at h
  own _ h := by simp [SharedStores.empty] at h
  documents _ _ h := by simp [SharedStores.empty] at h

theorem entries_registered {registry registry' : PredicateRegistry}
    {registrations : List Registration} (reg : Registration)
    (h : ∀ filename entry, registry.read filename = some entry →
      ∃ reg ∈ registrations, reg.filename = filename ∧ reg.entry = entry)
    (hreg : registry.registerPredicate reg.filename reg.entry.cid reg.entry.predicate =
      (.ok (), registry')) :
    ∀ filename entry, registry'.read filename = some entry →
      ∃ r ∈ registrations ++ [reg], r.filename = filename ∧ r.entry = entry := by
  intro filename entry hread
  have hresult := PredicateRegistry.registerPredicate_read registry reg.filename filename
    reg.entry.cid reg.entry.predicate
  rw [hreg] at hresult
  rw [hresult] at hread
  split_ifs at hread with hnew
  · exact ⟨reg, by simp, hnew.1.symm, Option.some.inj hread⟩
  · obtain ⟨r, hr, hfr⟩ := h filename entry hread
    exact ⟨r, List.mem_append_left _ hr, hfr⟩

theorem registerPredicate_recorded (h : Recorded S stores) (filename cid predicate : Bytes) :
    Recorded S (stores.registerPredicate filename cid predicate) := by
  unfold SharedStores.registerPredicate
  rcases hreg : stores.registry.registerPredicate filename cid predicate with ⟨result, registry⟩
  cases result with
  | error e => exact h
  | ok u =>
    refine ⟨?_, ?_, h.documents⟩
    · exact entries_registered ⟨none, filename, cid, predicate⟩ h.entries hreg
    · intro reg hmem rawIntent hraw
      rcases List.mem_append.mp hmem with hold | hnew
      · exact h.own reg hold rawIntent hraw
      · rw [List.mem_singleton.mp hnew] at hraw
        cases hraw

theorem removePredicate_recorded (h : Recorded S stores) (filename : Bytes) :
    Recorded S (stores.removePredicate filename) := by
  have hread := PredicateRegistry.removePredicate_read stores.registry filename
  unfold SharedStores.removePredicate
  rcases hrem : stores.registry.removePredicate filename with ⟨result, registry⟩
  rw [hrem] at hread
  cases result with
  | error e => exact h
  | ok u =>
    refine ⟨fun f entry he => ?_, h.own, h.documents⟩
    have hf := hread f
    dsimp only at he hf
    rw [hf] at he
    split_ifs at he
    exact h.entries f entry he

theorem encrypt_recorded (h : Recorded S stores) (account : AccountId)
    (encryptLib : Bytes → Except Str Ciphertext) (w : BackendWrite) (plaintext filename : Bytes)
    (rawIntent : Str) {o : Outcome EncryptionClientError Unit}
    (hrun : (clientOf S account).encrypt encryptLib w plaintext filename rawIntent stores =
      (o, stores')) : Recorded S stores' := by
  rcases EncryptionClient.encrypt_cases hrun with rfl | ⟨intents, b, hstores, hregs⟩
  · exact h
  obtain ⟨c, hbytes, hstored⟩ := hstores.stored
  obtain ⟨content, hcontent, hdocs⟩ := hstores.document
  have hdocuments : ∀ key content, stores'.docs key = some content →
      ∃ rawIntent c b, (rawIntent, c) ∈ stores'.stored ∧ S.ciphertextToBytes c = some b ∧
        key = S.lib.cid.toString (S.buildCid b) ∧
        Announcement.codec.encode ⟨.doc, b⟩ = some content := by
    intro key content' hkey
    rw [hdocs, Function.update_apply] at hkey
    rw [hstored]
    split_ifs at hkey with hnew
    · exact ⟨rawIntent, c, b, by simp, hbytes, hnew, hkey ▸ hcontent⟩
    · obtain ⟨raw, c', b', hmem, hrest⟩ := h.documents key content' hkey
      exact ⟨raw, c', b', List.mem_append_left _ hmem, hrest⟩
  rcases hregs with ⟨hregistry, hregistrations⟩ | ⟨predicate, hreg⟩
  · refine ⟨?_, ?_, hdocuments⟩
    · rw [hregistry, hregistrations]
      exact h.entries
    · rw [hregistrations]
      exact h.own
  · refine ⟨?_, ?_, hdocuments⟩
    · rw [hreg.recorded]
      exact entries_registered ⟨some rawIntent, filename, _, predicate⟩ h.entries
        hreg.accepted
    · rw [hreg.recorded]
      intro reg hmem raw hraw
      rcases List.mem_append.mp hmem with hold | hnew
      · exact h.own reg hold raw hraw
      · rw [List.mem_singleton.mp hnew] at hraw ⊢
        obtain rfl : rawIntent = raw := Option.some.inj hraw
        exact ⟨intents, hstores.parsed, Intent.decodeVec_encodeVec hreg.encoded⟩

theorem read_of_getIntent (hsel : selector S.blake2 "register_predicate".toList ≠
      selector S.blake2 "read".toList) {env : WorkerEnv Cid Ciphertext Addr}
    (hsees : Sees S env stores) {filename : Bytes} {cid : Cid} {intents : List Intent}
    (h : ContractIntentStore.getIntent env.lib.cid env.blake2 env.chain env.intentStore filename =
      .ok (some (cid, intents))) :
    ∃ entry, stores.registry.read filename = some entry ∧
      S.lib.cid.ofBytes entry.cid = some cid ∧
      Intent.decodeVec entry.predicate = some intents := by
  rw [hsees.lib, hsees.blake2, ContractIntentStore.getIntent_eq_some] at h
  obtain ⟨entry, ⟨args, out, rest, hargs, hcall, hdec⟩, hopen⟩ := h
  obtain ⟨account, hanswer⟩ := hsees.registry
  have hquery := hanswer _ out hcall
  rw [SubstrateBackend.callData, PredicateRegistry.query_read hsel account _ hargs] at hquery
  obtain ⟨e, he, rfl⟩ := Option.map_eq_some_iff.mp hquery
  have hback := Codec.decode_encode _ he
  rw [List.tail_cons, hback, Option.some.injEq, Prod.mk.injEq] at hdec
  obtain ⟨hintents, hcid⟩ := ContractIntentStore.openEntry_eq_ok.mp hopen
  exact ⟨entry, hdec.1, hcid, hintents⟩

theorem inForce_of_prepared (hsel : selector S.blake2 "register_predicate".toList ≠
      selector S.blake2 "read".toList) (h : Recorded S stores)
    {env : WorkerEnv Cid Ciphertext Addr} (hsees : Sees S env stores) {req : DecryptionRequest}
    {release : Release Cid Ciphertext Addr}
    (hprep : Worker.prepare S.gadgets env req = .ok (some release)) :
    InForce S stores req release := by
  obtain ⟨witness, intents, hw, hget, hv, b, hfetch, hct⟩ := Worker.prepare_eq_some hprep
  obtain ⟨entry, hread, hcid, hintents⟩ := read_of_getIntent hsel hsees hget
  refine ⟨⟨entry, intents, hread, hcid, hintents, witness, hw, hv⟩, ?_⟩
  obtain ⟨content, tag, rest, hdoc, hdec⟩ := (IrohDocStore.fetch_eq_some env.lib.cid).mp hfetch
  have hkey := hsees.document _ _ hdoc
  obtain ⟨raw, c, b', hmem, hbytes, htext, hcontent⟩ := h.documents _ content hkey.symm
  have hback := Codec.decode_encode _ hcontent
  rw [hdec, Option.some.injEq, Prod.mk.injEq, Announcement.mk.injEq] at hback
  obtain rfl := hback.1.2
  rw [hsees.lib] at htext hct
  exact ⟨raw, c, b, hmem, hbytes, htext, hct⟩

theorem step_recorded (hstep : SystemStep S s t) (h : Recorded S s.stores) :
    Recorded S t.stores := by
  cases hstep with
  | encrypt account encryptLib w plaintext filename rawIntent =>
    exact encrypt_recorded h account encryptLib w plaintext filename rawIntent rfl
  | register filename cid predicate => exact registerPredicate_recorded h filename cid predicate
  | remove filename => exact removePredicate_recorded h filename
  | request req => exact h
  | process env attest req _ o w _ hsees hproc => exact h

theorem reachable_recorded (h : Reachable S s) : Recorded S s.stores := by
  obtain ⟨pool, hrun⟩ := h
  induction hrun with
  | refl => exact recorded_empty
  | tail _ hstep ih => exact step_recorded hstep ih

/-- What a step sends out is due under the entries of the state before it. -/
theorem step_sent (hsel : selector S.blake2 "register_predicate".toList ≠
      selector S.blake2 "read".toList) (hrec : Recorded S s.stores) (hstep : SystemStep S s t) :
    ∃ sent, t.released = s.released ++ sent ∧ ∀ p ∈ sent, InForce S s.stores p.1 p.2 := by
  cases hstep with
  | encrypt account encryptLib w plaintext filename rawIntent =>
    exact ⟨[], (List.append_nil _).symm, by simp⟩
  | register filename cid predicate => exact ⟨[], (List.append_nil _).symm, by simp⟩
  | remove filename => exact ⟨[], (List.append_nil _).symm, by simp⟩
  | request req => exact ⟨[], (List.append_nil _).symm, by simp⟩
  | process env attest req _ o w _ hsees hproc =>
    refine ⟨_, rfl, fun p hp => ?_⟩
    obtain ⟨release, hsent, rfl⟩ := List.mem_map.mp hp
    have hw : w = (Worker.processDecryptionRequest S.gadgets env attest req ⟨s.pool, []⟩).2 := by
      rw [hproc]
    rw [hw] at hsent
    exact inForce_of_prepared hsel hrec hsees (Worker.process_sent rfl hsent)

theorem InForce.passes (hrec : Recorded S stores) {req : DecryptionRequest}
    {release : Release Cid Ciphertext Addr} (h : InForce S stores req release) {rawIntent : Str}
    {intents : List Intent} (hparse : S.gadgets.parseIntents rawIntent = .ok intents)
    (hkeeps : Keeps stores req.filename rawIntent intents) : Passes S req intents := by
  obtain ⟨entry, intents', hread, -, hdec, witness, hw, hv⟩ := h.entry
  have hsame : Intent.decodeVec entry.predicate = some (intents.map Intent.detached) := by
    rcases hkeeps entry hread with hown | hsame
    · obtain ⟨own, hown, hdec'⟩ := hrec.own _ hown rawIntent rfl
      obtain rfl : intents = own := Outcome.ok.inj (hparse.symm.trans hown)
      exact hdec'
    · exact hsame
  obtain rfl : intents' = intents.map Intent.detached := Option.some.inj (hdec.symm.trans hsame)
  have hatt := GadgetRegistry.parseIntents_attached hparse
  exact ⟨witness, hw, by rwa [GadgetRegistry.verifyIntents_detached hatt] at hv⟩

/-- A share goes out under the entry that is in force for the requested filename
when it is sent. So it goes out under the intents of an encryption as long as
that entry has them, whatever other names the document was given. -/
theorem released_in_force (hsel : selector S.blake2 "register_predicate".toList ≠
      selector S.blake2 "read".toList) (hrun : Reachable S s) (hstep : SystemStep S s t) :
    ∃ sent, t.released = s.released ++ sent ∧ ∀ p ∈ sent, InForce S s.stores p.1 p.2 ∧
      ∀ rawIntent intents, (rawIntent, p.2.ciphertext) ∈ s.stores.stored →
        S.gadgets.parseIntents rawIntent = .ok intents →
        Keeps s.stores p.1.filename rawIntent intents → Passes S p.1 intents := by
  have hrec := reachable_recorded hrun
  obtain ⟨sent, hreleased, hsent⟩ := step_sent hsel hrec hstep
  refine ⟨sent, hreleased, fun p hp => ⟨hsent p hp, fun rawIntent intents _ hparse hkeeps => ?_⟩⟩
  exact (hsent p hp).passes hrec hparse hkeeps

end Invariant

section SecondName

open PasswordAccess

def cidPrefix : Bytes := [0x01, 0x55, 0x12, 0x20]

/-- Identifiers by their digest, with their text in base 16. -/
def digestCid : CidLib (Arr 32) where
  toBytes d := cidPrefix ++ d.1
  ofBytes b := if b.take 4 = cidPrefix then Arr.ofBytes? 32 (b.drop 4) else none
  toString d := 'f' :: (Hex.encode (cidPrefix ++ d.1)).map Char.ofUInt8

theorem digestCid_toString_injective : Function.Injective digestCid.toString := by
  intro d d' h
  have hchars : Function.Injective Char.ofUInt8 := fun a b hab =>
    UInt8.toUInt32_inj.mp (congrArg Char.val hab)
  have htext := hchars.list_map (List.cons.inj h).2
  have hbytes := congrArg Hex.decode htext
  rw [Hex.decode_encode, Hex.decode_encode, Option.some.injEq] at hbytes
  exact Subtype.ext (List.append_cancel_left hbytes)

/-- SHA-256 of the ciphertext, here the single byte one. -/
def documentDigest : Arr 32 :=
  beArr 32 0x4bf5122f344554c53bde2ebb8cd2b7e3d1600ad631c385a5d7cce23c7785459a

/-- BLAKE2b-256 of the two messages that are called and the two requests. -/
def blake2OfCalls (b : Bytes) : Arr 32 :=
  if b = asBytes "register_predicate".toList then
    beArr 32 0xe572eebe7f699128c451c9d9b6de05f25114188df6a72ab7f496b037660ffd2f
  else if b = asBytes "read".toList then
    beArr 32 0x217466dfeeae8cc92971fcc476b7da02e03ee45a1f8cf357be112487447c6f1f
  else if b = asBytes "f0418736563726574".toList then
    beArr 32 0x4b027c6df8c94f913714a8a14a54dac98dd5efbffe5004c48c6c945e44ca731f
  else if b = asBytes "g00".toList then
    beArr 32 0x6d8e3a923237ce48cb7164ca6631dcdb5f1585e79d81c64b4d07ffc80c817aad
  else beArr 32 0

def sampleSetting : Setting (Arr 32) Bytes Bytes where
  gadgets := sampleRegistry
  lib := ⟨digestCid, some, some, some⟩
  ciphertextToBytes := some
  buildCid b := if b = [1] then documentDigest else beArr 32 0
  blake2 := blake2OfCalls

def secretIntent : Str := "Password(secret)".toList

def secretPredicate : Bytes :=
  [4, 32] ++ asBytes "Password".toList ++ [128] ++ (sha256Sample (asBytes "secret".toList)).1

def documentEntry (predicate : Bytes) : Entry := ⟨cidPrefix ++ documentDigest.1, predicate⟩

def encryptedStores : SharedStores Bytes where
  docs := Function.update (fun _ => none) (digestCid.toString documentDigest) (some [2, 4, 1])
  registry := (PredicateRegistry.new.registerPredicate [102] (cidPrefix ++ documentDigest.1)
    secretPredicate).2
  stored := [(secretIntent, [1])]
  registrations := [⟨some secretIntent, [102], documentEntry secretPredicate⟩]

theorem parse_secretIntent :
    sampleRegistry.parseIntents secretIntent = .ok (passwordIntents "secret".toList) :=
  parseIntents_sample (by decide)

theorem encrypt_secret : ((clientOf sampleSetting (beArr 32 1)).encrypt (fun _ => .ok [1])
    ⟨true, true, true⟩ [] [102] secretIntent .empty).2 = encryptedStores := by
  have hparse : (clientOf sampleSetting (beArr 32 1)).registry.parseIntents secretIntent =
    .ok (passwordIntents "secret".toList) := parse_secretIntent
  unfold EncryptionClient.encrypt
  rw [hparse]
  rfl

def envOf (stores : SharedStores Bytes) : WorkerEnv (Arr 32) Bytes Bytes where
  lib := sampleSetting.lib
  blake2 := blake2OfCalls
  chain :=
    ⟨fun _ input =>
      match query blake2OfCalls PredicateRegistry.messages zeroKey input stores.registry with
      | some out => .ok out
      | none => .error [],
    fun _ => .ok none⟩
  intentStore := beArr 32 0
  docRead key := .ok (stores.docs key)
  index := 0
  connect _ := some ⟨true, true, true, none⟩

theorem envOf_sees (stores : SharedStores Bytes) : Sees sampleSetting (envOf stores) stores where
  lib := rfl
  blake2 := rfl
  registry := by
    refine ⟨zeroKey, fun input out h => ?_⟩
    change query blake2OfCalls _ _ _ _ = _
    simp only [envOf] at h
    cases hq : query blake2OfCalls PredicateRegistry.messages zeroKey input stores.registry with
    | none => simp [hq] at h
    | some data =>
      rw [hq] at h
      exact congrArg some (Except.ok.inj h)
  document _ _ h := (Outcome.ok.inj h).symm

def poolWith (req : DecryptionRequest) : RequestPool :=
  (RequestPool.add blake2OfCalls req RequestPool.emptyPool).2

theorem request_reachable {stores : SharedStores Bytes} (req : DecryptionRequest)
    (hrun : Relation.ReflTransGen (SystemStep sampleSetting)
      ⟨.empty, RequestPool.emptyPool, []⟩ ⟨stores, RequestPool.emptyPool, []⟩) :
    Reachable sampleSetting ⟨stores, poolWith req, []⟩ :=
  ⟨_, hrun.tail (.request req _)⟩

theorem process_step {stores : SharedStores Bytes} (req : DecryptionRequest)
    (release : Release (Arr 32) Bytes Bytes) (hmem : req ∈ (poolWith req).readAll)
    (hprep : Worker.prepare sampleRegistry (envOf stores) req = .ok (some release)) :
    SystemStep sampleSetting ⟨stores, poolWith req, []⟩
      ⟨stores, poolWith req, [(req, release)]⟩ := by
  have hproc : Worker.processDecryptionRequest sampleRegistry (envOf stores)
      (fun _ _ => .err ()) req (⟨poolWith req, []⟩ : World RequestPool (Arr 32) Bytes Bytes) =
        (.err "read_to_end".toList, ⟨poolWith req, [release]⟩) := by
    rw [Worker.processDecryptionRequest, hprep]
    rfl
  exact .process (envOf stores) (fun _ _ => .err ()) req ⟨stores, poolWith req, []⟩
    (.err "read_to_end".toList) ⟨poolWith req, [release]⟩ hmem (envOf_sees stores) hproc

theorem encrypted_reached : Relation.ReflTransGen (SystemStep sampleSetting)
    ⟨.empty, RequestPool.emptyPool, []⟩ ⟨encryptedStores, RequestPool.emptyPool, []⟩ := by
  have hstep := SystemStep.encrypt (S := sampleSetting) (beArr 32 1) (fun _ => .ok [1])
    ⟨true, true, true⟩ [] [102] secretIntent ⟨.empty, RequestPool.emptyPool, []⟩
  rw [encrypt_secret] at hstep
  exact .single hstep

def secondStores : SharedStores Bytes :=
  encryptedStores.registerPredicate [103] (cidPrefix ++ documentDigest.1) [0]

def secondRequest : DecryptionRequest := ⟨[103], asBytes "00".toList, []⟩

def secondRelease : Release (Arr 32) Bytes Bytes :=
  ⟨documentDigest, [1], ⟨[103], 0, [1]⟩, [4, 103, 0, 4, 1], []⟩

def secondReleased : SystemState (Arr 32) Bytes Bytes :=
  ⟨secondStores, poolWith secondRequest, [(secondRequest, secondRelease)]⟩

theorem secondReleased_reachable : Reachable sampleSetting secondReleased := by
  obtain ⟨pool, hrun⟩ :=
    request_reachable secondRequest (encrypted_reached.tail (.register [103] _ [0] _))
  exact ⟨pool, hrun.tail (process_step _ _ (by decide) rfl)⟩

/-- The share of the ciphertext locked by a password goes out without one. -/
theorem second_name_releases : Reachable sampleSetting secondReleased ∧
    (secondRequest, secondRelease) ∈ secondReleased.released ∧
    (secretIntent, secondRelease.ciphertext) ∈ secondReleased.stores.stored ∧
    sampleSetting.gadgets.parseIntents secretIntent = .ok (passwordIntents "secret".toList) ∧
    ¬ Passes sampleSetting secondRequest (passwordIntents "secret".toList) := by
  refine ⟨secondReleased_reachable, List.mem_cons_self, List.mem_cons_self, parse_secretIntent,
    fun h => ?_⟩
  obtain ⟨witness, hw, hv⟩ := h
  obtain rfl : [0] = witness := Option.some.inj hw
  obtain ⟨ws, hws, hall⟩ := GadgetRegistry.verifyIntents_eq_true.mp hv
  obtain rfl : [] = ws := Option.some.inj hws
  exact absurd hall.length_eq (by decide)

def ownRequest : DecryptionRequest := ⟨[102], asBytes "0418736563726574".toList, []⟩

def ownRelease : Release (Arr 32) Bytes Bytes :=
  ⟨documentDigest, [1], ⟨[102], 0, [1]⟩, [4, 102, 0, 4, 1], []⟩

/-- The password comes with a request under the name of the encryption. -/
theorem released_in_force_own :
    Passes sampleSetting ownRequest (passwordIntents "secret".toList) := by
  have hsel : selector sampleSetting.blake2 "register_predicate".toList ≠
    selector sampleSetting.blake2 "read".toList := by decide
  obtain ⟨sent, hreleased, hsent⟩ := released_in_force hsel
    (request_reachable ownRequest encrypted_reached)
    (process_step ownRequest ownRelease (by decide) rfl)
  obtain rfl : [(ownRequest, ownRelease)] = sent := hreleased
  refine (hsent _ List.mem_cons_self).2 secretIntent _ List.mem_cons_self parse_secretIntent
    fun entry hentry => Or.inl ?_
  obtain rfl : documentEntry secretPredicate = entry := Option.some.inj hentry
  exact List.mem_cons_self

end SecondName

end IntentBinding

end Fangorn
