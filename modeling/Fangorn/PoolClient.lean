import Fangorn.RequestPool
import Fangorn.Substrate

/-! The request pool as its clients reach it (`pool/contract_pool.rs`,
`pool/pool.rs`): the messages of the contract behind their selectors, and the
calls that `InkContractPool` makes. -/

namespace Fangorn

open Rust Ink Scale

namespace DecryptionRequest

def codec : Codec DecryptionRequest :=
  (Codec.bytes.pair (Codec.bytes.pair Codec.bytes)).view
    (fun r => (r.filename, r.witnessHex, r.location))
    (fun p => some ⟨p.1, p.2.1, p.2.2⟩)
    (fun r p => by
      obtain ⟨f, w, l⟩ := r
      obtain ⟨f', w', l'⟩ := p
      simp [eq_comm])

def id (sha256 : Bytes → Arr 32) (r : DecryptionRequest) : Option Bytes :=
  (codec.encode r).map fun e => (sha256 e).1

end DecryptionRequest

namespace PoolError

def index : PoolError → UInt8
  | requestAlreadyExists => 0
  | requestNotFound => 1
  | alreadyFulfilled => 2
  | unauthorized => 3
  | alreadyAttested => 4

end PoolError

section Messages

variable (blake2 : Bytes → Arr 32) (K : PoolConsts)

def encodePoolResult : Except PoolError Unit → Option Bytes
  | .ok () => some [0]
  | .error e => some [1, e.index]

def addMessage : Message RequestPool :=
  .result RequestPool.rootStorage "add".toList DecryptionRequest.codec.decode
    (fun _ request s => RequestPool.add blake2 request s) encodePoolResult

def submitMessage : Message RequestPool :=
  .result RequestPool.rootStorage "submit_partial_attestation".toList
    (Codec.bytes.pair Codec.bytes).decode
    (fun caller args s => RequestPool.submitPartialAttestation K caller args.1 args.2 s)
    encodePoolResult

def poolMessages : List (Message RequestPool) :=
  [addMessage blake2,
   .view "read_all".toList noArgs (fun _ s => RequestPool.readAll s)
    DecryptionRequest.codec.seq.encode,
   .view "count".toList noArgs (fun _ s => s.count) (uint 8).encode,
   submitMessage K,
   .view "get_attestation".toList Codec.bytes.decode (fun id s => s.getAttestation id)
    Codec.bytes.opt.encode,
   .view "get_attestation_count".toList Codec.bytes.decode
    (fun id s => s.getAttestationCount id) (uint 4).encode]

end Messages

namespace InkContractPool

variable (blake2 : Bytes → Arr 32) (K : PoolConsts)

/-- A transaction on the pool: an error unless the contract accepts the call. -/
def write (caller : AccountId) (method : Str) (data : Bytes) (s : RequestPool) :
    Outcome Unit RequestPool :=
  .okOr () (transact blake2 (poolMessages blake2 K) caller
    (SubstrateBackend.callData blake2 method data) s)

def read (signer : AccountId) (method : Str) (s : RequestPool) : Outcome Unit Bytes :=
  .okOr () (query blake2 (poolMessages blake2 K) signer
    (SubstrateBackend.callData blake2 method []) s)

def add (caller : AccountId) (req : DecryptionRequest) (s : RequestPool) :
    Outcome Unit RequestPool := do
  let data ← .expect (DecryptionRequest.codec.encode req)
  write blake2 K caller "add".toList data s

def readAll (signer : AccountId) (s : RequestPool) : Outcome Unit (List DecryptionRequest) := do
  let data ← read blake2 K signer "read_all".toList s
  let (decoded, _) ← .okOr () (DecryptionRequest.codec.seq.decode data.tail)
  .ok decoded

def count (signer : AccountId) (s : RequestPool) : Outcome Unit Nat := do
  let data ← read blake2 K signer "count".toList s
  let (decoded, _) ← .okOr () ((uint 8).decode data.tail)
  .ok decoded

def attestationMethod : Str := "submit_partial_decryption".toList

def submitPartialAttestation (caller : AccountId) (id attestation : Bytes) (s : RequestPool) :
    Outcome Unit RequestPool := do
  let id ← .expect (Codec.bytes.encode id)
  let attestation ← .expect (Codec.bytes.encode attestation)
  write blake2 K caller attestationMethod (id ++ attestation) s

def methodNames : List Str :=
  attestationMethod :: ["add".toList, "read_all".toList, "count".toList,
    "submit_partial_attestation".toList, "get_attestation".toList,
    "get_attestation_count".toList]

def DistinctSelectors : Prop :=
  ∀ m ∈ methodNames, ∀ n ∈ methodNames, selector blake2 m = selector blake2 n → m = n

variable {blake2 K}

variable (blake2 K) in
theorem names_of_poolMessages :
    attestationMethod :: (poolMessages blake2 K).map Message.name = methodNames := rfl

theorem attestationMethod_unknown (h : DistinctSelectors blake2) :
    dispatch blake2 (poolMessages blake2 K) (selector blake2 attestationMethod) = none := by
  apply dispatch_eq_none
  intro m hm hsel
  have hname : m.name ∈ (poolMessages blake2 K).map Message.name := List.mem_map_of_mem hm
  have hmem : m.name ∈ methodNames := by
    rw [← names_of_poolMessages blake2 K]
    exact List.mem_cons_of_mem _ hname
  have he := h _ hmem _ List.mem_cons_self hsel
  have hnot : attestationMethod ∉ methodNames.tail := by decide
  exact hnot (he ▸ hname)

theorem write_unknown {method : Str}
    (h : dispatch blake2 (poolMessages blake2 K) (selector blake2 method) = none)
    (caller : AccountId) (data : Bytes) (s : RequestPool) :
    write blake2 K caller method data s = .err () := by
  rw [write, transact, SubstrateBackend.callData, run_selector, h]
  rfl

theorem submit_not_ok (h : DistinctSelectors blake2) (caller : AccountId)
    (id attestation : Bytes) (s s' : RequestPool) :
    submitPartialAttestation blake2 K caller id attestation s ≠ .ok s' := by
  intro hok
  simp only [submitPartialAttestation, Outcome.bind_eq_ok] at hok
  obtain ⟨_, -, _, -, hw⟩ := hok
  rw [write_unknown (attestationMethod_unknown h)] at hw
  cases hw

section Counted

variable (blake2 sha256 : Bytes → Arr 32) (K : PoolConsts) (caller : AccountId)
  (r : DecryptionRequest) (attestation : Bytes) (s : RequestPool)

/-- The call under the client's id reaches the attestation message, is
accepted, and raises the count of the request by one and no other count. -/
structure AttestationCounted : Prop where
  dispatched : dispatch blake2 (poolMessages blake2 K) (selector blake2 attestationMethod) =
    some (submitMessage K)
  counted : ∃ id s', r.id sha256 = some id ∧
    submitPartialAttestation blake2 K caller id attestation s = .ok s' ∧
    s'.getAttestationCount (RequestPool.requestId blake2 r) =
      s.getAttestationCount (RequestPool.requestId blake2 r) + 1 ∧
    ∀ other, other ≠ RequestPool.requestId blake2 r →
      s'.getAttestationCount other = s.getAttestationCount other

/-- No attestation of any worker for any request is ever counted. -/
theorem attestation_never_counted (h : DistinctSelectors blake2) :
    ¬ AttestationCounted blake2 sha256 K caller r attestation s := by
  intro hcounted
  obtain ⟨id, s', -, hok, -⟩ := hcounted.counted
  exact submit_not_ok h caller id attestation s s' hok

/-- The id is wrong as well: under the right name the contract would not find
the request. -/
theorem client_id_not_found {id : Bytes} (hs : RequestPool.Indexed blake2 s)
    (hworker : caller ∈ s.authorizedWorkers) (hid : r.id sha256 = some id)
    (hunrelated : ∀ q ∈ s.readAll, ∀ e, DecryptionRequest.codec.encode r = some e →
      sha256 e ≠ blake2 (RequestPool.requestInput q)) :
    s.submitPartialAttestation K caller id attestation = (.error .requestNotFound, s) := by
  have hmissing : s.requests.contains id = false := by
    apply Bool.eq_false_iff.mpr
    intro hc
    obtain ⟨q, hq⟩ := Mapping.contains_iff.mp hc
    have hkey := hs.keyed id q hq
    obtain ⟨e, he, rfl⟩ := Option.map_eq_some_iff.mp hid
    have hmem := (RequestPool.mem_readAll hs).mpr (hkey.symm ▸ hq)
    exact hunrelated q hmem e he (Subtype.ext hkey.symm)
  simp [RequestPool.submitPartialAttestation, hworker, hmissing]

end Counted

/-- BLAKE2b-256 of the names, and of the request below. -/
def blake2Table : List (Str × Nat) :=
  [("add".toList,
    0x4b050ea9a359313ad3cc46d6e984a8c6e52c41dedc2ea1e38969ef56e807f4b9),
   ("read_all".toList,
    0xe7c135a5ad6b50b5a95a5e85ae31f8e7b0e239255951bf29f1a47620106c6cac),
   ("count".toList,
    0xdf20968368438f124aecc7f9b84d7d1b84489645cb172d8b2247a33d2b4a38ee),
   ("submit_partial_attestation".toList,
    0x949ccbf5888ab339a6702c908653ca7be3f8644230f11f18b56836b1923dda86),
   ("get_attestation".toList,
    0x7546d261b3d813cb99c1ff52a69d6dd65571f96161cf850de37b9469bb8b56ed),
   ("get_attestation_count".toList,
    0x40f1afc15664017ec3e5677d15f91246f8466ba1081e61bb26aa6868722b884a),
   ("submit_partial_decryption".toList,
    0x701be3d0aadce9f1cb4a7a886b2972033f85f120193709a2121430934bb1fd10),
   ("f00".toList,
    0xa0c8c486c3ea302e2c48366cd1e136f5747af6f3e2e75745e4879a42933aacf8)]

def blake2OfNames (b : Bytes) : Arr 32 :=
  match blake2Table.find? fun entry => asBytes entry.1 = b with
  | some entry => beArr 32 entry.2
  | none => beArr 32 0

def sha256OfSample (b : Bytes) : Arr 32 :=
  if b = [4, 102, 8, 48, 48, 0] then
    beArr 32 0xb973c398fb8747f1396402782042837d165c366b63191f38ccbc57d5fe4e8ae0
  else beArr 32 0

def sampleRequest : DecryptionRequest := ⟨asBytes "f".toList, asBytes "00".toList, []⟩

def openPool : RequestPool := (RequestPool.add blake2OfNames sampleRequest RequestPool.emptyPool).2

theorem distinctSelectors_sample : DistinctSelectors blake2OfNames := by
  unfold DistinctSelectors
  decide

/-- An open request, an authorized worker, and its attestation is lost. -/
theorem worker_attestation_lost :
    RequestPool.Reachable blake2OfNames .deployed openPool ∧ sampleRequest ∈ openPool.readAll ∧
    openPool.fulfilledAttestations (RequestPool.requestId blake2OfNames sampleRequest) = none ∧
    beArr 32 1 ∈ openPool.authorizedWorkers ∧
    openPool.partialAttestations (RequestPool.requestId blake2OfNames sampleRequest, beArr 32 1) =
      none ∧
    ¬ AttestationCounted blake2OfNames sha256OfSample .deployed (beArr 32 1) sampleRequest []
      openPool := by
  have hreach : RequestPool.Reachable blake2OfNames .deployed openPool :=
    ⟨RequestPool.emptyPool.authorizedWorkers, RequestPool.emptyPool, rfl, .single (.add _ _)⟩
  refine ⟨hreach, by decide, rfl, by decide, rfl, fun h => ?_⟩
  obtain ⟨id, s', -, hok, -⟩ := h.counted
  exact submit_not_ok distinctSelectors_sample _ id [] openPool s' hok

theorem attestation_never_counted_open :
    ¬ AttestationCounted blake2OfNames sha256OfSample .deployed (beArr 32 1) sampleRequest []
      openPool :=
  attestation_never_counted blake2OfNames sha256OfSample .deployed (beArr 32 1) sampleRequest []
    openPool distinctSelectors_sample

end InkContractPool

end Fangorn
