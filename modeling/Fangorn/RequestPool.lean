import Fangorn.Lib.Ink
import Mathlib.Logic.Relation
import Mathlib.Data.Set.Function

/-! The request pool contract (`contract/pool/lib.rs`): a bulletin board of
decryption requests, keyed by a hash, with attestations by authorized workers. -/

namespace Fangorn

open Rust Ink Scale

/-- `DecryptionRequest`, declared with the same fields by contract and client. -/
structure DecryptionRequest where
  filename : Bytes
  witnessHex : Bytes
  location : Bytes
  deriving DecidableEq, Repr

abbrev Attestation := Bytes

structure PoolConsts where
  threshold : Nat
  totalWorkers : Nat

def PoolConsts.deployed : PoolConsts := ⟨1, 2⟩

inductive PoolError where
  | requestAlreadyExists
  | requestNotFound
  | alreadyFulfilled
  | unauthorized
  | alreadyAttested
  deriving DecidableEq, Repr

structure RequestPool where
  requests : Mapping Bytes DecryptionRequest
  requestIds : List Bytes
  partialAttestations : Mapping (Bytes × AccountId) Attestation
  attestationCounts : Mapping Bytes Nat
  fulfilledAttestations : Mapping Bytes Attestation
  authorizedWorkers : List AccountId
  count : Nat

namespace RequestPool

section Messages

variable (blake2 : Bytes → Arr 32) (K : PoolConsts)

/-- The constructor asserts the number of workers, and nothing else about them. -/
def new (workers : List AccountId) : Option RequestPool :=
  if workers.length = K.totalWorkers then
    some { requests := .new, requestIds := [], partialAttestations := .new,
           attestationCounts := .new, fulfilledAttestations := .new,
           authorizedWorkers := workers, count := 0 }
  else none

/-- What is encoded after a call that changes the storage. The mappings have
cells of their own. -/
def rootStorage (s : RequestPool) : Option Bytes :=
  (Codec.bytes.seq.pair ((Codec.arr 32).seq.pair (uint 8))).encode
    (s.requestIds, s.authorizedWorkers, s.count)

def hashRequest (data : Bytes) : Bytes := (blake2 data).1

def requestInput (r : DecryptionRequest) : Bytes := r.filename ++ r.witnessHex ++ r.location

def requestId (r : DecryptionRequest) : Bytes := hashRequest blake2 (requestInput r)

def add (request : DecryptionRequest) (s : RequestPool) : Except PoolError Unit × RequestPool :=
  let id := requestId blake2 request
  if s.requests.contains id then (.error .requestAlreadyExists, s)
  else
    (.ok (), { s with
      requests := s.requests.insert id request
      requestIds := s.requestIds ++ [id]
      count := min (s.count + 1) (2 ^ 64 - 1) })

def readAll (s : RequestPool) : List DecryptionRequest := s.requestIds.filterMap s.requests

/-- Naive combination: the attestations of the listed workers, concatenated. -/
def finalizeRequest (requestId : Bytes) (s : RequestPool) : RequestPool :=
  let partials := s.authorizedWorkers.filterMap fun w => s.partialAttestations (requestId, w)
  { s with fulfilledAttestations := s.fulfilledAttestations.insert requestId partials.flatten }

def getAttestation (s : RequestPool) (id : Bytes) : Option Attestation :=
  s.fulfilledAttestations id

def getAttestationCount (s : RequestPool) (id : Bytes) : Nat := (s.attestationCounts id).getD 0

/-- The part of `submit_partial_attestation` behind its four checks. -/
def storePartial (caller : AccountId) (requestId : Bytes) (attestation : Attestation)
    (s : RequestPool) : RequestPool :=
  let newCount := min (s.getAttestationCount requestId + 1) (2 ^ 32 - 1)
  let s := { s with
    partialAttestations := s.partialAttestations.insert (requestId, caller) attestation
    attestationCounts := s.attestationCounts.insert requestId newCount }
  if K.threshold ≤ newCount then finalizeRequest requestId s else s

def submitPartialAttestation (caller : AccountId) (requestId : Bytes) (attestation : Attestation)
    (s : RequestPool) : Except PoolError Unit × RequestPool :=
  if caller ∉ s.authorizedWorkers then (.error .unauthorized, s)
  else if !s.requests.contains requestId then (.error .requestNotFound, s)
  else if s.fulfilledAttestations.contains requestId then (.error .alreadyFulfilled, s)
  else if s.partialAttestations.contains (requestId, caller) then (.error .alreadyAttested, s)
  else (.ok (), storePartial K caller requestId attestation s)

/-- The four checks of a submission. -/
structure Accepted (caller : AccountId) (id : Bytes) (s : RequestPool) : Prop where
  worker : caller ∈ s.authorizedWorkers
  stored : s.requests.contains id = true
  unfulfilled : s.fulfilledAttestations.contains id = false
  unattested : s.partialAttestations.contains (id, caller) = false

inductive Step : RequestPool → RequestPool → Prop
  | add (request : DecryptionRequest) (s : RequestPool) : Step s (add blake2 request s).2
  | submit (caller : AccountId) (id : Bytes) (attestation : Attestation) (s : RequestPool) :
      Step s (submitPartialAttestation K caller id attestation s).2

def Reachable (s : RequestPool) : Prop :=
  ∃ workers s₀, new K workers = some s₀ ∧ Relation.ReflTransGen (Step blake2 K) s₀ s

end Messages

section Calls

variable {blake2 : Bytes → Arr 32} {K : PoolConsts} {s : RequestPool}

theorem new_eq_some {workers : List AccountId} : new K workers = some s ↔
    workers.length = K.totalWorkers ∧
      s = { requests := .new, requestIds := [], partialAttestations := .new,
            attestationCounts := .new, fulfilledAttestations := .new,
            authorizedWorkers := workers, count := 0 } := by
  simp [new, eq_comm]

theorem rootStorage_isSome : s.rootStorage.isSome ↔
    (s.requestIds.length < 2 ^ 32 ∧ ∀ id ∈ s.requestIds, id.length < 2 ^ 32) ∧
      s.authorizedWorkers.length < 2 ^ 32 ∧ s.count < 2 ^ 64 := by
  simp only [rootStorage, Codec.pair_encode_isSome, Codec.seq_encode_isSome,
    Codec.bytes_encode_isSome, Codec.arr_encode_isSome, Codec.uint_encode_isSome, implies_true,
    and_true]
  norm_num

theorem add_of_contains {r : DecryptionRequest} (h : s.requests.contains (requestId blake2 r)) :
    add blake2 r s = (.error .requestAlreadyExists, s) := by
  simp [add, h]

theorem add_of_not_contains {r : DecryptionRequest}
    (h : s.requests.contains (requestId blake2 r) = false) :
    add blake2 r s = (.ok (), { s with
      requests := s.requests.insert (requestId blake2 r) r
      requestIds := s.requestIds ++ [requestId blake2 r]
      count := min (s.count + 1) (2 ^ 64 - 1) }) := by
  simp [add, h]

variable (blake2 s) in
theorem add_frame (r : DecryptionRequest) :
    (add blake2 r s).2.authorizedWorkers = s.authorizedWorkers ∧
      (add blake2 r s).2.partialAttestations = s.partialAttestations ∧
      (add blake2 r s).2.attestationCounts = s.attestationCounts ∧
      (add blake2 r s).2.fulfilledAttestations = s.fulfilledAttestations := by
  cases hc : s.requests.contains (requestId blake2 r) with
  | true =>
    rw [add_of_contains hc]
    exact ⟨rfl, rfl, rfl, rfl⟩
  | false =>
    rw [add_of_not_contains hc]
    exact ⟨rfl, rfl, rfl, rfl⟩

theorem submit_of_accepted {caller : AccountId} {id : Bytes} (a : Attestation)
    (h : Accepted caller id s) :
    submitPartialAttestation K caller id a s = (.ok (), storePartial K caller id a s) := by
  simp [submitPartialAttestation, h.worker, h.stored, h.unfulfilled, h.unattested]

/-- A submission is refused and changes nothing, or passes the checks and is
stored. -/
theorem submit_cases (caller : AccountId) (id : Bytes) (a : Attestation) (s : RequestPool) :
    (∃ e, submitPartialAttestation K caller id a s = (.error e, s)) ∨
      Accepted caller id s ∧
        submitPartialAttestation K caller id a s = (.ok (), storePartial K caller id a s) := by
  unfold submitPartialAttestation
  split_ifs with hworker hstored hfulfilled hattested
  · exact Or.inl ⟨_, rfl⟩
  · exact Or.inl ⟨_, rfl⟩
  · exact Or.inl ⟨_, rfl⟩
  · exact Or.inr ⟨⟨hworker, by simpa using hstored, by simpa using hfulfilled,
      by simpa using hattested⟩, rfl⟩
  · exact Or.inl ⟨_, rfl⟩

end Calls

section Indexed

variable {blake2 : Bytes → Arr 32} {K : PoolConsts} {s : RequestPool}

/-- The list of ids and the mapping agree, and every request sits under the
hash of its own fields. -/
structure Indexed (blake2 : Bytes → Arr 32) (s : RequestPool) : Prop where
  mem_ids : ∀ id, id ∈ s.requestIds ↔ s.requests.contains id
  keyed : ∀ id r, s.requests id = some r → requestId blake2 r = id

theorem new_indexed {workers : List AccountId} (h : new K workers = some s) :
    Indexed blake2 s := by
  obtain ⟨-, rfl⟩ := new_eq_some.mp h
  exact ⟨fun id => by simp [Mapping.contains], fun id r hr => by simp at hr⟩

theorem add_indexed (h : Indexed blake2 s) (r : DecryptionRequest) :
    Indexed blake2 (add blake2 r s).2 := by
  cases hc : s.requests.contains (requestId blake2 r) with
  | true => rwa [add_of_contains hc]
  | false =>
    rw [add_of_not_contains hc]
    refine ⟨fun id => ?_, fun id q hq => ?_⟩
    · by_cases he : id = requestId blake2 r
      · simp [he, Mapping.contains]
      · simp [he, Mapping.contains, Mapping.insert_of_ne _ _ he, h.mem_ids]
    · simp only [Mapping.insert_apply] at hq
      split_ifs at hq with he
      · rw [he, ← Option.some.inj hq]
      · exact h.keyed id q hq

theorem storePartial_requests (caller : AccountId) (id : Bytes) (a : Attestation)
    (s : RequestPool) : (storePartial K caller id a s).requests = s.requests ∧
      (storePartial K caller id a s).requestIds = s.requestIds := by
  simp only [storePartial]
  split_ifs <;> exact ⟨rfl, rfl⟩

theorem submit_requests (caller : AccountId) (id : Bytes) (a : Attestation) (s : RequestPool) :
    (submitPartialAttestation K caller id a s).2.requests = s.requests ∧
      (submitPartialAttestation K caller id a s).2.requestIds = s.requestIds := by
  rcases submit_cases (K := K) caller id a s with ⟨e, hrefused⟩ | ⟨-, hstored⟩
  · rw [hrefused]
    exact ⟨rfl, rfl⟩
  · rw [hstored]
    exact storePartial_requests caller id a s

theorem reachable_indexed (h : Reachable blake2 K s) : Indexed blake2 s := by
  obtain ⟨workers, s₀, hnew, hrun⟩ := h
  induction hrun with
  | refl => exact new_indexed hnew
  | tail _ hstep ih =>
    cases hstep with
    | add r => exact add_indexed ih r
    | submit caller id a =>
      obtain ⟨hr, hi⟩ := submit_requests (K := K) caller id a _
      exact ⟨by rw [hr, hi]; exact ih.mem_ids, by rw [hr]; exact ih.keyed⟩

theorem mem_readAll (h : Indexed blake2 s) {r : DecryptionRequest} :
    r ∈ readAll s ↔ s.requests (requestId blake2 r) = some r := by
  simp only [readAll, List.mem_filterMap]
  constructor
  · intro hh
    obtain ⟨id, _, hr⟩ := hh
    rwa [h.keyed id r hr]
  · intro hr
    exact ⟨_, (h.mem_ids _).mpr (Mapping.contains_iff.mpr ⟨r, hr⟩), hr⟩

theorem readAll_add (h : Indexed blake2 s) {r : DecryptionRequest}
    (hc : s.requests.contains (requestId blake2 r) = false) :
    readAll (add blake2 r s).2 = readAll s ++ [r] := by
  have hold : ∀ id ∈ s.requestIds,
      s.requests.insert (requestId blake2 r) r id = s.requests id := by
    intro id hid
    apply Mapping.insert_of_ne
    rintro rfl
    rw [h.mem_ids, hc] at hid
    exact Bool.false_ne_true hid
  rw [add_of_not_contains hc]
  simp only [readAll, List.filterMap_append, List.filterMap_congr hold]
  simp

end Indexed

section Unblocked

/-- `add` refuses a request only for its own sake. -/
structure Unblocked (blake2 : Bytes → Arr 32) (s : RequestPool) (r : DecryptionRequest) : Prop where
  fresh : r ∉ readAll s → (add blake2 r s).1 = .ok () ∧
    (add blake2 r s).2.requests (requestId blake2 r) = some r ∧
    readAll (add blake2 r s).2 = readAll s ++ [r]
  exists_only : (add blake2 r s).1 = .error .requestAlreadyExists → r ∈ readAll s

variable {blake2 : Bytes → Arr 32} {K : PoolConsts} {s : RequestPool} {r : DecryptionRequest}

theorem add_ok_of_not_contains (h : Indexed blake2 s)
    (hc : s.requests.contains (requestId blake2 r) = false) :
    (add blake2 r s).1 = .ok () ∧ (add blake2 r s).2.requests (requestId blake2 r) = some r ∧
      readAll (add blake2 r s).2 = readAll s ++ [r] := by
  refine ⟨?_, ?_, readAll_add h hc⟩ <;> simp [add_of_not_contains hc]

/-- The id hashes the three fields without their lengths. So `add` serves a
request exactly when no other stored request has the same concatenation. -/
theorem unblocked_iff_no_resplit (hs : Reachable blake2 K s)
    (hcoll : ∀ q ∈ readAll s, blake2 (requestInput q) = blake2 (requestInput r) →
      requestInput q = requestInput r) :
    Unblocked blake2 s r ↔ ∀ q ∈ readAll s, requestInput q = requestInput r → q = r := by
  have hi := reachable_indexed hs
  constructor
  · intro hu q hq he
    have hid : requestId blake2 q = requestId blake2 r := by simp [requestId, he]
    have hstored := (mem_readAll hi).mp hq
    rw [hid] at hstored
    have hr := hu.exists_only (by rw [add_of_contains (Mapping.contains_iff.mpr ⟨q, hstored⟩)])
    rw [mem_readAll hi, hstored] at hr
    exact Option.some.inj hr
  · intro h
    have hmem (hc : s.requests.contains (requestId blake2 r) = true) : r ∈ readAll s := by
      obtain ⟨q, hq⟩ := Mapping.contains_iff.mp hc
      have hid := hi.keyed _ _ hq
      have hqm : q ∈ readAll s := (mem_readAll hi).mpr (hid.symm ▸ hq)
      have he := hcoll q hqm (Subtype.ext hid)
      exact h q hqm he ▸ hqm
    cases hc : s.requests.contains (requestId blake2 r) with
    | true => exact ⟨fun hn => absurd (hmem hc) hn, fun _ => hmem hc⟩
    | false =>
      have hok := add_ok_of_not_contains hi hc
      exact ⟨fun _ => hok, fun he => by simp [hok.1] at he⟩

/-- BLAKE2b-256 on the input used below. -/
def blake2OfAb (b : Bytes) : Arr 32 :=
  if b = [97, 98] then
    Scale.beArr 32 0xf65a5e77ff5e2690ad316b7b9fc28dd90cc5c9a37e617ac3eee1403de3cf9a55
  else Scale.beArr 32 0

def emptyPool : RequestPool where
  requests := .new
  requestIds := []
  partialAttestations := .new
  attestationCounts := .new
  fulfilledAttestations := .new
  authorizedWorkers := [Scale.beArr 32 1, Scale.beArr 32 2]
  count := 0

def poolOfAb : RequestPool := (add blake2OfAb ⟨[97, 98], [], []⟩ emptyPool).2

theorem poolOfAb_reachable : Reachable blake2OfAb .deployed poolOfAb :=
  ⟨emptyPool.authorizedWorkers, emptyPool, rfl, .single (.add _ _)⟩

theorem readAll_poolOfAb : readAll poolOfAb = [⟨[97, 98], [], []⟩] := by decide

/-- The request `("a", "b", "")` is refused although nobody ever stored it. -/
theorem resplit_request_blocked : Reachable blake2OfAb .deployed poolOfAb ∧
    (⟨[97], [98], []⟩ : DecryptionRequest) ∉ readAll poolOfAb ∧
    ¬ Unblocked blake2OfAb poolOfAb ⟨[97], [98], []⟩ := by
  have hmem : (⟨[97], [98], []⟩ : DecryptionRequest) ∉ readAll poolOfAb := by decide
  refine ⟨poolOfAb_reachable, hmem, fun h => hmem (h.exists_only ?_)⟩
  decide

theorem unblocked_iff_no_resplit_poolOfAb :
    Unblocked blake2OfAb poolOfAb ⟨[97], [98], []⟩ ↔
      ∀ q ∈ readAll poolOfAb, requestInput q = [97, 98] → q = ⟨[97], [98], []⟩ := by
  refine unblocked_iff_no_resplit poolOfAb_reachable fun q hq _ => ?_
  rw [readAll_poolOfAb, List.mem_singleton] at hq
  rw [hq]
  rfl

end Unblocked

end RequestPool

end Fangorn
