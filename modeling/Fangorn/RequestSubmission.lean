import Fangorn.DecryptSession
import Fangorn.PoolHistory

/-! What a client learns about its request (`request_decrypt` in
`crypto/decrypt.rs`, `handle_decrypt` in `crypto/cipher.rs`): the request goes
through the backend to the pool, and the answer has to come back the same way. -/

namespace Fangorn

open Rust Ink Scale SubstrateBackend

namespace RequestSubmission

section Submission

variable (blake2 : Bytes → Arr 32) (K : PoolConsts) (t : Transport) (caller : AccountId)

/-- `InkContractPool::add` over this transport, with the storage it leaves. -/
def add (req : DecryptionRequest) (s : RequestPool) : Outcome Unit Unit × RequestPool :=
  t.deliver (InkContractPool.add blake2 K caller req s) s

variable (location : Bytes) (filename : Str)

def request (witnesses : List Str) : Option DecryptionRequest :=
  InkContractPool.Submission.request ⟨asBytes filename, witnesses, location⟩

/-- The result of `add` is dropped; only a panic of an encoder comes through. -/
def requestDecrypt (witnesses : List Str) (s : RequestPool) :
    Outcome Unit Unit × RequestPool :=
  match request location filename witnesses with
  | none => (.panic, s)
  | some req =>
    match add blake2 K t caller req s with
    | (.panic, s') => (.panic, s')
    | (_, s') => (.ok (), s')

variable {Cid Ciphertext Share : Type} (env : SessionEnv Cid Ciphertext Share)
  (queue : List (RawPartialDecryptionMessage Share))

/-- Just an `Ok` starts the session. -/
def handleDecrypt (witnessString : Str) (s : RequestPool) :
    Option (SessionStatus × Session Ciphertext Share) × RequestPool :=
  match requestDecrypt blake2 K t caller location filename (parseWitnesses witnessString) s with
  | (.ok _, s') => (some (DecryptSession.run env queue (DecryptSession.start env)), s')
  | (_, s') => (none, s')

/-- The pool stores this request and has not answered it. -/
def Waiting (req : DecryptionRequest) (s : RequestPool) : Prop :=
  s.requests (RequestPool.requestId blake2 req) = some req ∧
    s.fulfilledAttestations.contains (RequestPool.requestId blake2 req) = false

def Refused (req : DecryptionRequest) (s : RequestPool) : Prop :=
  add blake2 K t caller req s = (.err (), s)

/-- An `Ok` means a waiting request; a refusal is an error, and nobody waits. -/
structure Reported (witnesses : List Str) (s : RequestPool) : Prop where
  stored : (requestDecrypt blake2 K t caller location filename witnesses s).1 = .ok () →
    ∃ req, request location filename witnesses = some req ∧
      Waiting blake2 req (requestDecrypt blake2 K t caller location filename witnesses s).2
  refused : ∀ req, request location filename witnesses = some req →
    Refused blake2 K t caller req s →
      (requestDecrypt blake2 K t caller location filename witnesses s).1 = .err ()
  unawaited : ∀ req, request location filename witnesses = some req →
    Refused blake2 K t caller req s → ∀ witnessString, parseWitnesses witnessString = witnesses →
      (handleDecrypt blake2 K t caller location filename env queue witnessString s).1 = none

end Submission

section Cases

variable {blake2 : Bytes → Arr 32} {K : PoolConsts} {t : Transport} {caller : AccountId}
  {location : Bytes} {filename : Str} {witnesses : List Str} {req : DecryptionRequest}
  {s : RequestPool}

structure Taken (blake2 : Bytes → Arr 32) (t : Transport) (req : DecryptionRequest)
    (s : RequestPool) : Prop where
  included : t.included = true
  fresh : s.requests.contains (RequestPool.requestId blake2 req) = false
  room : (RequestPool.add blake2 req s).2.rootStorage.isSome

variable (blake2 K caller s) in
theorem panics_of_unencodable (h : DecryptionRequest.codec.encode req = none) :
    InkContractPool.add blake2 K caller req s = .panic := by
  rw [InkContractPool.add, h]
  rfl

variable (blake2 K caller s) in
theorem add_ne_panic (h : (DecryptionRequest.codec.encode req).isSome) :
    InkContractPool.add blake2 K caller req s ≠ .panic := by
  obtain ⟨data, hdata⟩ := Option.isSome_iff_exists.mp h
  rw [InkContractPool.add, hdata]
  exact Outcome.okOr_ne_panic

section Unique

variable (hu : UniqueSelectors blake2 (poolMessages blake2 K))
include hu

variable (caller) in
theorem add_of_taken (henc : (DecryptionRequest.codec.encode req).isSome)
    (h : Taken blake2 t req s) : add blake2 K t caller req s =
      (if t.confirmed then .ok () else .err (), (RequestPool.add blake2 req s).2) := by
  have hadd : InkContractPool.add blake2 K caller req s = .ok _ :=
    (InkContractPool.add_iff hu).mpr ⟨henc, h.fresh, h.room, rfl⟩
  simp only [add, Transport.deliver, hadd, h.included, if_true]

theorem add_of_not_taken (henc : (DecryptionRequest.codec.encode req).isSome)
    (h : ¬ Taken blake2 t req s) : add blake2 K t caller req s = (.err (), s) := by
  unfold add
  cases hadd : InkContractPool.add blake2 K caller req s with
  | ok s' =>
    obtain ⟨-, hnew, hroom, -⟩ := (InkContractPool.add_iff hu).mp hadd
    have hlost : t.included = false := by
      by_contra hin
      exact h ⟨by simpa using hin, hnew, hroom⟩
    simp [Transport.deliver, hlost]
  | err e => rfl
  | panic => exact absurd hadd (add_ne_panic blake2 K caller s henc)

theorem refused_iff : Refused blake2 K t caller req s ↔
    (DecryptionRequest.codec.encode req).isSome ∧ ¬ Taken blake2 t req s := by
  constructor
  · intro h
    have henc : (DecryptionRequest.codec.encode req).isSome := by
      by_contra hno
      have hpanic := panics_of_unencodable blake2 K caller s
        (Option.not_isSome_iff_eq_none.mp hno)
      simp [Refused, add, Transport.deliver, hpanic] at h
    refine ⟨henc, fun htaken => ?_⟩
    -- an accepted request makes the list of ids longer
    have hsame : (RequestPool.add blake2 req s).2 = s := by
      have hadd := add_of_taken caller hu henc htaken
      exact congrArg Prod.snd (hadd.symm.trans h)
    have hids := congrArg RequestPool.requestIds hsame
    rw [RequestPool.add_of_not_contains htaken.fresh] at hids
    simp at hids
  · intro h
    exact add_of_not_taken hu h.1 h.2

end Unique

variable (blake2 K t caller s) in
theorem requestDecrypt_of_encodable (hreq : request location filename witnesses = some req)
    (henc : (DecryptionRequest.codec.encode req).isSome) :
    requestDecrypt blake2 K t caller location filename witnesses s =
      (.ok (), (add blake2 K t caller req s).2) := by
  have hpanic : (add blake2 K t caller req s).1 ≠ .panic :=
    Transport.deliver_ne_panic.mpr (add_ne_panic blake2 K caller s henc)
  -- only the branch of a panic differs
  simp only [requestDecrypt, hreq]

variable (blake2 K t caller s) in
theorem requestDecrypt_of_unencodable (h : ∀ req, request location filename witnesses = some req →
    DecryptionRequest.codec.encode req = none) :
    (requestDecrypt blake2 K t caller location filename witnesses s).1 = .panic := by
  unfold requestDecrypt
  cases hreq : request location filename witnesses with
  | none => rfl
  | some req =>
    have hpanic := panics_of_unencodable blake2 K caller s (h req hreq)
    simp [add, Transport.deliver, hpanic]

theorem waiting_add_iff (h : Taken blake2 t req s) :
    Waiting blake2 req (RequestPool.add blake2 req s).2 ↔
      s.fulfilledAttestations.contains (RequestPool.requestId blake2 req) = false := by
  rw [RequestPool.add_of_not_contains h.fresh]
  simp [Waiting]

end Cases

variable {blake2 : Bytes → Arr 32} {K : PoolConsts} {Cid Ciphertext Share : Type}

/-- No refusal is ever reported. So the reports are right exactly when there is
nothing to refuse: the transaction gets in, and the request is new to the pool,
whose list of ids has room for it. -/
theorem reported_iff (hu : UniqueSelectors blake2 (poolMessages blake2 K)) (t : Transport)
    (caller : AccountId) (location : Bytes) (env : SessionEnv Cid Ciphertext Share)
    (queue : List (RawPartialDecryptionMessage Share)) (filename : Str) (witnesses : List Str)
    (s : RequestPool) :
    Reported blake2 K t caller location filename env queue witnesses s ↔
      ∀ req, request location filename witnesses = some req →
        (DecryptionRequest.codec.encode req).isSome →
        t.included = true ∧
          s.requests.contains (RequestPool.requestId blake2 req) = false ∧
          (RequestPool.add blake2 req s).2.rootStorage.isSome ∧
          s.fulfilledAttestations.contains (RequestPool.requestId blake2 req) = false := by
  constructor
  · intro h req hreq henc
    have hok := requestDecrypt_of_encodable blake2 K t caller s hreq henc
    have htaken : Taken blake2 t req s := by
      by_contra hno
      have herr := h.refused req hreq ((refused_iff hu).mpr ⟨henc, hno⟩)
      rw [hok] at herr
      cases herr
    obtain ⟨req', hreq', hwaiting⟩ := h.stored (by rw [hok])
    obtain rfl : req = req' := Option.some.inj (hreq.symm.trans hreq')
    rw [hok, add_of_taken caller hu henc htaken] at hwaiting
    exact ⟨htaken.included, htaken.fresh, htaken.room, (waiting_add_iff htaken).mp hwaiting⟩
  · intro h
    by_cases hsend : ∃ req, request location filename witnesses = some req ∧
        (DecryptionRequest.codec.encode req).isSome
    · obtain ⟨req, hreq, henc⟩ := hsend
      obtain ⟨hincluded, hnew, hroom, hopen⟩ := h req hreq henc
      have htaken : Taken blake2 t req s := ⟨hincluded, hnew, hroom⟩
      have hnever : ∀ req', request location filename witnesses = some req' →
          ¬ Refused blake2 K t caller req' s := by
        intro req' hreq' hrefused
        obtain rfl : req = req' := Option.some.inj (hreq.symm.trans hreq')
        exact ((refused_iff hu).mp hrefused).2 htaken
      refine ⟨fun _ => ⟨req, hreq, ?_⟩, fun req' hreq' hrefused => ?_,
        fun req' hreq' hrefused => ?_⟩
      · rw [requestDecrypt_of_encodable blake2 K t caller s hreq henc,
          add_of_taken caller hu henc htaken]
        exact (waiting_add_iff htaken).mpr hopen
      · exact absurd hrefused (hnever req' hreq')
      · exact absurd hrefused (hnever req' hreq')
    · have hnone : ∀ req, request location filename witnesses = some req →
          DecryptionRequest.codec.encode req = none := by
        intro req hreq
        by_contra hne
        exact hsend ⟨req, hreq, Option.isSome_iff_ne_none.mpr hne⟩
      have hpanic := requestDecrypt_of_unencodable blake2 K t caller s hnone
      refine ⟨fun hok => ?_, fun req hreq hrefused => ?_, fun req hreq hrefused => ?_⟩
      · rw [hpanic] at hok
        cases hok
      · exact absurd ⟨req, hreq, ((refused_iff hu).mp hrefused).1⟩ hsend
      · exact absurd ⟨req, hreq, ((refused_iff hu).mp hrefused).1⟩ hsend

def blake2OfRequest (b : Bytes) : Arr 32 :=
  if b = asBytes "f0400".toList then
    beArr 32 0x34429bf84ad6a2c5d8f0c8eca8f45fd5a9f10d61914bf8c2ed346514c5078d5c
  else InkContractPool.blake2OfNames b

def passwordRequest : DecryptionRequest := ⟨asBytes "f".toList, asBytes "0400".toList, []⟩

def storedPool : RequestPool :=
  (RequestPool.add blake2OfRequest passwordRequest RequestPool.emptyPool).2

def answeredPool : RequestPool :=
  (storedPool.submitPartialAttestation .deployed (beArr 32 1)
    (RequestPool.requestId blake2OfRequest passwordRequest) [7]).2

theorem request_password : request [] "f".toList (parseWitnesses []) = some passwordRequest := by
  decide

theorem uniqueSelectors_request :
    UniqueSelectors blake2OfRequest (poolMessages blake2OfRequest K) := by
  unfold UniqueSelectors
  change (InkContractPool.methodNames.tail.map (selector blake2OfRequest)).Nodup
  decide

/-- The pool has the request already and is done with it. The client is told
that all went well and waits. -/
theorem answered_request_awaited :
    (handleDecrypt blake2OfRequest .deployed ⟨true, true⟩ (beArr 32 7) [] "f".toList
      DecryptSession.sampleEnv [] [] answeredPool).1.map Prod.fst = some .waiting ∧
    ¬ Reported blake2OfRequest .deployed ⟨true, true⟩ (beArr 32 7) [] "f".toList
      DecryptSession.sampleEnv [] (parseWitnesses []) answeredPool := by
  have henc : (DecryptionRequest.codec.encode passwordRequest).isSome := by decide
  have hstored : answeredPool.requests.contains
      (RequestPool.requestId blake2OfRequest passwordRequest) = true := by decide
  have hok := requestDecrypt_of_encodable blake2OfRequest .deployed ⟨true, true⟩ (beArr 32 7)
    answeredPool request_password henc
  refine ⟨?_, fun h => ?_⟩
  · rw [handleDecrypt, hok]
    rfl
  · have htaken : ¬ Taken blake2OfRequest ⟨true, true⟩ passwordRequest answeredPool := by
      intro ht
      exact Bool.false_ne_true (ht.fresh.symm.trans hstored)
    have hrefused : Refused blake2OfRequest .deployed ⟨true, true⟩ (beArr 32 7) passwordRequest
        answeredPool := (refused_iff uniqueSelectors_request).mpr ⟨henc, htaken⟩
    have herr := h.refused passwordRequest request_password hrefused
    rw [hok] at herr
    cases herr

theorem reported_iff_password :
    Reported blake2OfRequest .deployed ⟨true, true⟩ (beArr 32 7) [] "f".toList
      DecryptSession.sampleEnv [] (parseWitnesses []) RequestPool.emptyPool ↔
    ∀ req, request [] "f".toList (parseWitnesses []) = some req →
      (DecryptionRequest.codec.encode req).isSome →
      true = true ∧
        RequestPool.emptyPool.requests.contains (RequestPool.requestId blake2OfRequest req) =
          false ∧
        (RequestPool.add blake2OfRequest req RequestPool.emptyPool).2.rootStorage.isSome ∧
        RequestPool.emptyPool.fulfilledAttestations.contains
          (RequestPool.requestId blake2OfRequest req) = false :=
  reported_iff uniqueSelectors_request ⟨true, true⟩ (beArr 32 7) [] DecryptSession.sampleEnv []
    "f".toList (parseWitnesses []) RequestPool.emptyPool

end RequestSubmission

end Fangorn
