import Fangorn.PoolClient
import Fangorn.WitnessEncoding

/-! Requests on their way through the pool: what clients put in with
`InkContractPool::add`, and what a worker reads back. -/

namespace Fangorn

open Rust Ink Scale

namespace InkContractPool

/-- What `request_decrypt` is called with; its own address is the location. -/
structure Submission where
  filename : Bytes
  witnesses : List Str
  location : Bytes

def Submission.request (q : Submission) : Option DecryptionRequest :=
  (encodeWitnesses q.witnesses).map fun witnessHex => ⟨q.filename, witnessHex, q.location⟩

structure PoolRun where
  pool : RequestPool
  accepted : List Submission

section Run

variable (blake2 : Bytes → Arr 32) (K : PoolConsts)

def PoolRun.submit (t : PoolRun) (call : AccountId × Submission) : PoolRun :=
  match call.2.request with
  | none => t
  | some req =>
    match add blake2 K call.1 req t.pool with
    | .ok pool => ⟨pool, t.accepted ++ [call.2]⟩
    | _ => t

def runCalls (calls : List (AccountId × Submission)) (s : RequestPool) : PoolRun :=
  calls.foldl (PoolRun.submit blake2 K) ⟨s, []⟩

structure Holds (t : PoolRun) : Prop where
  indexed : RequestPool.Indexed blake2 t.pool
  requests : t.accepted.map Submission.request = t.pool.readAll.map some
  encodable : ∀ r ∈ t.pool.readAll, (DecryptionRequest.codec.encode r).isSome
  nodup : t.pool.readAll.Nodup
  listed : t.pool.requestIds.length < 2 ^ 32
  count : t.pool.count = min t.accepted.length (2 ^ 64 - 1)

end Run

variable {blake2 : Bytes → Arr 32} {K : PoolConsts} {s s' : RequestPool}

section Calls

variable (hu : UniqueSelectors blake2 (poolMessages blake2 K))
include hu

theorem add_iff {caller : AccountId} {req : DecryptionRequest} :
    add blake2 K caller req s = .ok s' ↔ (DecryptionRequest.codec.encode req).isSome ∧
      s.requests.contains (RequestPool.requestId blake2 req) = false ∧
      (RequestPool.add blake2 req s).2.rootStorage.isSome ∧
      s' = (RequestPool.add blake2 req s).2 := by
  have hm : addMessage blake2 ∈ poolMessages blake2 K := List.mem_cons_self
  have hcall : ∀ u, RequestPool.add blake2 req s = (.ok u, s') ↔
      s.requests.contains (RequestPool.requestId blake2 req) = false ∧
        s' = (RequestPool.add blake2 req s).2 := by
    intro u
    cases hc : s.requests.contains (RequestPool.requestId blake2 req) with
    | true => simp [RequestPool.add_of_contains hc]
    | false => simp [RequestPool.add_of_not_contains hc, eq_comm]
  simp only [add, write, Outcome.bind_eq_ok, Outcome.expect_eq_ok, Outcome.okOr_eq_ok,
    SubstrateBackend.callData]
  constructor
  · intro h
    obtain ⟨args, hargs, ht⟩ := h
    obtain ⟨u, hadd, -, hroot⟩ := (transact_result hu hm (Codec.decode_encode _ hargs)).mp ht
    obtain ⟨hnew, rfl⟩ := (hcall u).mp hadd
    exact ⟨Option.isSome_of_mem hargs, hnew, hroot, rfl⟩
  · intro h
    obtain ⟨henc, hnew, hroot, rfl⟩ := h
    obtain ⟨args, hargs⟩ := Option.isSome_iff_exists.mp henc
    refine ⟨args, hargs, ?_⟩
    exact (transact_result hu hm (Codec.decode_encode _ hargs)).mpr
      ⟨(), (hcall ()).mpr ⟨hnew, rfl⟩, rfl, hroot⟩

theorem read_view {α : Type} {name : Str} {get : Unit → RequestPool → α}
    {enc : α → Option Bytes} (hm : Message.view name noArgs get enc ∈ poolMessages blake2 K)
    (signer : AccountId) :
    read blake2 K signer name s = .okOr () ((enc (get () s)).map (0 :: ·)) := by
  have hquery : query blake2 (poolMessages blake2 K) signer (selector blake2 name ++ []) s =
      (enc (get () s)).map (0 :: ·) := query_view hu hm rfl signer s
  rw [read, SubstrateBackend.callData, hquery]

/-- The contract traps on a list that its encoder refuses. -/
theorem readAll_eq (signer : AccountId) : readAll blake2 K signer s =
    if (DecryptionRequest.codec.seq.encode s.readAll).isSome then .ok s.readAll else .err () := by
  have hm : Message.view "read_all".toList noArgs (fun _ s => RequestPool.readAll s)
      DecryptionRequest.codec.seq.encode ∈ poolMessages blake2 K := by
    simp [poolMessages]
  have hread := read_view (s := s) hu hm signer
  rw [readAll, hread]
  cases he : DecryptionRequest.codec.seq.encode s.readAll with
  | none => rfl
  | some e =>
    have hdec := Codec.decode_encode _ he
    simp [Outcome.okOr, hdec]

theorem count_eq (signer : AccountId) (h : s.count < 2 ^ 64) :
    count blake2 K signer s = .ok s.count := by
  have hm : Message.view "count".toList noArgs (fun _ s => s.count) (uint 8).encode ∈
      poolMessages blake2 K := by
    simp [poolMessages]
  have henc : (uint 8).encode s.count = some (leBytes 8 s.count) := if_pos h
  have hdec := Codec.decode_encode _ henc
  have hread := read_view (s := s) hu hm signer
  rw [count, hread, henc]
  simp [Outcome.okOr, hdec]

theorem submit_holds {t : PoolRun} (h : Holds blake2 t) (call : AccountId × Submission) :
    Holds blake2 (t.submit blake2 K call) := by
  cases hreq : call.2.request with
  | none => simpa [PoolRun.submit, hreq] using h
  | some req =>
    cases hadd : add blake2 K call.1 req t.pool with
    | err e => simpa [PoolRun.submit, hreq, hadd] using h
    | panic => simpa [PoolRun.submit, hreq, hadd] using h
    | ok pool =>
      obtain ⟨henc, hc, hroot, rfl⟩ := (add_iff hu).mp hadd
      have hread := RequestPool.readAll_add h.indexed hc
      have hfresh : req ∉ t.pool.readAll := by
        intro hmem
        have hstored := (RequestPool.mem_readAll h.indexed).mp hmem
        have hcon := Mapping.contains_iff.mpr ⟨req, hstored⟩
        rw [hcon] at hc
        cases hc
      simp only [PoolRun.submit, hreq, hadd]
      refine ⟨RequestPool.add_indexed h.indexed req, ?_, ?_, ?_,
        (RequestPool.rootStorage_isSome.mp hroot).1.1, ?_⟩
      · simp [hread, h.requests, hreq]
      · intro r hr
        rw [hread, List.mem_append, List.mem_singleton] at hr
        rcases hr with hr | rfl
        · exact h.encodable r hr
        · exact henc
      · rw [hread]
        have hconcat := List.Nodup.concat hfresh h.nodup
        simpa using hconcat
      · have hcount := h.count
        simp only [RequestPool.add_of_not_contains hc, List.length_append, List.length_singleton]
        omega

theorem runCalls_holds {workers : List AccountId} (hnew : RequestPool.new K workers = some s)
    (calls : List (AccountId × Submission)) : Holds blake2 (runCalls blake2 K calls s) := by
  have hindexed : RequestPool.Indexed blake2 s := RequestPool.new_indexed hnew
  obtain ⟨-, rfl⟩ := RequestPool.new_eq_some.mp hnew
  induction calls using List.reverseRecOn with
  | nil =>
    exact ⟨hindexed, rfl, fun r hr => absurd hr List.not_mem_nil, List.nodup_nil,
      Nat.two_pow_pos 32, rfl⟩
  | append_singleton calls call ih =>
    rw [runCalls, List.foldl_concat]
    exact submit_holds hu ih call

end Calls

variable (blake2 K s) in
theorem accepted_sublist (calls : List (AccountId × Submission)) :
    (runCalls blake2 K calls s).accepted.Sublist (calls.map Prod.snd) := by
  induction calls using List.reverseRecOn with
  | nil => exact List.Sublist.refl _
  | append_singleton calls call ih =>
    have hskip : (runCalls blake2 K calls s).accepted.Sublist
        (calls.map Prod.snd ++ [call.2]) := ih.trans (List.sublist_append_left ..)
    rw [runCalls, List.foldl_concat, List.map_append]
    change (PoolRun.submit blake2 K (runCalls blake2 K calls s) call).accepted.Sublist _
    unfold PoolRun.submit
    cases call.2.request with
    | none => exact hskip
    | some req =>
      cases hadd : add blake2 K call.1 req (runCalls blake2 K calls s).pool with
      | err e => simpa [hadd] using hskip
      | panic => simpa [hadd] using hskip
      | ok pool => simpa [hadd] using ih.append_right [call.2]

/-- The ids of the requests are in the storage of the contract, so there are not
too many of them for the answer. -/
theorem readAll_of_holds (hu : UniqueSelectors blake2 (poolMessages blake2 K)) {t : PoolRun}
    (h : Holds blake2 t) (signer : AccountId) :
    readAll blake2 K signer t.pool = .ok t.pool.readAll := by
  have hlen : t.pool.readAll.length < 2 ^ 32 :=
    (List.length_filterMap_le ..).trans_lt h.listed
  rw [readAll_eq hu, if_pos (Codec.seq_encode_isSome _ |>.mpr ⟨hlen, h.encodable⟩)]

theorem decode_request {q : Submission} {req : DecryptionRequest} (h : q.request = some req) :
    req.filename = q.filename ∧ req.location = q.location ∧
      (Hex.decode req.witnessHex).bind GadgetRegistry.decodeWitnesses =
        some (q.witnesses.map asBytes) := by
  obtain ⟨hex, hhex, rfl⟩ := Option.map_eq_some_iff.mp h
  refine ⟨rfl, rfl, ?_⟩
  obtain ⟨blob, hblob, rfl⟩ := Option.map_eq_some_iff.mp hhex
  simp [Hex.decode_encode, GadgetRegistry.decodeWitnesses, Codec.decode_encode _ hblob]

/-- The accepted requests reach the workers in order, each once and unchanged. -/
theorem requests_reach_workers (hu : UniqueSelectors blake2 (poolMessages blake2 K))
    {workers : List AccountId}
    (hnew : RequestPool.new K workers = some s) (calls : List (AccountId × Submission))
    (hlen : calls.length < 2 ^ 64) :
    ∃ requests : List DecryptionRequest,
      (runCalls blake2 K calls s).accepted.map Submission.request = requests.map some ∧
      requests.Nodup ∧
      (∀ signer, readAll blake2 K signer (runCalls blake2 K calls s).pool = .ok requests) ∧
      (∀ signer, count blake2 K signer (runCalls blake2 K calls s).pool = .ok requests.length) ∧
      ∀ q ∈ (runCalls blake2 K calls s).accepted, ∀ req, q.request = some req →
        req.filename = q.filename ∧ req.location = q.location ∧
          (Hex.decode req.witnessHex).bind GadgetRegistry.decodeWitnesses =
            some (q.witnesses.map asBytes) := by
  have h := runCalls_holds hu hnew calls
  have hsub := accepted_sublist blake2 K s calls
  have hle := hsub.length_le
  have hsame : (runCalls blake2 K calls s).accepted.length =
      (runCalls blake2 K calls s).pool.readAll.length := by
    simpa using congrArg List.length h.requests
  have hcount := h.count
  rw [List.length_map] at hle
  refine ⟨_, h.requests, h.nodup, readAll_of_holds hu h, fun signer => ?_, fun q _ req => ?_⟩
  · rw [count_eq hu signer (by omega)]
    exact congrArg Outcome.ok (by omega)
  · exact decode_request

def sampleCalls : List (AccountId × Submission) :=
  [(beArr 32 7, ⟨asBytes "f".toList, [], []⟩), (beArr 32 8, ⟨asBytes "f".toList, [], []⟩)]

theorem requests_reach_workers_sample :
    readAll blake2OfNames .deployed (beArr 32 9)
      (runCalls blake2OfNames .deployed sampleCalls RequestPool.emptyPool).pool =
        .ok [sampleRequest] := by
  have hunique : UniqueSelectors blake2OfNames (poolMessages blake2OfNames .deployed) := by
    unfold UniqueSelectors
    change (methodNames.tail.map (selector blake2OfNames)).Nodup
    decide
  have hnew : RequestPool.new .deployed RequestPool.emptyPool.authorizedWorkers =
      some RequestPool.emptyPool := rfl
  obtain ⟨requests, hrequests, -, hread, -⟩ :=
    requests_reach_workers hunique hnew sampleCalls (by decide)
  have haccepted : (runCalls blake2OfNames .deployed sampleCalls
      RequestPool.emptyPool).accepted.map Submission.request = [sampleRequest].map some := by
    decide
  rw [haccepted] at hrequests
  obtain rfl := List.map_injective_iff.mpr (Option.some_injective _) hrequests
  exact hread _

end InkContractPool

end Fangorn
