import Fangorn.Worker

/-! Which requests stop a worker: the exact condition under which a call of
`process_decryption_request` ends without a panic, and the loop over a queue. -/

namespace Fangorn

open Rust Ink Scale GadgetRegistry

namespace Worker

variable {Cid Ciphertext Addr σ : Type}

section Condition

variable (P : Primitives) (env : WorkerEnv Cid Ciphertext Addr) (req : DecryptionRequest)

def Registered (filename : Bytes) (cid : Cid) (intents : List Intent) : Prop :=
  ∃ entry, ContractIntentStore.Answers env.blake2 env.chain env.intentStore filename
      (some entry) ∧
    Intent.decodeVec entry.predicate = some intents ∧ env.lib.cid.ofBytes entry.cid = some cid

/-- The document has no entry, or an announcement of a ciphertext, and a share
of it goes to a location that is an address. -/
def Deliverable (cid : Cid) : Prop :=
  env.docRead (env.lib.cid.toString cid) = .ok none ∨
  ∃ content announcement rest ciphertext share receiver,
    env.docRead (env.lib.cid.toString cid) = .ok (some content) ∧
    Announcement.codec.decode content = some (announcement, rest) ∧
    env.lib.ciphertextOfBytes announcement.data = some ciphertext ∧
    env.lib.partialDecryption ciphertext = some share ∧ share.length < 2 ^ 32 ∧
    env.index < 256 ∧ env.lib.endpointOfBytes req.location = some receiver

/-- The witness is hex text of as many witnesses as there are intents, the
checks that are reached are harmless, and an accepted request is deliverable. -/
def Serviceable : Prop :=
  ∃ witness cid intents ws, Hex.decode req.witnessHex = some witness ∧
    Registered env req.filename cid intents ∧
    decodeWitnesses witness = some ws ∧ ws.length = intents.length ∧
    (∀ pre intent w post, intents.zip ws = pre ++ (intent, w) :: post →
      (∀ q ∈ pre, (deployed P env.chain).verifyIntent q.1 q.2 = .ok true) →
      Harmless P env.chain intent w) ∧
    ((∀ q ∈ intents.zip ws, (deployed P env.chain).verifyIntent q.1 q.2 = .ok true) →
      Deliverable env req cid)

end Condition

variable {P : Primitives} {env : WorkerEnv Cid Ciphertext Addr} {req : DecryptionRequest}

theorem getIntent_eq_some_iff {filename : Bytes} {cid : Cid} {intents : List Intent} :
    ContractIntentStore.getIntent env.lib.cid env.blake2 env.chain env.intentStore filename =
      .ok (some (cid, intents)) ↔ Registered env filename cid intents := by
  rw [ContractIntentStore.getIntent_eq_some]
  simp only [ContractIntentStore.openEntry_eq_ok, Registered]

theorem registered_filename {filename : Bytes} {cid : Cid} {intents : List Intent}
    (h : Registered env filename cid intents) : filename.length < 2 ^ 32 := by
  obtain ⟨entry, ⟨args, out, rest, hargs, -, -⟩, -, -⟩ := h
  exact Codec.bytes_encode_isSome.mp (Option.isSome_iff_exists.mpr ⟨args, hargs⟩)

theorem registered_attached {filename : Bytes} {cid : Cid} {intents : List Intent}
    (h : Registered env filename cid intents) (r : GadgetRegistry) :
    ∀ intent ∈ intents, r.Attached intent := by
  obtain ⟨entry, -, hdec, -⟩ := h
  obtain ⟨⟨wire, rest⟩, -, rfl⟩ := Option.map_eq_some_iff.mp hdec
  intro intent hmem
  obtain ⟨p, -, rfl⟩ := List.mem_map.mp hmem
  exact Or.inl rfl

theorem releaseShare_ne_panic {cid : Cid} (hfile : req.filename.length < 2 ^ 32) :
    releaseShare env req cid ≠ .panic ↔ Deliverable env req cid := by
  have hindex (i : UInt8) :
      (if env.index < 256 then some (UInt8.ofNat env.index) else none) = some i ↔
        env.index < 256 ∧ some (UInt8.ofNat env.index) = some i := Option.ite_none_right_eq_some
  unfold releaseShare
  rw [Outcome.unwrap_bind_ne_panic]
  constructor
  · intro h
    obtain ⟨found, hfound, h⟩ := h
    cases found with
    | none => exact Or.inl ((IrohDocStore.fetch_eq_none env.lib.cid).mp hfound)
    | some data =>
      obtain ⟨content, tag, rest, hr, hdec⟩ := (IrohDocStore.fetch_eq_some env.lib.cid).mp hfound
      simp only [Outcome.expect_bind_ne_panic, hindex] at h
      obtain ⟨ciphertext, hct, share, hsh, index, ⟨hidx, -⟩, msgBytes, hm, receiver, hrec, -⟩ := h
      have hlen := (PartialDecryptionMessage.encode_isSome.mp
        (Option.isSome_iff_exists.mpr ⟨msgBytes, hm⟩)).2
      exact Or.inr ⟨content, ⟨tag, data⟩, rest, ciphertext, share, receiver, hr, hdec, hct, hsh,
        hlen, hidx, hrec⟩
  · intro h
    rcases h with hnone | hsome
    · exact ⟨none, (IrohDocStore.fetch_eq_none env.lib.cid).mpr hnone, nofun⟩
    · obtain ⟨content, ⟨tag, data⟩, rest, ciphertext, share, receiver, hr, hdec, hct, hsh, hlen,
        hidx, hrec⟩ := hsome
      have hfetch := (IrohDocStore.fetch_eq_some env.lib.cid).mpr
        ⟨content, tag, rest, hr, hdec⟩
      obtain ⟨msgBytes, hm⟩ := Option.isSome_iff_exists.mp
        ((PartialDecryptionMessage.encode_isSome
          (m := ⟨req.filename, UInt8.ofNat env.index, share⟩)).mpr ⟨hfile, hlen⟩)
      refine ⟨some data, hfetch, ?_⟩
      simp only [Outcome.expect_bind_ne_panic, hindex]
      exact ⟨ciphertext, hct, share, hsh, _, ⟨hidx, rfl⟩, msgBytes, hm, receiver, hrec, nofun⟩

theorem prepare_ne_panic {r : GadgetRegistry} : prepare r env req ≠ .panic ↔
    ∃ witness cid intents, Hex.decode req.witnessHex = some witness ∧
      Registered env req.filename cid intents ∧ r.verifyIntents intents witness ≠ .panic ∧
      (r.verifyIntents intents witness = .ok true → releaseShare env req cid ≠ .panic) := by
  simp only [prepare, Outcome.expect_bind_ne_panic, Outcome.unwrap_bind_ne_panic]
  constructor
  · intro h
    obtain ⟨witness, hw, found, hfound, ⟨cid, intents⟩, rfl, h⟩ := h
    refine ⟨witness, cid, intents, hw, getIntent_eq_some_iff.mp hfound, ?_, ?_⟩
    · intro hp
      simp [hp] at h
    · intro ht
      simpa [ht] using h
  · intro h
    obtain ⟨witness, cid, intents, hw, hreg, hnp, hrel⟩ := h
    refine ⟨witness, hw, _, getIntent_eq_some_iff.mpr hreg, (cid, intents), rfl, ?_⟩
    dsimp only
    cases hv : r.verifyIntents intents witness with
    | ok b =>
      cases b with
      | true => exact hrel hv
      | false => simp
    | err e => simp
    | panic => exact absurd hv hnp

theorem prepare_serviceable :
    prepare (deployed P env.chain) env req ≠ .panic ↔ Serviceable P env req := by
  rw [prepare_ne_panic]
  constructor
  · intro h
    obtain ⟨witness, cid, intents, hw, hreg, hnp, hrel⟩ := h
    have hatt := registered_attached hreg (deployed P env.chain)
    obtain ⟨ws, hws, hlen, heach⟩ := verifyIntents_ne_panic.mp hnp
    refine ⟨witness, cid, intents, ws, hw, hreg, hws, hlen, ?_, fun hall => ?_⟩
    · intro pre intent w post he hpre
      have hmem : (intent, w) ∈ intents.zip ws := by rw [he]; simp
      have hi := hatt intent (List.of_mem_zip hmem).1
      exact (verifyIntent_ne_panic hi w).mp (verifyEach_ne_panic.mp heach pre intent w post he hpre)
    · have htrue : (deployed P env.chain).verifyIntents intents witness = .ok true := by
        refine verifyIntents_eq_true.mpr ⟨ws, hws, ?_⟩
        rw [List.forall₂_iff_zip]
        exact ⟨hlen.symm, fun hmem => hall _ hmem⟩
      exact (releaseShare_ne_panic (registered_filename hreg)).mp (hrel htrue)
  · intro h
    obtain ⟨witness, cid, intents, ws, hw, hreg, hws, hlen, hsafe, hdel⟩ := h
    have hatt := registered_attached hreg (deployed P env.chain)
    refine ⟨witness, cid, intents, hw, hreg, ?_, fun htrue => ?_⟩
    · refine verifyIntents_ne_panic.mpr ⟨ws, hws, hlen, verifyEach_ne_panic.mpr ?_⟩
      intro pre intent w post he hpre
      have hmem : (intent, w) ∈ intents.zip ws := by rw [he]; simp
      have hi := hatt intent (List.of_mem_zip hmem).1
      exact (verifyIntent_ne_panic hi w).mpr (hsafe pre intent w post he hpre)
    · obtain ⟨ws', hws', hall⟩ := verifyIntents_eq_true.mp htrue
      obtain rfl : ws = ws' := Option.some.inj (hws.symm.trans hws')
      rw [List.forall₂_iff_zip] at hall
      exact (releaseShare_ne_panic (registered_filename hreg)).mpr
        (hdel fun _ hq => hall.2 hq)

def skipAttestation (_ : DecryptionRequest) (pool : σ) : Outcome Unit σ := .ok pool

theorem deliver_ne_panic (release : Release Cid Ciphertext Addr)
    (w : World σ Cid Ciphertext Addr) :
    (deliver env skipAttestation req release w).1 ≠ .panic := by
  unfold deliver skipAttestation
  cases env.connect release.receiver with
  | none => exact nofun
  | some conn =>
    obtain ⟨openBi, writeAll, finish, response⟩ := conn
    cases response with
    | none =>
      dsimp only
      split_ifs <;> exact nofun
    | some response =>
      dsimp only
      split_ifs <;> exact nofun

variable (P env req) in
theorem process_serviceable (w : World σ Cid Ciphertext Addr) :
    (processDecryptionRequest (deployed P env.chain) env skipAttestation req w).1 ≠ .panic ↔
      Serviceable P env req := by
  rw [← prepare_serviceable]
  unfold processDecryptionRequest
  cases prepare (deployed P env.chain) env req with
  | ok found =>
    cases found with
    | none => simp
    | some release => simpa using deliver_ne_panic release w
  | err e => simp
  | panic => simp

/-- Every call ends without a panic and every request of the queue gets its
call, exactly when each request is serviceable. -/
theorem loop_survives_iff (P : Primitives)
    (queue : List (WorkerEnv Cid Ciphertext Addr × DecryptionRequest))
    (w : World σ Cid Ciphertext Addr) :
    (.panic ∉ (workerLoop skipAttestation (fun env => deployed P env.chain) queue w).1 ∧
      (workerLoop skipAttestation (fun env => deployed P env.chain) queue w).1.length =
        queue.length) ↔ ∀ p ∈ queue, Serviceable P p.1 p.2 := by
  induction queue generalizing w with
  | nil => simp [workerLoop]
  | cons p queue ih =>
    obtain ⟨env, req⟩ := p
    rw [List.forall_mem_cons, ← process_serviceable P env req w, workerLoop]
    rcases hp : processDecryptionRequest (deployed P env.chain) env skipAttestation req w with
      ⟨o, w'⟩
    have hrest := ih w'
    cases o with
    | panic => simp
    | ok u => simpa using hrest
    | err e => simpa using hrest

def byteLib : NodeLib Bytes Bytes Bytes where
  cid := ⟨id, some, fun _ => []⟩
  ciphertextOfBytes := some
  partialDecryption := some
  endpointOfBytes := some

def emptyEnv : WorkerEnv Bytes Bytes Bytes where
  lib := byteLib
  blake2 _ := beArr 32 0
  chain := ⟨fun _ _ => .ok [0, 0], fun _ => .ok none⟩
  intentStore := beArr 32 0
  docRead _ := .ok none
  index := 0
  connect _ := none

def plainPrimitives : Primitives where
  sha256 _ := beArr 32 0
  blake2 _ := beArr 32 0
  fromSs58check _ := none
  sr25519Verify _ _ _ := false

def notHex : DecryptionRequest := ⟨[102], asBytes "zz".toList, []⟩

def badQueue : List (WorkerEnv Bytes Bytes Bytes × DecryptionRequest) :=
  [(emptyEnv, notHex), (emptyEnv, ⟨[102], asBytes "00".toList, []⟩)]

/-- The worker panics on it and never comes to the request behind it. -/
theorem not_hex_stops_worker :
    (workerLoop skipAttestation (fun env => deployed plainPrimitives env.chain) badQueue
      (⟨(), []⟩ : World Unit Bytes Bytes Bytes)).1 = [.panic] ∧
    ¬ (.panic ∉ (workerLoop skipAttestation (fun env => deployed plainPrimitives env.chain)
        badQueue (⟨(), []⟩ : World Unit Bytes Bytes Bytes)).1 ∧
      (workerLoop skipAttestation (fun env => deployed plainPrimitives env.chain) badQueue
        (⟨(), []⟩ : World Unit Bytes Bytes Bytes)).1.length = badQueue.length) := by
  have hloop : (workerLoop skipAttestation (fun env => deployed plainPrimitives env.chain) badQueue
      (⟨(), []⟩ : World Unit Bytes Bytes Bytes)).1 = [.panic] := rfl
  rw [hloop]
  exact ⟨rfl, fun h => h.1 List.mem_cons_self⟩

end Worker

end Fangorn
