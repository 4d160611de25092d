import Fangorn.DocStore
import Fangorn.RequestPool
import Fangorn.Lib.Hex

/-! The worker (`spawn_pool_watcher` and `process_decryption_request` in
`node/service.rs`): it takes requests from a queue, checks the witness of each
against the registered intents and sends its share to the named location. -/

namespace Fangorn

open Rust Ink Scale

structure PartialDecryptionMessage where
  filename : Bytes
  index : UInt8
  partialDecryptionBytes : Bytes
  deriving DecidableEq, Repr

namespace PartialDecryptionMessage

def codec : Codec PartialDecryptionMessage :=
  (Codec.bytes.pair (Codec.u8.pair Codec.bytes)).view
    (fun m => (m.filename, m.index, m.partialDecryptionBytes))
    (fun p => some ⟨p.1, p.2.1, p.2.2⟩)
    (fun m p => by
      obtain ⟨f, i, d⟩ := m
      obtain ⟨f', i', d'⟩ := p
      simp [eq_comm])

theorem encode_isSome {m : PartialDecryptionMessage} : (codec.encode m).isSome ↔
    m.filename.length < 2 ^ 32 ∧ m.partialDecryptionBytes.length < 2 ^ 32 := by
  change ((Codec.bytes.pair (Codec.u8.pair Codec.bytes)).encode
    (m.filename, m.index, m.partialDecryptionBytes)).isSome ↔ _
  simp [Codec.u8]

end PartialDecryptionMessage

/-- Library functions of a node: identifiers, the serialisation of ciphertexts,
the share of the node's own key, and addresses in JSON. -/
structure NodeLib (Cid Ciphertext Addr : Type) where
  cid : CidLib Cid
  ciphertextOfBytes : Bytes → Option Ciphertext
  partialDecryption : Ciphertext → Option Bytes
  endpointOfBytes : Bytes → Option Addr

structure Connection where
  openBi : Bool
  writeAll : Bool
  finish : Bool
  response : Option Bytes

structure WorkerEnv (Cid Ciphertext Addr : Type) where
  lib : NodeLib Cid Ciphertext Addr
  blake2 : Bytes → Arr 32
  chain : Chain
  intentStore : AccountId
  docRead : Str → Outcome Str (Option Bytes)
  index : Nat
  connect : Addr → Option Connection

structure Release (Cid Ciphertext Addr : Type) where
  cid : Cid
  ciphertext : Ciphertext
  message : PartialDecryptionMessage
  msgBytes : Bytes
  receiver : Addr

structure World (σ Cid Ciphertext Addr : Type) where
  pool : σ
  sent : List (Release Cid Ciphertext Addr)

namespace Worker

variable {Cid Ciphertext Addr σ : Type}

section Process

variable (registry : GadgetRegistry) (env : WorkerEnv Cid Ciphertext Addr)
  (attest : DecryptionRequest → σ → Outcome Unit σ) (req : DecryptionRequest)

def releaseShare (cid : Cid) : Outcome Str (Option (Release Cid Ciphertext Addr)) := do
  let found ← (IrohDocStore.fetch env.lib.cid env.docRead cid).unwrap
  match found with
  | none => .ok none
  | some ciphertextBytes => do
    let ciphertext ← .expect (env.lib.ciphertextOfBytes ciphertextBytes)
    let bytes ← .expect (env.lib.partialDecryption ciphertext)
    let index ← .expect (if env.index < 256 then some (UInt8.ofNat env.index) else none)
    let message : PartialDecryptionMessage := ⟨req.filename, index, bytes⟩
    let msgBytes ← .expect (PartialDecryptionMessage.codec.encode message)
    let receiver ← .expect (env.lib.endpointOfBytes req.location)
    .ok (some ⟨cid, ciphertext, message, msgBytes, receiver⟩)

/-- All that happens before a connection is made. A witness that is refused
ends the call without an error: it is only printed. -/
def prepare : Outcome Str (Option (Release Cid Ciphertext Addr)) := do
  let witness ← .expect (Hex.decode req.witnessHex)
  let found ← (ContractIntentStore.getIntent env.lib.cid env.blake2 env.chain env.intentStore
    req.filename).unwrap
  let (cid, intents) ← .expect found
  match registry.verifyIntents intents witness with
  | .ok true => releaseShare env req cid
  | .ok false => .ok none
  | .err _ => .ok none
  | .panic => .panic

/-- The receiver echoes the message; only then is an attestation submitted,
and its failure is a panic. -/
def deliver (release : Release Cid Ciphertext Addr) (w : World σ Cid Ciphertext Addr) :
    Outcome Str Unit × World σ Cid Ciphertext Addr :=
  match env.connect release.receiver with
  | none => (.ok (), w)
  | some conn =>
    if !conn.openBi then (.err "open_bi".toList, w)
    else
      let w := { w with sent := w.sent ++ [release] }
      if !conn.writeAll then (.err "write_all".toList, w)
      else if !conn.finish then (.err "finish".toList, w)
      else
        match conn.response with
        | none => (.err "read_to_end".toList, w)
        | some response =>
          if 1000 < response.length then (.err "read_to_end".toList, w)
          else if response = release.msgBytes then
            match attest req w.pool with
            | .ok pool => (.ok (), { w with pool := pool })
            | .err _ => (.panic, w)
            | .panic => (.panic, w)
          else (.ok (), w)

def processDecryptionRequest (w : World σ Cid Ciphertext Addr) :
    Outcome Str Unit × World σ Cid Ciphertext Addr :=
  match prepare registry env req with
  | .ok (some release) => deliver env attest req release w
  | .ok none => (.ok (), w)
  | .err e => (.err e, w)
  | .panic => (.panic, w)

end Process

section Sent

variable {registry : GadgetRegistry} {env : WorkerEnv Cid Ciphertext Addr}
  {attest : DecryptionRequest → σ → Outcome Unit σ} {req : DecryptionRequest}
  {release : Release Cid Ciphertext Addr}

theorem releaseShare_eq_some_iff {cid : Cid} :
    releaseShare env req cid = .ok (some release) ↔ ∃ data ciphertext share msgBytes receiver,
      IrohDocStore.fetch env.lib.cid env.docRead cid = .ok (some data) ∧
      env.lib.ciphertextOfBytes data = some ciphertext ∧
      env.lib.partialDecryption ciphertext = some share ∧ env.index < 256 ∧
      PartialDecryptionMessage.codec.encode ⟨req.filename, UInt8.ofNat env.index, share⟩ =
        some msgBytes ∧
      env.lib.endpointOfBytes req.location = some receiver ∧
      release = ⟨cid, ciphertext, ⟨req.filename, UInt8.ofNat env.index, share⟩, msgBytes,
        receiver⟩ := by
  have hindex (i : UInt8) :
      (if env.index < 256 then some (UInt8.ofNat env.index) else none) = some i ↔
        env.index < 256 ∧ some (UInt8.ofNat env.index) = some i := Option.ite_none_right_eq_some
  simp only [releaseShare, Outcome.bind_eq_ok, Outcome.unwrap_eq_ok]
  constructor
  · intro h
    obtain ⟨found, hfetch, h⟩ := h
    cases found with
    | none => simp at h
    | some data =>
      simp only [Outcome.bind_eq_ok, Outcome.expect_eq_ok, hindex, Outcome.ok.injEq,
        Option.some.injEq] at h
      obtain ⟨ciphertext, hct, share, hshare, _, ⟨hlt, rfl⟩, msgBytes, hmsg, receiver, hrec,
        he⟩ := h
      exact ⟨data, ciphertext, share, msgBytes, receiver, hfetch, hct, hshare, hlt, hmsg, hrec,
        he.symm⟩
  · intro h
    obtain ⟨data, ciphertext, share, msgBytes, receiver, hfetch, hct, hshare, hlt, hmsg, hrec,
      rfl⟩ := h
    refine ⟨some data, hfetch, ?_⟩
    simp [Outcome.expect, hct, hshare, hlt, hmsg, hrec]

theorem prepare_eq_some_iff : prepare registry env req = .ok (some release) ↔
    ∃ witness cid intents, Hex.decode req.witnessHex = some witness ∧
      ContractIntentStore.getIntent env.lib.cid env.blake2 env.chain env.intentStore req.filename =
        .ok (some (cid, intents)) ∧
      registry.verifyIntents intents witness = .ok true ∧
      releaseShare env req cid = .ok (some release) := by
  simp only [prepare, Outcome.bind_eq_ok, Outcome.expect_eq_ok, Outcome.unwrap_eq_ok]
  constructor
  · intro h
    obtain ⟨witness, hw, found, hget, ⟨cid, intents⟩, rfl, h⟩ := h
    cases hv : registry.verifyIntents intents witness with
    | err e => simp [hv] at h
    | panic => simp [hv] at h
    | ok accepted =>
      cases accepted with
      | false => simp [hv] at h
      | true => exact ⟨witness, cid, intents, hw, hget, hv, by simpa [hv] using h⟩
  · intro h
    obtain ⟨witness, cid, intents, hw, hget, hv, hrel⟩ := h
    exact ⟨witness, hw, some (cid, intents), hget, (cid, intents), rfl, by simpa [hv] using hrel⟩

theorem prepare_eq_some (h : prepare registry env req = .ok (some release)) :
    ∃ witness intents, Hex.decode req.witnessHex = some witness ∧
      ContractIntentStore.getIntent env.lib.cid env.blake2 env.chain env.intentStore req.filename =
        .ok (some (release.cid, intents)) ∧
      registry.verifyIntents intents witness = .ok true ∧
      ∃ ciphertextBytes,
        IrohDocStore.fetch env.lib.cid env.docRead release.cid = .ok (some ciphertextBytes) ∧
        env.lib.ciphertextOfBytes ciphertextBytes = some release.ciphertext := by
  obtain ⟨witness, cid, intents, hw, hget, hv, hrel⟩ := prepare_eq_some_iff.mp h
  obtain ⟨data, ciphertext, _, _, _, hfetch, hct, _, _, _, _, rfl⟩ :=
    releaseShare_eq_some_iff.mp hrel
  exact ⟨witness, intents, hw, hget, hv, data, hfetch, hct⟩

variable (env attest req release) in
theorem deliver_sent (w : World σ Cid Ciphertext Addr) :
    (deliver env attest req release w).2.sent = w.sent ∨
      (deliver env attest req release w).2.sent = w.sent ++ [release] := by
  unfold deliver
  cases env.connect release.receiver with
  | none => exact Or.inl rfl
  | some conn =>
    by_cases hopen : conn.openBi = true
    · right
      dsimp only
      simp only [hopen, Bool.not_true, Bool.false_eq_true, if_false]
      split_ifs
      · rfl
      · rfl
      · cases conn.response with
        | none => rfl
        | some response =>
          dsimp only
          split_ifs
          · rfl
          · cases attest req w.pool <;> rfl
          · rfl
    · left
      simp [hopen]

theorem process_sent {w : World σ Cid Ciphertext Addr} (hsent : w.sent = [])
    (h : release ∈ (processDecryptionRequest registry env attest req w).2.sent) :
    prepare registry env req = .ok (some release) := by
  unfold processDecryptionRequest at h
  cases hprep : prepare registry env req with
  | err e => simp [hprep, hsent] at h
  | panic => simp [hprep, hsent] at h
  | ok prepared =>
    cases prepared with
    | none => simp [hprep, hsent] at h
    | some prepared =>
      rw [hprep] at h
      dsimp only at h
      rcases deliver_sent env attest req prepared w with hnone | hone
      · simp [hnone, hsent] at h
      · rw [hone, hsent, List.nil_append, List.mem_singleton] at h
        rw [h]

end Sent

/-- The loop over the queue: an error is printed, a panic ends the task. The
result lists how each call ended. -/
def workerLoop (attest : DecryptionRequest → σ → Outcome Unit σ)
    (registry : WorkerEnv Cid Ciphertext Addr → GadgetRegistry) :
    List (WorkerEnv Cid Ciphertext Addr × DecryptionRequest) → World σ Cid Ciphertext Addr →
      List (Outcome Str Unit) × World σ Cid Ciphertext Addr
  | [], w => ([], w)
  | (env, req) :: queue, w =>
    match processDecryptionRequest (registry env) env attest req w with
    | (.panic, w) => ([.panic], w)
    | (o, w) =>
      let (os, w) := workerLoop attest registry queue w
      (o :: os, w)

end Worker

end Fangorn
