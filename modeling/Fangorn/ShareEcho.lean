import Fangorn.DecryptSession
import Fangorn.WorkerLiveness

/-! The exchange of a share: the worker sends it (`process_decryption_request`
in `node/service.rs`), the handler of the client takes it and sends it back
(`accept` in `client/node.rs`). The two read with different limits. -/

namespace Fangorn

open Rust Scale

theorem PartialDecryptionMessage.encode_length {filename share msgBytes : Bytes} {index : UInt8}
    (h : codec.encode ⟨filename, index, share⟩ = some msgBytes) :
    msgBytes.length = compactLength filename.length + filename.length + 1 +
      compactLength share.length + share.length := by
  have hpair : (Codec.bytes.pair (Codec.u8.pair Codec.bytes)).encode (filename, index, share) =
    some msgBytes := h
  obtain ⟨e, e', he, he', rfl⟩ := Codec.pair_encode_eq_some.mp hpair
  obtain ⟨i, d, hi, hd, rfl⟩ := Codec.pair_encode_eq_some.mp he'
  have hindex : [index] = i := Option.some.inj hi
  have hfile := Codec.bytes_encode_length he
  have hshare := Codec.bytes_encode_length hd
  simp only [List.length_append, hfile, hshare, ← hindex, List.length_singleton]
  omega

namespace Worker

variable {Cid Ciphertext Addr Share σ : Type}

section Exchange

variable (registry : GadgetRegistry) (env : WorkerEnv Cid Ciphertext Addr)
  (req : DecryptionRequest)

/-- The connection to a handler that gets the message: it answers what it
accepts with the same bytes. -/
def handlerConnection (shareOfBytes : Bytes → Option Share) (msgBytes : Bytes) : Connection where
  openBi := true
  writeAll := true
  finish := true
  response :=
    match PartialDecryptionHandler.accept shareOfBytes msgBytes with
    | .ok _ => some msgBytes
    | _ => none

/-- How the call ends once it has come to the attestation. -/
def attested (attest : DecryptionRequest → σ → Outcome Unit σ) (w : World σ Cid Ciphertext Addr) :
    Outcome Str Unit × World σ Cid Ciphertext Addr :=
  match attest req w.pool with
  | .ok pool => (.ok (), { w with pool := pool })
  | .err _ => (.panic, w)
  | .panic => (.panic, w)

/-- The call comes to the attestation, whatever this one does. -/
def Attests (release : Release Cid Ciphertext Addr) (w : World σ Cid Ciphertext Addr) : Prop :=
  ∀ attest, processDecryptionRequest registry env attest req w =
    attested req attest { w with sent := w.sent ++ [release] }

end Exchange

variable {registry : GadgetRegistry} {env : WorkerEnv Cid Ciphertext Addr}
  {req : DecryptionRequest} {shareOfBytes : Bytes → Option Share}
  {raw : RawPartialDecryptionMessage Share} {release : Release Cid Ciphertext Addr}

theorem handlerConnection_response {msgBytes : Bytes}
    (h : PartialDecryptionHandler.accept shareOfBytes msgBytes = .ok raw) :
    handlerConnection shareOfBytes msgBytes = ⟨true, true, true, some msgBytes⟩ := by
  rw [handlerConnection, h]

/-- The worker reads no echo of more than 1000 bytes. -/
theorem attests_iff_short (hprep : prepare registry env req = .ok (some release))
    (haccept : PartialDecryptionHandler.accept shareOfBytes release.msgBytes = .ok raw)
    (hconn : env.connect release.receiver =
      some (handlerConnection shareOfBytes release.msgBytes))
    (w : World σ Cid Ciphertext Addr) :
    Attests registry env req release w ↔ release.msgBytes.length ≤ 1000 := by
  rw [handlerConnection_response haccept] at hconn
  have hcall (attest : DecryptionRequest → σ → Outcome Unit σ) :
      processDecryptionRequest registry env attest req w =
        if 1000 < release.msgBytes.length then
          (.err "read_to_end".toList, { w with sent := w.sent ++ [release] })
        else attested req attest { w with sent := w.sent ++ [release] } := by
    simp only [processDecryptionRequest, hprep, deliver, hconn, Bool.not_true, Bool.false_eq_true,
      if_false, if_true]
    rfl
  constructor
  · intro h
    by_contra hlong
    have hpanic := h fun _ _ => .panic
    rw [hcall, if_pos (by omega), attested] at hpanic
    cases hpanic
  · intro h attest
    rw [hcall, if_neg (by omega)]

theorem accepted_unchanged {filename share msgBytes : Bytes} {index : UInt8}
    (hmsg : PartialDecryptionMessage.codec.encode ⟨filename, index, share⟩ = some msgBytes)
    (haccept : PartialDecryptionHandler.accept shareOfBytes msgBytes = .ok raw) :
    raw.filename = filename ∧ raw.index = index ∧
      shareOfBytes share = some raw.partialDecryption := by
  simp only [PartialDecryptionHandler.accept, Codec.decode_encode _ hmsg, Outcome.bind_eq_ok,
    Outcome.expect_eq_ok, Outcome.ok.injEq, Option.some.injEq, exists_eq_left'] at haccept
  obtain ⟨-, -, sh, hsh, rfl⟩ := haccept
  exact ⟨rfl, rfl, hsh⟩

theorem encode_of_prepare {cid : Cid} {ciphertext : Ciphertext} {receiver : Addr}
    {message : PartialDecryptionMessage} {msgBytes : Bytes}
    (h : prepare registry env req = .ok (some ⟨cid, ciphertext, message, msgBytes, receiver⟩)) :
    PartialDecryptionMessage.codec.encode message = some msgBytes := by
  obtain ⟨_, _, _, _, _, _, hrel⟩ := prepare_eq_some_iff.mp h
  obtain ⟨_, _, _, _, _, _, _, _, _, hmsg, _, he⟩ := releaseShare_eq_some_iff.mp hrel
  cases he
  exact hmsg

/-- A share that the handler echoes arrives as it was sent; it is acknowledged
exactly if its message has at most 1000 bytes. -/
theorem acknowledged_iff {cid : Cid} {ciphertext : Ciphertext} {receiver : Addr}
    {filename share msgBytes : Bytes} {index : UInt8}
    (hprep : prepare registry env req =
      .ok (some ⟨cid, ciphertext, ⟨filename, index, share⟩, msgBytes, receiver⟩))
    (haccept : PartialDecryptionHandler.accept shareOfBytes msgBytes = .ok raw)
    (hconn : env.connect receiver = some (handlerConnection shareOfBytes msgBytes))
    (w : World σ Cid Ciphertext Addr) :
    (Attests registry env req ⟨cid, ciphertext, ⟨filename, index, share⟩, msgBytes, receiver⟩ w ∧
      raw.filename = filename ∧ raw.index = index ∧
      shareOfBytes share = some raw.partialDecryption) ↔
    compactLength filename.length + filename.length + 1 + compactLength share.length +
      share.length ≤ 1000 := by
  have hmsg := encode_of_prepare hprep
  rw [attests_iff_short hprep haccept hconn w, ← PartialDecryptionMessage.encode_length hmsg]
  exact and_iff_left (accepted_unchanged hmsg haccept)

section Sample

def echoEnv (msgBytes : Bytes) : WorkerEnv Bytes Bytes Bytes where
  lib := byteLib
  blake2 _ := beArr 32 0
  chain := ⟨fun _ _ => .ok [0, 1, 4, 1, 4, 0], fun _ => .ok none⟩
  intentStore := beArr 32 0
  docRead _ := .ok (some [2, 4, 1])
  index := 0
  connect _ := some (handlerConnection some msgBytes)

def requestFor (filename : Bytes) : DecryptionRequest := ⟨filename, asBytes "00".toList, []⟩

def releaseFor (filename msgBytes : Bytes) : Release Bytes Bytes Bytes :=
  ⟨[1], [1], ⟨filename, 0, [1]⟩, msgBytes, []⟩

theorem prepare_echoEnv {filename msgBytes e : Bytes} (hfile : filename.length < 2 ^ 32)
    (hmsg : PartialDecryptionMessage.codec.encode ⟨filename, 0, [1]⟩ = some msgBytes) :
    prepare .new (echoEnv e) (requestFor filename) = .ok (some (releaseFor filename msgBytes)) := by
  obtain ⟨args, hargs⟩ := Option.isSome_iff_exists.mp (Codec.bytes_encode_isSome.mpr hfile)
  have hreg : Registered (echoEnv e) filename [1] [] :=
    ⟨⟨[1], [0]⟩, ⟨args, _, [], hargs, rfl, rfl⟩, rfl, rfl⟩
  refine prepare_eq_some_iff.mpr
    ⟨[0], [1], [], rfl, getIntent_eq_some_iff.mpr hreg, rfl, releaseShare_eq_some_iff.mpr ?_⟩
  exact ⟨[1], [1], [1], msgBytes, [], rfl, rfl, rfl, show 0 < 256 by decide, hmsg, rfl, rfl⟩

theorem accept_of_encode {m : PartialDecryptionMessage} {msgBytes : Bytes}
    (hmsg : PartialDecryptionMessage.codec.encode m = some msgBytes)
    (hlen : msgBytes.length ≤ 1024 * 1024) :
    PartialDecryptionHandler.accept some msgBytes =
      .ok ⟨m.filename, m.index, m.partialDecryptionBytes⟩ := by
  simp [PartialDecryptionHandler.accept, Outcome.assert, hlen, Codec.decode_encode _ hmsg,
    Outcome.expect]

def longFilename : Bytes := List.replicate 1000 97

theorem longFilename_length : longFilename.length = 1000 := List.length_replicate

/-- The handler takes the share and echoes it, and the worker does not read
the echo. -/
theorem long_filename_unacknowledged : ∃ msgBytes raw,
    PartialDecryptionMessage.codec.encode ⟨longFilename, 0, [1]⟩ = some msgBytes ∧
    msgBytes.length ≤ 1024 * 1024 ∧
    prepare .new (echoEnv msgBytes) (requestFor longFilename) =
      .ok (some (releaseFor longFilename msgBytes)) ∧
    PartialDecryptionHandler.accept some msgBytes = .ok raw ∧
    (echoEnv msgBytes).connect [] = some (handlerConnection some msgBytes) ∧
    ¬ Attests .new (echoEnv msgBytes) (requestFor longFilename) (releaseFor longFilename msgBytes)
      (⟨(), []⟩ : World Unit Bytes Bytes Bytes) := by
  have hfile : longFilename.length < 2 ^ 32 := by
    rw [longFilename_length]
    decide
  have hsome : (PartialDecryptionMessage.codec.encode ⟨longFilename, 0, [1]⟩).isSome :=
    PartialDecryptionMessage.encode_isSome.mpr ⟨hfile, by simp⟩
  obtain ⟨msgBytes, hmsg⟩ := Option.isSome_iff_exists.mp hsome
  have hlen : msgBytes.length = 1005 := by
    rw [PartialDecryptionMessage.encode_length hmsg, longFilename_length]
    decide
  have hprep := prepare_echoEnv (e := msgBytes) hfile hmsg
  have haccept := accept_of_encode hmsg (by omega)
  refine ⟨msgBytes, _, hmsg, by omega, hprep, haccept, rfl, fun h => ?_⟩
  have hshort := (attests_iff_short hprep haccept rfl _).mp h
  rw [releaseFor, hlen] at hshort
  omega

theorem acknowledged_iff_short : ∃ msgBytes raw,
    PartialDecryptionHandler.accept some msgBytes = .ok raw ∧
    ((Attests .new (echoEnv msgBytes) (requestFor [102]) (releaseFor [102] msgBytes)
        (⟨(), []⟩ : World Unit Bytes Bytes Bytes) ∧
      raw.filename = [102] ∧ raw.index = 0 ∧ some [1] = some raw.partialDecryption) ↔
    compactLength 1 + 1 + 1 + compactLength 1 + 1 ≤ 1000) := by
  have hsome : (PartialDecryptionMessage.codec.encode ⟨[102], 0, [1]⟩).isSome :=
    PartialDecryptionMessage.encode_isSome.mpr ⟨by simp, by simp⟩
  obtain ⟨msgBytes, hmsg⟩ := Option.isSome_iff_exists.mp hsome
  have hlen : msgBytes.length = 5 := PartialDecryptionMessage.encode_length hmsg
  have haccept := accept_of_encode hmsg (by omega)
  exact ⟨msgBytes, _, haccept, acknowledged_iff (prepare_echoEnv (by decide) hmsg) haccept rfl _⟩

end Sample

end Worker

end Fangorn
