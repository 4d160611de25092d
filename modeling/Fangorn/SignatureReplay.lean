import Fangorn.PoolWatcher
import Fangorn.TokenGate

/-! Signatures in the open pool: which requests the signature of an `Sr25519`
witness serves, when anyone may copy it (`gadget/sr25519.rs`,
`crypto/decrypt.rs`). -/

namespace Fangorn

open Rust Ink Scale GadgetRegistry

/-- A signature of a key's holder, with the request that it was made for. -/
structure Signing where
  key : AccountId
  message : Bytes
  filename : Bytes
  location : Bytes
  deriving DecidableEq, Repr

structure SignedPool where
  pool : RequestPool
  nonces : AccountId → Option UInt32
  signed : List Signing

namespace SignedPool

section Steps

variable (P : Primitives) (blake2 : Bytes → Arr 32) (K : PoolConsts)

/-- One of the request's witnesses has the signature behind its address. -/
def Carries (req : DecryptionRequest) (sig : Arr 64) : Prop :=
  ∃ blob ws w, Hex.decode req.witnessHex = some blob ∧ decodeWitnesses blob = some ws ∧
    w ∈ ws ∧ Hex.decode (w.drop 48) = some sig.1

def Signed (signed : List Signing) (key : AccountId) (message : Bytes) : Prop :=
  ∃ g ∈ signed, g.key = key ∧ g.message = message

/-- Every signature in the request was made by the holder of its key. -/
def Unforged (signed : List Signing) (req : DecryptionRequest) : Prop :=
  ∀ sig key message, Carries req sig → P.sr25519Verify sig message key = true →
    Signed signed key message

/-- Anyone adds requests, from what is in the pool or not; nonces change freely. -/
inductive Step : SignedPool → SignedPool → Prop
  | sign (g : Signing) (s : SignedPool) : Step s { s with signed := s.signed ++ [g] }
  | setNonces (nonces : AccountId → Option UInt32) (s : SignedPool) :
      Step s { s with nonces := nonces }
  | add (req : DecryptionRequest) (s : SignedPool) : Unforged P s.signed req →
      Step s { s with pool := (RequestPool.add blake2 req s.pool).2 }
  | submit (caller : AccountId) (id : Bytes) (attestation : Attestation) (s : SignedPool) :
      Step s { s with pool :=
        (RequestPool.submitPartialAttestation K caller id attestation s.pool).2 }

def Reachable (s : SignedPool) : Prop :=
  ∃ workers pool nonces, RequestPool.new K workers = some pool ∧
    Relation.ReflTransGen (Step P blake2 K) ⟨pool, nonces, []⟩ s

def AllUnforged (s : SignedPool) : Prop :=
  RequestPool.Indexed blake2 s.pool ∧ ∀ req ∈ s.pool.readAll, Unforged P s.signed req

end Steps

variable {P : Primitives} {blake2 : Bytes → Arr 32} {K : PoolConsts} {s s' : SignedPool}
  {req : DecryptionRequest}

theorem Unforged.mono {signed : List Signing} (h : Unforged P signed req) (g : Signing) :
    Unforged P (signed ++ [g]) req := by
  intro sig key message hc hv
  obtain ⟨g', hmem, hg'⟩ := h sig key message hc hv
  exact ⟨g', List.mem_append_left _ hmem, hg'⟩

theorem step_unforged (h : AllUnforged P blake2 s) (hstep : Step P blake2 K s s') :
    AllUnforged P blake2 s' := by
  obtain ⟨hindexed, hall⟩ := h
  cases hstep with
  | sign g s => exact ⟨hindexed, fun req hmem => (hall req hmem).mono g⟩
  | setNonces nonces s => exact ⟨hindexed, hall⟩
  | add req s hunforged =>
    refine ⟨RequestPool.add_indexed hindexed req, fun r hmem => ?_⟩
    cases hc : s.pool.requests.contains (RequestPool.requestId blake2 req) with
    | true =>
      rw [RequestPool.add_of_contains hc] at hmem
      exact hall r hmem
    | false =>
      rw [RequestPool.readAll_add hindexed hc, List.mem_append, List.mem_singleton] at hmem
      rcases hmem with hold | rfl
      · exact hall r hold
      · exact hunforged
  | submit caller id attestation s =>
    obtain ⟨hreq, hids⟩ := RequestPool.submit_requests (K := K) caller id attestation s.pool
    refine ⟨⟨fun i => ?_, fun i r hr => ?_⟩, fun r hmem => ?_⟩
    · rw [hids, hreq]
      exact hindexed.mem_ids i
    · rw [hreq] at hr
      exact hindexed.keyed i r hr
    · rw [RequestPool.readAll, hids, hreq] at hmem
      exact hall r hmem

theorem reachable_unforged (h : Reachable P blake2 K s) : AllUnforged P blake2 s := by
  obtain ⟨workers, pool, nonces, hnew, hrun⟩ := h
  induction hrun with
  | refl =>
    refine ⟨RequestPool.new_indexed hnew, fun req hmem => ?_⟩
    obtain ⟨-, rfl⟩ := RequestPool.new_eq_some.mp hnew
    exact absurd hmem List.not_mem_nil
  | tail _ hstep ih => exact step_unforged ih hstep

section Delivery

variable {σ Cid Ciphertext Addr : Type} {env : WorkerEnv Cid Ciphertext Addr}
  {attest : DecryptionRequest → σ → Outcome Unit σ} {release : Release Cid Ciphertext Addr}
  {filename : Bytes} {cid : Cid} {intents : List Intent} {i : Nat}

def Sees (env : WorkerEnv Cid Ciphertext Addr) (s : SignedPool) : Prop :=
  ∀ key nonce, env.chain.account key = .ok (some nonce) → s.nonces key = some nonce

/-- The file is registered with `Sr25519()` at a position of its intents. -/
def Guarded (env : WorkerEnv Cid Ciphertext Addr) (filename : Bytes) (i : Nat) : Prop :=
  ∃ cid intents intent, Worker.Registered env filename cid intents ∧ intents[i]? = some intent ∧
    intent.intentType = "Sr25519".toList ∧ intent.statement = []

def WitnessKey (P : Primitives) (req : DecryptionRequest) (i : Nat) (key : AccountId) : Prop :=
  ∃ blob ws w, Hex.decode req.witnessHex = some blob ∧ decodeWitnesses blob = some ws ∧
    ws[i]? = some w ∧ TokenGate.signer P w = some key

theorem registered_unique {cid' : Cid} {intents' : List Intent}
    (h : Worker.Registered env filename cid intents)
    (h' : Worker.Registered env filename cid' intents') : intents = intents' := by
  have hget := Worker.getIntent_eq_some_iff.mpr h
  rw [Worker.getIntent_eq_some_iff.mpr h', Outcome.ok.injEq, Option.some.injEq] at hget
  exact congrArg Prod.snd hget.symm

theorem accepted_carries (hguard : Guarded env req.filename i)
    (hprep : Worker.prepare (deployed P env.chain) env req = .ok (some release)) :
    ∃ key nonce sig, WitnessKey P req i key ∧ Carries req sig ∧
      env.chain.account key = .ok (some nonce) ∧
      P.sr25519Verify sig (leBytes 4 nonce.toNat) key = true := by
  obtain ⟨cid, intents, intent, hreg, hi, hty, hst⟩ := hguard
  obtain ⟨blob, intents', hblob, hget, hverify, -⟩ := Worker.prepare_eq_some hprep
  obtain rfl := registered_unique hreg (Worker.getIntent_eq_some_iff.mp hget)
  obtain ⟨ws, w, hws, hw, -, hv⟩ := accepted_at hverify hi
  have hatt := Worker.registered_attached hreg (deployed P env.chain) intent
    (List.mem_of_getElem? hi)
  have hstands : (deployed P env.chain).Stands "Sr25519".toList [] intent := ⟨hatt, hty, hst⟩
  rw [hstands.verifyIntent deployed_sr25519] at hv
  obtain ⟨-, address, sig, nonce, haddress, hsig, hnonce, hverified⟩ :=
    (sr25519_accepts_iff P env.chain).mp hv
  have hkey : TokenGate.signer P w = some (decodePublicKey P address) := by
    simp [TokenGate.signer, haddress]
  exact ⟨_, nonce, sig, ⟨blob, ws, w, hblob, hws, hw, hkey⟩,
    ⟨blob, ws, w, hblob, hws, List.mem_of_getElem? hw, hsig⟩, hnonce, hverified⟩

/-- A share for a guarded file goes out only while the nonce of the account in
the witness is one that the key's holder signed, for whatever request. -/
theorem delivered_on_signed_nonce (h : Reachable P blake2 K s) (hmem : req ∈ s.pool.readAll)
    (hsees : Sees env s) (hguard : Guarded env req.filename i) {pool : σ}
    (hsent : release ∈ (Worker.processDecryptionRequest (deployed P env.chain) env attest req
      ⟨pool, []⟩).2.sent) :
    env.lib.endpointOfBytes req.location = some release.receiver ∧
    ∃ key nonce, WitnessKey P req i key ∧ s.nonces key = some nonce ∧
      Signed s.signed key (leBytes 4 nonce.toNat) := by
  have hprep := Worker.process_sent rfl hsent
  have hshare := Worker.shareFor_iff.mpr ⟨release, hprep, rfl, rfl⟩
  obtain ⟨key, nonce, sig, hkey, hcarries, hnonce, hverified⟩ := accepted_carries hguard hprep
  refine ⟨hshare.receiver, key, nonce, hkey, hsees key nonce hnonce, ?_⟩
  exact (reachable_unforged h).2 req hmem sig key _ hcarries hverified

end Delivery

section Copy

open TokenGate

def guardedPredicate : Bytes := 4 :: 28 :: asBytes "Sr25519".toList ++ [0]

def guardedEnv : WorkerEnv Bytes Bytes Bytes where
  lib := Worker.byteLib
  blake2 _ := beArr 32 0
  chain := ⟨fun _ _ => .ok (0 :: 1 :: 4 :: 1 :: 40 :: guardedPredicate), fun _ => .ok (some 0)⟩
  intentStore := beArr 32 0
  docRead _ := .ok (some [2, 4, 1])
  index := 0
  connect _ := some ⟨true, true, true, none⟩

def guardedIntents : List Intent := [⟨"Sr25519".toList, [], none⟩]

def requestTo (blob location : Bytes) : DecryptionRequest := ⟨[102], Hex.encode blob, location⟩

def shareTo (location : Bytes) : Release Bytes Bytes Bytes :=
  ⟨[1], [1], ⟨[102], 0, [1]⟩, [4, 102, 0, 4, 1], location⟩

structure SignedWitness (w : Bytes) : Prop where
  length : w.length = 176
  address : w.take 48 = asBytes poorAddress
  signature : Hex.decode (w.drop 48) = some (beArr 64 1).1

theorem guardedEnv_registered :
    Worker.Registered guardedEnv [102] ([1] : Bytes) guardedIntents :=
  Worker.getIntent_eq_some_iff.mp rfl

theorem guardedEnv_guarded : Guarded guardedEnv [102] 0 :=
  ⟨_, _, _, guardedEnv_registered, rfl, rfl, rfl⟩

variable {w blob : Bytes}

theorem requestTo_key (h : SignedWitness w) (hblob : decodeWitnesses blob = some [w])
    (location : Bytes) : WitnessKey twoAccounts (requestTo blob location) 0 poor := by
  have hpoor : decodePublicKey twoAccounts poorAddress = poor := by decide
  refine ⟨blob, [w], w, Hex.decode_encode blob, hblob, rfl, ?_⟩
  simp [signer, h.address, hpoor]

theorem guardedEnv_accepts (h : SignedWitness w) (hblob : decodeWitnesses blob = some [w]) :
    (deployed twoAccounts guardedEnv.chain).verifyIntents guardedIntents blob = .ok true := by
  have hstands : (deployed twoAccounts guardedEnv.chain).Stands "Sr25519".toList []
      ⟨"Sr25519".toList, [], none⟩ := ⟨Or.inl rfl, rfl, rfl⟩
  have hverify : (deployed twoAccounts guardedEnv.chain).verifyIntent
      ⟨"Sr25519".toList, [], none⟩ w = .ok true := by
    rw [hstands.verifyIntent deployed_sr25519]
    exact (sr25519_accepts_iff twoAccounts guardedEnv.chain).mpr
      ⟨h.length, poorAddress, beArr 64 1, 0, h.address, h.signature, rfl, by decide⟩
  exact verifyIntents_eq_true.mpr ⟨_, hblob, .cons hverify .nil⟩

theorem guardedEnv_prepares (h : SignedWitness w) (hblob : decodeWitnesses blob = some [w])
    (location : Bytes) : Worker.prepare (deployed twoAccounts guardedEnv.chain) guardedEnv
      (requestTo blob location) = .ok (some (shareTo location)) := by
  have hfile : (requestTo blob location).filename = [102] := rfl
  have hdecode : Hex.decode (requestTo blob location).witnessHex = some blob :=
    Hex.decode_encode blob
  have hget := Worker.getIntent_eq_some_iff.mpr guardedEnv_registered
  have haccept := guardedEnv_accepts h hblob
  have hshare : Worker.releaseShare guardedEnv (requestTo blob location) [1] =
    .ok (some (shareTo location)) := rfl
  simp [Worker.prepare, hfile, hdecode, hget, haccept, hshare, Outcome.unwrap, Outcome.expect]

def signedWitness : Bytes := asBytes poorAddress ++ Hex.encode (beArr 64 1).1

theorem signedWitness_signed : SignedWitness signedWitness := by
  have haddress : (asBytes poorAddress).length = 48 := by decide
  have hdecode := Hex.decode_encode (beArr 64 1).1
  refine ⟨?_, List.take_left' haddress, ?_⟩
  · rw [signedWitness, List.length_append, haddress, Hex.length_of_decode hdecode, (beArr 64 1).2]
  · rw [signedWitness, List.drop_left' haddress, hdecode]

def signedBlob : Bytes := (Codec.bytes.seq.encode [signedWitness]).getD []

theorem decodeWitnesses_signedBlob : decodeWitnesses signedBlob = some [signedWitness] := by
  have hsome : (Codec.bytes.seq.encode [signedWitness]).isSome := by
    rw [Codec.seq_encode_isSome]
    refine ⟨by simp, fun w hw => Codec.bytes_encode_isSome.mpr ?_⟩
    rw [List.mem_singleton.mp hw, signedWitness_signed.length]
    norm_num
  obtain ⟨e, he⟩ := Option.isSome_iff_exists.mp hsome
  have hblob : signedBlob = e := by rw [signedBlob, he, Option.getD_some]
  rw [hblob, decodeWitnesses, Codec.decode_encode _ he, Option.map_some]

def blake2OfLast (b : Bytes) : Arr 32 := beArr 32 (b.getLastD 0).toNat

def ownPool (blob : Bytes) : RequestPool :=
  (RequestPool.add blake2OfLast (requestTo blob [1]) RequestPool.emptyPool).2

def ownSigning : Signing := ⟨poor, leBytes 4 0, [102], [1]⟩

def copiedPool (blob : Bytes) : SignedPool where
  pool := (RequestPool.add blake2OfLast (requestTo blob [2]) (ownPool blob)).2
  nonces _ := some 0
  signed := [ownSigning]

theorem unforged_own (req : DecryptionRequest) : Unforged twoAccounts [ownSigning] req := by
  intro sig key message _ hv
  obtain ⟨-, rfl, rfl⟩ := of_decide_eq_true hv
  exact ⟨ownSigning, List.mem_cons_self, rfl, rfl⟩

variable (blob) in
theorem copiedPool_reachable :
    Reachable twoAccounts blake2OfLast .deployed (copiedPool blob) := by
  refine ⟨RequestPool.emptyPool.authorizedWorkers, RequestPool.emptyPool, fun _ => some 0, rfl, ?_⟩
  let s₁ : SignedPool := ⟨RequestPool.emptyPool, fun _ => some 0, [ownSigning]⟩
  let s₂ : SignedPool := ⟨ownPool blob, fun _ => some 0, [ownSigning]⟩
  have hsign : Step twoAccounts blake2OfLast .deployed
      ⟨RequestPool.emptyPool, fun _ => some 0, []⟩ s₁ := .sign ownSigning _
  have hown : Step twoAccounts blake2OfLast .deployed s₁ s₂ := .add _ s₁ (unforged_own _)
  have hcopy : Step twoAccounts blake2OfLast .deployed s₂ (copiedPool blob) :=
    .add _ s₂ (unforged_own _)
  exact ((Relation.ReflTransGen.single hsign).tail hown).tail hcopy

variable (blob) in
theorem requestId_requestTo (n : UInt8) :
    RequestPool.requestId blake2OfLast (requestTo blob [n]) = (beArr 32 n.toNat).1 := by
  have hlast (b : Bytes) : blake2OfLast (b ++ [n]) = beArr 32 n.toNat := by simp [blake2OfLast]
  exact congrArg Subtype.val (hlast _)

variable (blob) in
theorem readAll_copiedPool :
    (copiedPool blob).pool.readAll = [requestTo blob [1], requestTo blob [2]] := by
  have hempty : RequestPool.Indexed blake2OfLast RequestPool.emptyPool :=
    RequestPool.new_indexed (show RequestPool.new .deployed
      RequestPool.emptyPool.authorizedWorkers = some RequestPool.emptyPool from rfl)
  have hown : RequestPool.emptyPool.requests.contains
    (RequestPool.requestId blake2OfLast (requestTo blob [1])) = false := rfl
  have hne : RequestPool.requestId blake2OfLast (requestTo blob [2]) ≠
      RequestPool.requestId blake2OfLast (requestTo blob [1]) := by
    rw [requestId_requestTo, requestId_requestTo]
    decide
  have hcopy : (ownPool blob).requests.contains
      (RequestPool.requestId blake2OfLast (requestTo blob [2])) = false := by
    rw [ownPool, RequestPool.add_of_not_contains hown]
    simp [Mapping.contains, Mapping.insert_of_ne _ _ hne, RequestPool.emptyPool]
  have hindexed := RequestPool.add_indexed hempty (requestTo blob [1])
  have hfirst := RequestPool.readAll_add hempty hown
  have hsecond := RequestPool.readAll_add hindexed hcopy
  rw [hfirst] at hsecond
  exact hsecond

theorem copy_listed : requestTo signedBlob [2] ∈ (copiedPool signedBlob).pool.readAll := by
  rw [readAll_copiedPool]
  exact List.mem_cons_of_mem _ List.mem_cons_self

theorem guardedEnv_sees : Sees guardedEnv (copiedPool signedBlob) :=
  fun _ _ h => Except.ok.inj h

theorem copy_sent : shareTo [2] ∈ (Worker.processDecryptionRequest
    (deployed twoAccounts guardedEnv.chain) guardedEnv (fun _ pool => .ok pool)
    (requestTo signedBlob [2]) (⟨(), []⟩ : World Unit Bytes Bytes Bytes)).2.sent := by
  have hprep := guardedEnv_prepares signedWitness_signed decodeWitnesses_signedBlob [2]
  rw [Worker.processDecryptionRequest, hprep]
  exact List.mem_cons_self

/-- The copy has the share of the file sent to location `2`. -/
theorem copied_witness_accepted :
    Reachable twoAccounts blake2OfLast .deployed (copiedPool signedBlob) ∧
    requestTo signedBlob [1] ∈ (copiedPool signedBlob).pool.readAll ∧
    requestTo signedBlob [2] ∈ (copiedPool signedBlob).pool.readAll ∧
    Sees guardedEnv (copiedPool signedBlob) ∧ Guarded guardedEnv [102] 0 ∧
    shareTo [2] ∈ (Worker.processDecryptionRequest (deployed twoAccounts guardedEnv.chain)
      guardedEnv (fun _ pool => .ok pool) (requestTo signedBlob [2])
      (⟨(), []⟩ : World Unit Bytes Bytes Bytes)).2.sent ∧
    WitnessKey twoAccounts (requestTo signedBlob [2]) 0 poor ∧
    ¬ ∃ g ∈ (copiedPool signedBlob).signed, g.key = poor ∧
      g.filename = (requestTo signedBlob [2]).filename ∧
      g.location = (requestTo signedBlob [2]).location := by
  have hown : requestTo signedBlob [1] ∈ (copiedPool signedBlob).pool.readAll := by
    rw [readAll_copiedPool]
    exact List.mem_cons_self
  refine ⟨copiedPool_reachable signedBlob, hown, copy_listed, guardedEnv_sees, guardedEnv_guarded,
    copy_sent, requestTo_key signedWitness_signed decodeWitnesses_signedBlob [2], fun h => ?_⟩
  obtain ⟨g, hmem, -, -, hloc⟩ := h
  rw [List.mem_singleton.mp hmem] at hloc
  exact absurd hloc (by decide)

theorem delivered_on_signed_nonce_copied :
    guardedEnv.lib.endpointOfBytes [2] = some (shareTo [2]).receiver ∧
    ∃ key nonce, WitnessKey twoAccounts (requestTo signedBlob [2]) 0 key ∧
      (copiedPool signedBlob).nonces key = some nonce ∧
      Signed (copiedPool signedBlob).signed key (leBytes 4 nonce.toNat) :=
  delivered_on_signed_nonce (copiedPool_reachable signedBlob) copy_listed guardedEnv_sees
    guardedEnv_guarded copy_sent

end Copy

end SignedPool

end Fangorn
