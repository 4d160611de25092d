import Fangorn.IntentBinding
import Fangorn.DecryptSession

/-! A locked file from its encryption to the shares of its ciphertext: the client
that locks it, the shared stores while others work on them, and a worker that is
asked for its share. -/

namespace Fangorn

open Rust Ink Scale

namespace DecryptionJourney

open IntentBinding PasswordAccess

variable {Cid Ciphertext Addr : Type}

section Kept

variable (S : Setting Cid Ciphertext Addr)

/-- The stores hold a document and, under a filename, its identifier with the
intents. -/
structure Holds (filename bytes : Bytes) (intents : List Intent)
    (stores : SharedStores Ciphertext) : Prop where
  entry : ∃ predicate args, Intent.encodeVec intents = some predicate ∧
    (Codec.bytes.pair (Codec.bytes.pair Codec.bytes)).encode
      (filename, S.lib.cid.toBytes (S.buildCid bytes), predicate) = some args ∧
    stores.registry.read filename = some ⟨S.lib.cid.toBytes (S.buildCid bytes), predicate⟩
  document : ∃ content, Announcement.codec.encode ⟨.doc, bytes⟩ = some content ∧
    stores.docs (S.lib.cid.toString (S.buildCid bytes)) = some content

/-- A step of anybody, other than the removal of the filename and a write by hand
under the identifier. -/
inductive Spares (filename : Bytes) (cid : Cid) :
    SystemState Cid Ciphertext Addr → SystemState Cid Ciphertext Addr → Prop
  | step {s t : SystemState Cid Ciphertext Addr} : SystemStep S s t →
      t ≠ { s with stores := s.stores.removePredicate filename } → Spares filename cid s t
  | write (key : Str) (value : Bytes) (s : SystemState Cid Ciphertext Addr) :
      key ≠ S.lib.cid.toString cid → Spares filename cid s
        { s with stores :=
          { s.stores with docs := Function.update s.stores.docs key (some value) } }

variable {S} {stores stores' : SharedStores Ciphertext} {filename bytes : Bytes}
  {intents : List Intent} {s t : SystemState Cid Ciphertext Addr}

theorem sealed_of_inner {client : EncryptionClient Cid Ciphertext}
    {encryptLib : Bytes → Except Str Ciphertext} {plaintext : Bytes} {ciphertext : Ciphertext}
    (h : client.encryptInner encryptLib plaintext = .ok (ciphertext, bytes)) :
    encryptLib plaintext = .ok ciphertext := by
  unfold EncryptionClient.encryptInner at h
  cases hlib : encryptLib plaintext with
  | error e => simp [hlib] at h
  | ok c =>
    simp only [hlib, Outcome.bind_eq_ok, Outcome.ok.injEq, Prod.mk.injEq] at h
    obtain ⟨_, -, rfl, -⟩ := h
    rfl

theorem encrypt_holds {account : AccountId} {encryptLib : Bytes → Except Str Ciphertext}
    {write : BackendWrite} {plaintext : Bytes} {rawIntent : Str}
    (h : (clientOf S account).encrypt encryptLib write plaintext filename rawIntent stores =
      (.ok (), stores')) :
    ∃ intents ciphertext bytes, S.gadgets.parseIntents rawIntent = .ok intents ∧
      encryptLib plaintext = .ok ciphertext ∧ S.ciphertextToBytes ciphertext = some bytes ∧
      Holds S filename bytes intents stores' := by
  unfold EncryptionClient.encrypt at h
  cases hparse : (clientOf S account).registry.parseIntents rawIntent with
  | err e => simp [hparse] at h
  | panic => simp [hparse] at h
  | ok intents =>
    cases hinner : (clientOf S account).encryptInner encryptLib plaintext with
    | err e => simp [hparse, hinner] at h
    | panic => simp [hparse, hinner] at h
    | ok sealed =>
      obtain ⟨ciphertext, bytes⟩ := sealed
      rw [hparse, hinner] at h
      dsimp only at h
      rcases hadd : IrohDocStore.add (clientOf S account).cid (clientOf S account).buildCid write
          bytes stores.docs with ⟨added, docs⟩
      cases added with
      | err e => simp [hadd] at h
      | panic => simp [hadd] at h
      | ok cid =>
        obtain ⟨rfl, content, hcontent, rfl⟩ := IrohDocStore.add_eq_ok _ hadd
        rw [hadd] at h
        dsimp only at h
        cases hreg : ContractIntentStore.registerIntent (clientOf S account).cid
            (clientOf S account).blake2 (clientOf S account).account filename
            ((clientOf S account).buildCid bytes) intents stores.registry with
        | err e => simp [hreg] at h
        | panic => simp [hreg] at h
        | ok registry =>
          obtain ⟨predicate, hpredicate, hok, -⟩ := ContractIntentStore.registerIntent_eq_ok hreg
          obtain ⟨args, hargs, -⟩ := Outcome.bind_eq_ok.mp hreg
          obtain ⟨predicate', hpredicate', hencode⟩ :=
            Option.bind_eq_some_iff.mp (Outcome.expect_eq_ok.mp hargs)
          obtain rfl : predicate = predicate' := Option.some.inj (hpredicate.symm.trans hpredicate')
          rw [hreg] at h
          obtain ⟨-, rfl⟩ := Prod.mk.inj h
          refine ⟨intents, ciphertext, bytes, hparse, sealed_of_inner hinner,
            EncryptionClient.encryptInner_eq_ok hinner, ?_, content, hcontent, ?_⟩
          · exact ⟨predicate, args, hpredicate, hencode, PredicateRegistry.read_of_registered hok⟩
          · exact Function.update_self ..

theorem registered_read {registry registry' : PredicateRegistry} {other cid predicate : Bytes}
    {entry : Entry} (h : registry.read filename = some entry)
    (hreg : (registry.registerPredicate other cid predicate).2 = registry') :
    registry'.read filename = some entry := by
  rw [← hreg, PredicateRegistry.registerPredicate_read, if_neg, h]
  rintro ⟨rfl, hnone⟩
  rw [h] at hnone
  cases hnone

theorem Holds.of_read (h : Holds S filename bytes intents stores)
    (hread : ∀ entry, stores.registry.read filename = some entry →
      stores'.registry.read filename = some entry)
    (hdocs : ∀ content, stores.docs (S.lib.cid.toString (S.buildCid bytes)) = some content →
      Announcement.codec.encode ⟨.doc, bytes⟩ = some content →
      stores'.docs (S.lib.cid.toString (S.buildCid bytes)) = some content) :
    Holds S filename bytes intents stores' := by
  obtain ⟨⟨predicate, args, hpredicate, hargs, hentry⟩, content, hcontent, hdoc⟩ := h
  exact ⟨⟨predicate, args, hpredicate, hargs, hread _ hentry⟩, content, hcontent,
    hdocs content hdoc hcontent⟩

theorem encrypt_keeps (h : Holds S filename bytes intents stores)
    (hcid : ∀ b, S.lib.cid.toString (S.buildCid b) = S.lib.cid.toString (S.buildCid bytes) →
      b = bytes) {account : AccountId} {encryptLib : Bytes → Except Str Ciphertext}
    {write : BackendWrite}
    {plaintext other : Bytes} {rawIntent : Str} {o : Outcome EncryptionClientError Unit}
    (hrun : (clientOf S account).encrypt encryptLib write plaintext other rawIntent stores =
      (o, stores')) : Holds S filename bytes intents stores' := by
  rcases EncryptionClient.encrypt_cases hrun with rfl | ⟨_, b, hstores, hregs⟩
  · exact h
  obtain ⟨content', hcontent', hdocs⟩ := hstores.document
  refine h.of_read (fun entry hentry => ?_) fun content hdoc hcontent => ?_
  · rcases hregs with ⟨hsame, -⟩ | ⟨predicate, hreg⟩
    · rwa [hsame]
    · exact registered_read hentry (congrArg Prod.snd hreg.accepted)
  · rw [hdocs, Function.update_apply]
    split_ifs with hkey
    · -- the same key, hence the same document
      rw [hcid b hkey.symm, hcontent] at hcontent'
      exact hcontent'.symm
    · exact hdoc

theorem system_step_keeps (hcid : ∀ b, S.lib.cid.toString (S.buildCid b) =
      S.lib.cid.toString (S.buildCid bytes) → b = bytes) (hstep : SystemStep S s t)
    (hspares : t ≠ { s with stores := s.stores.removePredicate filename })
    (h : Holds S filename bytes intents s.stores) : Holds S filename bytes intents t.stores := by
  cases hstep with
  | encrypt account encryptLib write plaintext other rawIntent =>
    exact encrypt_keeps h hcid (Prod.mk.eta ..).symm
  | register other cid predicate =>
    refine h.of_read (fun entry hentry => ?_) fun content hdoc _ => ?_
    · unfold SharedStores.registerPredicate
      rcases hreg : s.stores.registry.registerPredicate other cid predicate with ⟨_ | _, registry⟩
      · exact hentry
      · exact registered_read hentry (congrArg Prod.snd hreg)
    · unfold SharedStores.registerPredicate
      rcases s.stores.registry.registerPredicate other cid predicate with ⟨_ | _, registry⟩ <;>
        exact hdoc
  | remove other =>
    have hne : filename ≠ other := by
      rintro rfl
      exact hspares rfl
    refine h.of_read (fun entry hentry => ?_) fun content hdoc _ => ?_
    · have hread := PredicateRegistry.removePredicate_read s.stores.registry other filename
      rw [if_neg hne] at hread
      unfold SharedStores.removePredicate
      rcases hrem : s.stores.registry.removePredicate other with ⟨_ | _, registry⟩
      · exact hentry
      · rw [hrem] at hread
        exact hread.trans hentry
    · unfold SharedStores.removePredicate
      rcases s.stores.registry.removePredicate other with ⟨_ | _, registry⟩ <;> exact hdoc
  | request req => exact h
  | process env attest req _ o w _ _ _ => exact h

theorem step_keeps (hcid : ∀ b, S.lib.cid.toString (S.buildCid b) =
      S.lib.cid.toString (S.buildCid bytes) → b = bytes)
    (hstep : Spares S filename (S.buildCid bytes) s t)
    (h : Holds S filename bytes intents s.stores) : Holds S filename bytes intents t.stores := by
  cases hstep with
  | step hstep hspares => exact system_step_keeps hcid hstep hspares h
  | write key value _ hkey =>
    refine h.of_read (fun _ hentry => hentry) fun content hdoc _ => ?_
    exact (Function.update_of_ne (Ne.symm hkey) ..).trans hdoc

theorem run_keeps (hcid : ∀ b, S.lib.cid.toString (S.buildCid b) =
      S.lib.cid.toString (S.buildCid bytes) → b = bytes)
    (hrun : Relation.ReflTransGen (Spares S filename (S.buildCid bytes)) s t)
    (h : Holds S filename bytes intents s.stores) : Holds S filename bytes intents t.stores := by
  induction hrun with
  | refl => exact h
  | tail _ hstep ih => exact step_keeps hcid hstep ih

end Kept

section Read

variable (S : Setting Cid Ciphertext Addr)

/-- What is read from the contract and the document is the present state. -/
structure UpToDate (chain : Chain) (intentStore : AccountId)
    (docRead : Str → Outcome Str (Option Bytes)) (stores : SharedStores Ciphertext) : Prop where
  registry : ∃ account, ∀ input out,
    query S.blake2 PredicateRegistry.messages account input stores.registry = some out →
      chain.call intentStore input = .ok out
  document : ∀ key, docRead key = .ok (stores.docs key)

variable {S} {stores : SharedStores Ciphertext} {filename bytes : Bytes} {intents : List Intent}
  {chain : Chain} {intentStore : AccountId} {docRead : Str → Outcome Str (Option Bytes)}

theorem entry_encode {cid predicate args : Bytes}
    (h : (Codec.bytes.pair (Codec.bytes.pair Codec.bytes)).encode (filename, cid, predicate) =
      some args) :
    (∃ name, Codec.bytes.encode filename = some name) ∧
      ∃ e, Entry.codec.opt.encode (some ⟨cid, predicate⟩) = some e := by
  obtain ⟨name, rest, hname, hrest, -⟩ := Codec.pair_encode_eq_some.mp h
  have hentry : Entry.codec.encode ⟨cid, predicate⟩ = some rest := hrest
  exact ⟨⟨name, hname⟩, 1 :: rest, by simp [Codec.opt, hentry]⟩

theorem UpToDate.getIntent (hsel : selector S.blake2 "register_predicate".toList ≠
      selector S.blake2 "read".toList)
    (hcid : S.lib.cid.ofBytes (S.lib.cid.toBytes (S.buildCid bytes)) = some (S.buildCid bytes))
    (h : UpToDate S chain intentStore docRead stores)
    (hholds : Holds S filename bytes intents stores) :
    ContractIntentStore.getIntent S.lib.cid S.blake2 chain intentStore filename =
      .ok (some (S.buildCid bytes, intents.map Intent.detached)) := by
  obtain ⟨predicate, args, hpredicate, hargs, hentry⟩ := hholds.entry
  obtain ⟨⟨name, hname⟩, e, he⟩ := entry_encode hargs
  obtain ⟨account, hanswer⟩ := h.registry
  have hquery := PredicateRegistry.query_read hsel account stores.registry hname
  rw [hentry, he] at hquery
  refine ContractIntentStore.getIntent_eq_some.mpr
    ⟨⟨S.lib.cid.toBytes (S.buildCid bytes), predicate⟩,
      ⟨name, 0 :: e, [], hname, hanswer _ _ hquery, ?_⟩, ?_⟩
  · exact Codec.decode_encode _ he
  · exact ContractIntentStore.openEntry_eq_ok.mpr ⟨Intent.decodeVec_encodeVec hpredicate, hcid⟩

theorem UpToDate.fetch (h : UpToDate S chain intentStore docRead stores)
    (hholds : Holds S filename bytes intents stores) :
    IrohDocStore.fetch S.lib.cid docRead (S.buildCid bytes) = .ok (some bytes) := by
  obtain ⟨content, hcontent, hdoc⟩ := hholds.document
  refine (IrohDocStore.fetch_eq_some S.lib.cid).mpr ⟨content, .doc, [], ?_, ?_⟩
  · rw [h.document, hdoc]
  · exact Codec.decode_encode _ hcontent

end Read

section Service

variable (S : Setting Cid Ciphertext Addr) (stores : SharedStores Ciphertext)

/-- A worker that sees the present state, can make a share and gets a stream to
the location. -/
structure Serves (env : WorkerEnv Cid Ciphertext Addr) (ciphertext : Ciphertext)
    (share location : Bytes) : Prop where
  cid : env.lib.cid = S.lib.cid
  ciphertexts : env.lib.ciphertextOfBytes = S.lib.ciphertextOfBytes
  blake2 : env.blake2 = S.blake2
  view : UpToDate S env.chain env.intentStore env.docRead stores
  decrypts : env.lib.partialDecryption ciphertext = some share
  size : share.length < 2 ^ 32
  index : env.index < 256
  reached : ∃ receiver conn, env.lib.endpointOfBytes location = some receiver ∧
    env.connect receiver = some conn ∧ conn.openBi = true

/-- A client that sees the present state. -/
structure Awaits {Share : Type} (env : SessionEnv Cid Ciphertext Share) : Prop where
  cid : env.cid = S.lib.cid
  ciphertexts : env.ciphertextOfBytes = S.lib.ciphertextOfBytes
  blake2 : env.blake2 = S.blake2
  view : UpToDate S env.chain env.intentStore env.docRead stores

variable {S stores} {filename bytes : Bytes} {intents : List Intent} {ciphertext : Ciphertext}
  {share : Bytes} {worker : WorkerEnv Cid Ciphertext Addr} {req : DecryptionRequest}

theorem Serves.getIntent (hsel : selector S.blake2 "register_predicate".toList ≠
      selector S.blake2 "read".toList)
    (hcid : S.lib.cid.ofBytes (S.lib.cid.toBytes (S.buildCid bytes)) = some (S.buildCid bytes))
    (hholds : Holds S filename bytes intents stores) {location : Bytes}
    (h : Serves S stores worker ciphertext share location) :
    ContractIntentStore.getIntent worker.lib.cid worker.blake2 worker.chain worker.intentStore
      filename = .ok (some (S.buildCid bytes, intents.map Intent.detached)) := by
  rw [h.cid, h.blake2]
  exact h.view.getIntent hsel hcid hholds

theorem passes_of_prepared (hsel : selector S.blake2 "register_predicate".toList ≠
      selector S.blake2 "read".toList)
    (hcid : S.lib.cid.ofBytes (S.lib.cid.toBytes (S.buildCid bytes)) = some (S.buildCid bytes))
    (hholds : Holds S req.filename bytes intents stores)
    (hatt : ∀ intent ∈ intents, S.gadgets.Attached intent)
    (h : Serves S stores worker ciphertext share req.location)
    {release : Release Cid Ciphertext Addr}
    (hprep : Worker.prepare S.gadgets worker req = .ok (some release)) :
    Passes S req intents := by
  obtain ⟨witness, intents', hw, hget, hv, -⟩ := Worker.prepare_eq_some hprep
  have hsame := hget.symm.trans (h.getIntent hsel hcid hholds)
  rw [Outcome.ok.injEq, Option.some.injEq, Prod.mk.injEq] at hsame
  rw [hsame.2, GadgetRegistry.verifyIntents_detached hatt] at hv
  exact ⟨witness, hw, hv⟩

theorem prepare_of_passes (hsel : selector S.blake2 "register_predicate".toList ≠
      selector S.blake2 "read".toList)
    (hcid : S.lib.cid.ofBytes (S.lib.cid.toBytes (S.buildCid bytes)) = some (S.buildCid bytes))
    (hholds : Holds S req.filename bytes intents stores)
    (hatt : ∀ intent ∈ intents, S.gadgets.Attached intent)
    (hser : S.lib.ciphertextOfBytes bytes = some ciphertext)
    (h : Serves S stores worker ciphertext share req.location) (hpasses : Passes S req intents) :
    ∃ msgBytes receiver conn, worker.connect receiver = some conn ∧ conn.openBi = true ∧
      Worker.prepare S.gadgets worker req = .ok (some ⟨S.buildCid bytes, ciphertext,
        ⟨req.filename, UInt8.ofNat worker.index, share⟩, msgBytes, receiver⟩) := by
  obtain ⟨witness, hw, hv⟩ := hpasses
  obtain ⟨receiver, conn, hreceiver, hconn, hopen⟩ := h.reached
  have hfile : req.filename.length < 2 ^ 32 := by
    obtain ⟨_, args, -, hargs, -⟩ := hholds.entry
    obtain ⟨⟨name, hname⟩, -⟩ := entry_encode hargs
    simpa using Option.isSome_of_mem hname
  have hencodes : (PartialDecryptionMessage.codec.encode
      ⟨req.filename, UInt8.ofNat worker.index, share⟩).isSome :=
    PartialDecryptionMessage.encode_isSome.mpr ⟨hfile, h.size⟩
  obtain ⟨msgBytes, hmsg⟩ := Option.isSome_iff_exists.mp hencodes
  rw [← GadgetRegistry.verifyIntents_detached hatt] at hv
  refine ⟨msgBytes, receiver, conn, hconn, hopen, Worker.prepare_eq_some_iff.mpr
    ⟨witness, S.buildCid bytes, _, hw, h.getIntent hsel hcid hholds, hv, ?_⟩⟩
  refine Worker.releaseShare_eq_some_iff.mpr ⟨bytes, ciphertext, share, msgBytes, receiver, ?_,
    h.ciphertexts ▸ hser, h.decrypts, h.index, hmsg, hreceiver, rfl⟩
  rw [h.cid]
  exact h.view.fetch hholds

theorem process_sends {gadgets : GadgetRegistry}
    {attest : DecryptionRequest → RequestPool → Outcome Unit RequestPool}
    {release : Release Cid Ciphertext Addr} {conn : Connection}
    (hprep : Worker.prepare gadgets worker req = .ok (some release))
    (hconn : worker.connect release.receiver = some conn) (hopen : conn.openBi = true)
    (pool : RequestPool) :
    (Worker.processDecryptionRequest gadgets worker attest req ⟨pool, []⟩).2.sent = [release] := by
  rw [Worker.processDecryptionRequest, hprep]
  dsimp only
  unfold Worker.deliver
  rw [hconn]
  dsimp only
  simp only [hopen, Bool.not_true, Bool.false_eq_true, if_false]
  split_ifs
  · rfl
  · rfl
  · cases conn.response with
    | none => rfl
    | some response =>
      dsimp only
      split_ifs
      · rfl
      · cases attest req pool <;> rfl
      · rfl

theorem Awaits.opens (hsel : selector S.blake2 "register_predicate".toList ≠
      selector S.blake2 "read".toList)
    (hcid : S.lib.cid.ofBytes (S.lib.cid.toBytes (S.buildCid bytes)) = some (S.buildCid bytes))
    (hholds : Holds S filename bytes intents stores)
    (hser : S.lib.ciphertextOfBytes bytes = some ciphertext) {Share : Type}
    {session : SessionEnv Cid Ciphertext Share} (h : Awaits S stores session) :
    DecryptSession.openCiphertext session filename = .ok ciphertext := by
  have hget := h.view.getIntent hsel hcid hholds
  have hfetch := h.view.fetch hholds
  rw [← h.cid, ← h.blake2] at hget
  rw [← h.cid] at hfetch
  simp only [DecryptSession.openCiphertext, hget, hfetch, h.ciphertexts, hser, Outcome.unwrap,
    Outcome.ok_bind, Outcome.expect]

end Service

section Journey

variable {S : Setting Cid Ciphertext Addr} {s : SystemState Cid Ciphertext Addr}

theorem envOf_upToDate (stores : SharedStores Bytes) : UpToDate sampleSetting (envOf stores).chain
    zeroKey (fun key => .ok (stores.docs key)) stores where
  registry := by
    refine ⟨zeroKey, fun input out h => ?_⟩
    change query blake2OfCalls PredicateRegistry.messages zeroKey input stores.registry = _ at h
    simp only [envOf]
    rw [h]
  document _ := rfl

theorem digestCid_ofBytes (d : Arr 32) : digestCid.ofBytes (digestCid.toBytes d) = some d := by
  have hprefix : (cidPrefix ++ d.1).take 4 = cidPrefix := List.take_left' rfl
  have hdigest : (cidPrefix ++ d.1).drop 4 = d.1 := List.drop_left' rfl
  simp only [digestCid, hprefix, hdigest, if_true]
  exact Arr.ofBytes?_eq_some.mpr rfl

theorem documentDigest_unique {b : Bytes} (h : digestCid.toString (sampleSetting.buildCid b) =
    digestCid.toString (sampleSetting.buildCid [1])) : b = [1] := by
  by_contra hne
  have hdigest := digestCid_toString_injective h
  simp only [sampleSetting, if_neg hne, if_true] at hdigest
  exact absurd hdigest (by decide)

def noteStores : SharedStores Bytes :=
  { secondStores with docs := Function.update secondStores.docs [] (some [0]) }

/-- Somebody takes a second name for the document, somebody else writes a note. -/
theorem noteStores_spared : Relation.ReflTransGen
    (Spares sampleSetting [102] documentDigest)
    ⟨encryptedStores, RequestPool.emptyPool, []⟩ ⟨noteStores, RequestPool.emptyPool, []⟩ := by
  have hname : Spares sampleSetting [102] documentDigest
      (⟨encryptedStores, RequestPool.emptyPool, []⟩ : SystemState (Arr 32) Bytes Bytes)
      ⟨secondStores, RequestPool.emptyPool, []⟩ := by
    refine .step (.register [103] _ [0] _) fun h => ?_
    have hread := congrArg (fun s : SystemState (Arr 32) Bytes Bytes =>
      s.stores.registry.read [102]) h
    exact absurd hread (by decide)
  exact (Relation.ReflTransGen.single hname).tail (.write [] [0] _ (by decide))

def sealOne (_ : Bytes) : Except Str Bytes := .ok [1]

end Journey

end DecryptionJourney

end Fangorn
