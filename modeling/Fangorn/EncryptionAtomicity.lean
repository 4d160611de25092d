import Fangorn.IntentBinding

/-! Encryption as a transaction on two stores (`crypto/encrypt.rs`): the
ciphertext goes into the shared document first, and its name into the predicate
registry afterwards, over a transport that may fail. -/

namespace Fangorn

open Rust Ink Scale SubstrateBackend

structure StorePair where
  docs : Str → Option Bytes
  registry : PredicateRegistry

def SharedStores.pair {Ciphertext : Type} (s : SharedStores Ciphertext) : StorePair :=
  ⟨s.docs, s.registry⟩

namespace EncryptionClient

variable {Cid Ciphertext : Type} (client : EncryptionClient Cid Ciphertext)

section Definitions

variable (t : Transport) (encryptLib : Bytes → Except Str Ciphertext) (w : BackendWrite)
  (plaintext filename : Bytes) (rawIntent : Str)

/-- `encrypt` on the two stores alone. An error of the registration is unwrapped
by `expect`. -/
def encryptOver (s : StorePair) : Outcome EncryptionClientError Unit × StorePair :=
  match client.registry.parseIntents rawIntent with
  | .err e => (.err (.intentParsingError e), s)
  | .panic => (.panic, s)
  | .ok intents =>
    match client.encryptInner encryptLib plaintext with
    | .err e => (.err e, s)
    | .panic => (.panic, s)
    | .ok (_, ciphertextBytes) =>
      match IrohDocStore.add client.cid client.buildCid w ciphertextBytes s.docs with
      | (.err e, docs) => (.err (.docstoreError e), { s with docs := docs })
      | (.panic, docs) => (.panic, { s with docs := docs })
      | (.ok cid, docs) =>
        let (result, registry) := t.deliver (ContractIntentStore.registerIntent client.cid
          client.blake2 client.account filename cid intents s.registry) s.registry
        (result.unwrap, ⟨docs, registry⟩)

/-- The registry names a ciphertext in the document, made from this plaintext,
under the parsed intents. -/
structure Encrypted (s : StorePair) : Prop where
  named : ∃ intents ciphertext bytes entry,
    client.registry.parseIntents rawIntent = .ok intents ∧
    encryptLib plaintext = .ok ciphertext ∧
    client.ciphertextToBytes ciphertext = some bytes ∧
    s.registry.read filename = some entry ∧
    entry.cid = client.cid.toBytes (client.buildCid bytes) ∧
    Intent.decodeVec entry.predicate = some (intents.map Intent.detached) ∧
    IrohDocStore.fetch client.cid (fun key => .ok (s.docs key)) (client.buildCid bytes) =
      .ok (some bytes)

structure AllOrNothing (s : StorePair) : Prop where
  returns : (client.encryptOver t encryptLib w plaintext filename rawIntent s).1 ≠ .panic
  all : (client.encryptOver t encryptLib w plaintext filename rawIntent s).1 = .ok () →
    client.Encrypted encryptLib plaintext filename rawIntent
      (client.encryptOver t encryptLib w plaintext filename rawIntent s).2
  nothing : ∀ e,
    (client.encryptOver t encryptLib w plaintext filename rawIntent s).1 = .err e →
      (client.encryptOver t encryptLib w plaintext filename rawIntent s).2 = s

/-- The registry takes the name, and the client gets to know it. -/
structure Registrable (intents : List Intent) (bytes : Bytes) (s : StorePair) : Prop where
  encodable : (ContractIntentStore.registerArgs client.cid filename (client.buildCid bytes)
    intents).isSome
  free : s.registry.predicateRegistry.contains filename = false
  room : s.registry.HasRoom filename
  included : t.included = true
  confirmed : t.confirmed = true

structure Sealed (intents : List Intent) (ciphertext : Ciphertext) (bytes : Bytes) : Prop where
  parsed : client.registry.parseIntents rawIntent = .ok intents
  encrypted : encryptLib plaintext = .ok ciphertext
  serialized : client.ciphertextToBytes ciphertext = some bytes

end Definitions

section Cases

variable {client} {t : Transport} {encryptLib : Bytes → Except Str Ciphertext} {w : BackendWrite}
  {plaintext filename : Bytes} {rawIntent : Str}

theorem encryptOver_reliable (s : SharedStores Ciphertext) :
    client.encryptOver ⟨true, true⟩ encryptLib w plaintext filename rawIntent s.pair =
      ((client.encrypt encryptLib w plaintext filename rawIntent s).1,
        (client.encrypt encryptLib w plaintext filename rawIntent s).2.pair) := by
  unfold encryptOver encrypt
  cases client.registry.parseIntents rawIntent with
  | err e => rfl
  | panic => rfl
  | ok intents =>
    cases client.encryptInner encryptLib plaintext with
    | err e => rfl
    | panic => rfl
    | ok sealed =>
      dsimp only [SharedStores.pair]
      rcases IrohDocStore.add client.cid client.buildCid w sealed.2 s.docs with ⟨result, docs⟩
      cases result with
      | err e => rfl
      | panic => rfl
      | ok cid =>
        dsimp only
        cases ContractIntentStore.registerIntent client.cid client.blake2 client.account filename
            cid intents s.registry with
        | err e => rfl
        | panic => rfl
        | ok registry => rfl

theorem encryptInner_eq_err_or_ok :
    (∃ e, client.encryptInner encryptLib plaintext = .err e) ∨
      ∃ ciphertext bytes, encryptLib plaintext = .ok ciphertext ∧
        client.ciphertextToBytes ciphertext = some bytes ∧
        client.encryptInner encryptLib plaintext = .ok (ciphertext, bytes) := by
  unfold encryptInner
  cases encryptLib plaintext with
  | error e => exact Or.inl ⟨_, rfl⟩
  | ok ciphertext =>
    cases hbytes : client.ciphertextToBytes ciphertext with
    | none => exact Or.inl ⟨.serializationError, by simp [hbytes, Outcome.okOr]⟩
    | some bytes => exact Or.inr ⟨ciphertext, bytes, rfl, hbytes, by simp [hbytes, Outcome.okOr]⟩

theorem encryptOver_of_not_sealed {s : StorePair}
    (hparse : client.registry.parseIntents rawIntent ≠ .panic)
    (h : ∀ intents ciphertext bytes,
      ¬ client.Sealed encryptLib plaintext rawIntent intents ciphertext bytes) :
    ∃ e, client.encryptOver t encryptLib w plaintext filename rawIntent s = (.err e, s) := by
  unfold encryptOver
  cases hp : client.registry.parseIntents rawIntent with
  | err e => exact ⟨_, rfl⟩
  | panic => exact absurd hp hparse
  | ok intents =>
    rcases encryptInner_eq_err_or_ok with ⟨e, herr⟩ | ⟨ciphertext, bytes, henc, hbytes, -⟩
    · rw [herr]
      exact ⟨e, rfl⟩
    · exact absurd ⟨hp, henc, hbytes⟩ (h intents ciphertext bytes)

theorem allOrNothing_of_err {s : StorePair} {e : EncryptionClientError}
    (h : client.encryptOver t encryptLib w plaintext filename rawIntent s = (.err e, s)) :
    client.AllOrNothing t encryptLib w plaintext filename rawIntent s := by
  refine ⟨?_, fun hok => ?_, fun _ _ => congrArg Prod.snd h⟩
  · rw [h]
    simp
  · rw [h] at hok
    cases hok

section Sealed

variable {intents : List Intent} {ciphertext : Ciphertext} {bytes : Bytes} {s : StorePair}
  (h : client.Sealed encryptLib plaintext rawIntent intents ciphertext bytes)
include h

theorem encryptOver_of_sealed :
    client.encryptOver t encryptLib w plaintext filename rawIntent s =
      match IrohDocStore.add client.cid client.buildCid w bytes s.docs with
      | (.err e, docs) => (.err (.docstoreError e), { s with docs := docs })
      | (.panic, docs) => (.panic, { s with docs := docs })
      | (.ok cid, docs) =>
        let (result, registry) := t.deliver (ContractIntentStore.registerIntent client.cid
          client.blake2 client.account filename cid intents s.registry) s.registry
        (result.unwrap, ⟨docs, registry⟩) := by
  have hinner : client.encryptInner encryptLib plaintext = .ok (ciphertext, bytes) := by
    simp [encryptInner, h.encrypted, h.serialized, Outcome.okOr]
  rw [encryptOver, h.parsed, hinner]

theorem encryptOver_of_oversized (hlen : ¬ bytes.length < 2 ^ 32) :
    client.encryptOver t encryptLib w plaintext filename rawIntent s = (.panic, s) := by
  rw [encryptOver_of_sealed h, IrohDocStore.add_of_oversized _ _ _ _ hlen]

theorem encryptOver_of_no_author (hauthor : w.author = false) :
    client.encryptOver t encryptLib w plaintext filename rawIntent s = (.panic, s) := by
  rw [encryptOver_of_sealed h, IrohDocStore.add_of_no_author _ _ _ _ hauthor]

section Written

variable (hlen : bytes.length < 2 ^ 32) (hauthor : w.author = true)
include hlen hauthor

theorem encryptOver_of_unwritten (hstored : w.stored = false) :
    client.encryptOver t encryptLib w plaintext filename rawIntent s =
      (.err (.docstoreError "set_bytes".toList), s) := by
  obtain ⟨content, -, hadd⟩ :=
    IrohDocStore.add_of_length client.cid client.buildCid s.docs hlen hauthor
  rw [encryptOver_of_sealed h, hadd, hstored]
  rfl

variable (t filename s) in
theorem encryptOver_of_unreported (hstored : w.stored = true) (hreported : w.reported = false) :
    ∃ content, Announcement.codec.encode ⟨.doc, bytes⟩ = some content ∧
      client.encryptOver t encryptLib w plaintext filename rawIntent s =
        (.err (.docstoreError "set_bytes".toList),
          ⟨Function.update s.docs (client.cid.toString (client.buildCid bytes)) (some content),
            s.registry⟩) := by
  obtain ⟨content, hcontent, hadd⟩ :=
    IrohDocStore.add_of_length client.cid client.buildCid s.docs hlen hauthor
  refine ⟨content, hcontent, ?_⟩
  rw [encryptOver_of_sealed h, hadd, hstored, hreported]
  rfl

theorem encryptOver_of_registrable (hstored : w.stored = true) (hreported : w.reported = true)
    (hreg : client.Registrable t filename intents bytes s) :
    (client.encryptOver t encryptLib w plaintext filename rawIntent s).1 = .ok () ∧
      client.Encrypted encryptLib plaintext filename rawIntent
        (client.encryptOver t encryptLib w plaintext filename rawIntent s).2 := by
  obtain ⟨content, hcontent, hadd⟩ :=
    IrohDocStore.add_of_length client.cid client.buildCid s.docs hlen hauthor
  obtain ⟨registry, hregister⟩ : ∃ registry, ContractIntentStore.registerIntent client.cid
      client.blake2 client.account filename (client.buildCid bytes) intents s.registry =
        .ok registry :=
    ContractIntentStore.registerIntent_ok_iff.mpr ⟨hreg.encodable, hreg.free, hreg.room⟩
  rw [encryptOver_of_sealed h, hadd, hstored, hreported, if_pos rfl, if_pos rfl]
  dsimp only
  rw [Transport.deliver_eq_ok.mpr ⟨hregister, hreg.included, hreg.confirmed⟩]
  obtain ⟨predicate, hpredicate, hok, -⟩ := ContractIntentStore.registerIntent_eq_ok hregister
  refine ⟨rfl, intents, ciphertext, bytes, _, h.parsed, h.encrypted, h.serialized,
    PredicateRegistry.read_of_registered hok, rfl, Intent.decodeVec_encodeVec hpredicate, ?_⟩
  refine (IrohDocStore.fetch_eq_some client.cid).mpr ⟨content, .doc, [], ?_, ?_⟩
  · exact congrArg Outcome.ok (Function.update_self ..)
  · exact Codec.decode_encode _ hcontent

variable (t filename s) in
/-- What such a write leaves behind is what was there exactly when the document
already held this very announcement. -/
theorem unreported_unchanged_iff (hstored : w.stored = true) (hreported : w.reported = false) :
    (client.encryptOver t encryptLib w plaintext filename rawIntent s).2 = s ↔
      s.docs (client.cid.toString (client.buildCid bytes)) =
        Announcement.codec.encode ⟨.doc, bytes⟩ := by
  obtain ⟨content, hcontent, herr⟩ :=
    encryptOver_of_unreported t filename s h hlen hauthor hstored hreported
  rw [herr, hcontent]
  constructor
  · intro hsame
    have hdocs : Function.update s.docs (client.cid.toString (client.buildCid bytes))
        (some content) = s.docs := congrArg StorePair.docs hsame
    exact (Function.update_eq_self_iff.mp hdocs).symm
  · intro hheld
    dsimp only
    rw [← hheld, Function.update_eq_self]

theorem encryptOver_of_not_registrable (hstored : w.stored = true) (hreported : w.reported = true)
    (hreg : ¬ client.Registrable t filename intents bytes s) :
    (client.encryptOver t encryptLib w plaintext filename rawIntent s).1 = .panic := by
  obtain ⟨content, -, hadd⟩ :=
    IrohDocStore.add_of_length client.cid client.buildCid s.docs hlen hauthor
  rw [encryptOver_of_sealed h, hadd, hstored, hreported, if_pos rfl, if_pos rfl]
  dsimp only
  rcases hdeliver : t.deliver (ContractIntentStore.registerIntent client.cid client.blake2
    client.account filename (client.buildCid bytes) intents s.registry) s.registry with
    ⟨result, registry⟩
  cases result with
  | ok u =>
    obtain ⟨hregister, hincluded, hconfirmed⟩ := Transport.deliver_eq_ok.mp hdeliver
    obtain ⟨hencodable, hfree, hroom⟩ :=
      ContractIntentStore.registerIntent_ok_iff.mp ⟨_, hregister⟩
    exact absurd ⟨hencodable, hfree, hroom, hincluded, hconfirmed⟩ hreg
  | err e => rfl
  | panic => rfl

theorem allOrNothing_of_stores
    (hreg : w.stored = true → w.reported = true → client.Registrable t filename intents bytes s)
    (hheld : w.stored = true → w.reported = false →
      s.docs (client.cid.toString (client.buildCid bytes)) =
        Announcement.codec.encode ⟨.doc, bytes⟩) :
    client.AllOrNothing t encryptLib w plaintext filename rawIntent s := by
  cases hstored : w.stored with
  | false => exact allOrNothing_of_err (encryptOver_of_unwritten h hlen hauthor hstored)
  | true =>
    cases hreported : w.reported with
    | true =>
      obtain ⟨hok, hencrypted⟩ := encryptOver_of_registrable h hlen hauthor hstored hreported
        (hreg hstored hreported)
      refine ⟨?_, fun _ => hencrypted, fun e he => ?_⟩
      · rw [hok]
        simp
      · rw [hok] at he
        cases he
    | false =>
      obtain ⟨content, -, herr⟩ :=
        encryptOver_of_unreported t filename s h hlen hauthor hstored hreported
      have hsame := (unreported_unchanged_iff t filename s h hlen hauthor hstored hreported).mpr
        (hheld hstored hreported)
      rw [herr] at hsame
      exact allOrNothing_of_err (herr.trans (Prod.ext rfl hsame))

end Written

theorem AllOrNothing.stores
    (hall : client.AllOrNothing t encryptLib w plaintext filename rawIntent s) :
    bytes.length < 2 ^ 32 ∧ w.author = true ∧
      (w.stored = true → w.reported = true → client.Registrable t filename intents bytes s) ∧
      (w.stored = true → w.reported = false →
        s.docs (client.cid.toString (client.buildCid bytes)) =
          Announcement.codec.encode ⟨.doc, bytes⟩) := by
  have hlen : bytes.length < 2 ^ 32 := by
    by_contra hlong
    apply hall.returns
    rw [encryptOver_of_oversized h hlong]
  have hauthor : w.author = true := by
    by_contra hno
    apply hall.returns
    rw [encryptOver_of_no_author h (Bool.eq_false_iff.mpr hno)]
  refine ⟨hlen, hauthor, fun hstored hreported => ?_, fun hstored hreported => ?_⟩
  · by_contra hreg
    exact hall.returns (encryptOver_of_not_registrable h hlen hauthor hstored hreported hreg)
  · apply (unreported_unchanged_iff t filename s h hlen hauthor hstored hreported).mp
    obtain ⟨content, -, herr⟩ :=
      encryptOver_of_unreported t filename s h hlen hauthor hstored hreported
    exact hall.nothing _ (congrArg Prod.fst herr)

end Sealed

end Cases

variable (t : Transport) (encryptLib : Bytes → Except Str Ciphertext) (w : BackendWrite)
  (plaintext filename : Bytes) (rawIntent : Str) (s : StorePair)

/-- A registration that fails ends in a panic behind the first write, and a write
that goes through unnoticed is an error that has changed the document. So
encryption is all or nothing exactly when it never comes to either. -/
theorem allOrNothing_iff :
    client.AllOrNothing t encryptLib w plaintext filename rawIntent s ↔
      client.registry.parseIntents rawIntent ≠ .panic ∧
        ∀ intents ciphertext bytes, client.registry.parseIntents rawIntent = .ok intents →
          encryptLib plaintext = .ok ciphertext →
          client.ciphertextToBytes ciphertext = some bytes →
          bytes.length < 2 ^ 32 ∧ w.author = true ∧
            (w.stored = true → w.reported = true →
              client.Registrable t filename intents bytes s) ∧
            (w.stored = true → w.reported = false →
              s.docs (client.cid.toString (client.buildCid bytes)) =
                Announcement.codec.encode ⟨.doc, bytes⟩) := by
  constructor
  · intro h
    constructor
    · intro hpanic
      apply h.returns
      rw [encryptOver, hpanic]
    · intro intents ciphertext bytes hparsed hencrypted hserialized
      exact AllOrNothing.stores ⟨hparsed, hencrypted, hserialized⟩ h
  · intro h
    obtain ⟨hparse, hstores⟩ := h
    by_cases hsealed : ∃ intents ciphertext bytes,
        client.Sealed encryptLib plaintext rawIntent intents ciphertext bytes
    · obtain ⟨intents, ciphertext, bytes, hsealed⟩ := hsealed
      obtain ⟨hlen, hauthor, hreg, hheld⟩ := hstores intents ciphertext bytes hsealed.parsed
        hsealed.encrypted hsealed.serialized
      exact allOrNothing_of_stores hsealed hlen hauthor hreg hheld
    · have hnever : ∀ intents ciphertext bytes,
          ¬ client.Sealed encryptLib plaintext rawIntent intents ciphertext bytes := by
        intro intents ciphertext bytes hs
        exact hsealed ⟨intents, ciphertext, bytes, hs⟩
      obtain ⟨e, herr⟩ := encryptOver_of_not_sealed hparse hnever
      exact allOrNothing_of_err herr

section TakenName

open PasswordAccess IntentBinding

def encryptSecond (s : StorePair) : Outcome EncryptionClientError Unit × StorePair :=
  (clientOf sampleSetting (beArr 32 2)).encryptOver ⟨true, true⟩ (fun _ => .ok [2])
    ⟨true, true, true⟩ [] [102] secretIntent s

def secondKey : Str := digestCid.toString (beArr 32 0)

theorem encryptSecond_eq : encryptSecond encryptedStores.pair =
    (.panic, ⟨Function.update encryptedStores.docs secondKey (some [2, 4, 2]),
      encryptedStores.registry⟩) := by
  have hparse : (clientOf sampleSetting (beArr 32 2)).registry.parseIntents secretIntent =
    .ok (passwordIntents "secret".toList) := parse_secretIntent
  unfold encryptSecond encryptOver
  rw [hparse]
  rfl

/-- The name is taken, so the client panics, and its ciphertext stays. -/
theorem taken_name_panics :
    (encryptSecond encryptedStores.pair).2.docs secondKey = some [2, 4, 2] ∧
    encryptedStores.docs secondKey = none ∧
    ¬ (clientOf sampleSetting (beArr 32 2)).AllOrNothing ⟨true, true⟩ (fun _ => .ok [2])
      ⟨true, true, true⟩ [] [102] secretIntent encryptedStores.pair := by
  refine ⟨?_, ?_, fun h => ?_⟩
  · rw [encryptSecond_eq]
    dsimp only
    rw [Function.update_self]
  · have hne : secondKey ≠ digestCid.toString documentDigest := by
      intro he
      have hdigest := digestCid_toString_injective he
      revert hdigest
      decide
    have hdocs : encryptedStores.docs =
      Function.update (fun _ => none) (digestCid.toString documentDigest) (some [2, 4, 1]) := rfl
    rw [hdocs, Function.update_of_ne hne]
  · apply h.returns
    exact congrArg Prod.fst encryptSecond_eq

end TakenName

end EncryptionClient

end Fangorn
