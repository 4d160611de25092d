import Fangorn.Gadgets

/-! The gadget registry (`GadgetRegistry` in `gadget/mod.rs`): intents from an
intent string, and the check of a witness against a list of intents. -/

namespace Fangorn

open Rust Scale

/-- The gadget is skipped by the encodings: a decoded intent has none. -/
structure Intent where
  intentType : Str
  statement : Bytes
  gadget : Option Gadget

namespace Intent

def codec : Codec (Str × Bytes) := Codec.str.pair Codec.bytes

def detached (intent : Intent) : Intent := { intent with gadget := none }

def encodeVec (intents : List Intent) : Option Bytes :=
  codec.seq.encode (intents.map fun i => (i.intentType, i.statement))

/-- `Vec::<Intent>::decode`, which leaves bytes behind the list alone. -/
def decodeVec (b : Bytes) : Option (List Intent) :=
  (codec.seq.decode b).map fun p => p.1.map fun i => ⟨i.1, i.2, none⟩

theorem decodeVec_encodeVec {intents : List Intent} {e : Bytes}
    (h : encodeVec intents = some e) : decodeVec e = some (intents.map detached) := by
  rw [decodeVec, codec.seq.decode_encode h]
  simp [detached]

theorem encodeVec_isSome {intents : List Intent} : (encodeVec intents).isSome ↔
    intents.length < 2 ^ 32 ∧ ∀ intent ∈ intents,
      (asBytes intent.intentType).length < 2 ^ 32 ∧ intent.statement.length < 2 ^ 32 := by
  simp [encodeVec, codec, Codec.seq_encode_isSome]

end Intent

structure GadgetRegistry where
  gadgets : Str → Option Gadget

namespace GadgetRegistry

def new : GadgetRegistry := ⟨fun _ => none⟩

def register (r : GadgetRegistry) (gadget : Gadget) : GadgetRegistry :=
  ⟨Function.update r.gadgets gadget.intentTypeId (some gadget)⟩

def getGadget (r : GadgetRegistry) (intentType : Str) : Option Gadget := r.gadgets intentType

def deployed (P : Primitives) (chain : Chain) : GadgetRegistry :=
  ((new.register (PasswordGadget P)).register (Psp22Gadget P chain)).register
    (Sr25519Gadget P chain)

variable (r : GadgetRegistry)

def parseAll : List (Str × Str) → Checked (List Intent)
  | [] => .ok []
  | (intentTypeStr, data) :: pairs => do
    let gadget ← .okOr (.unknownIntentType intentTypeStr) (r.getGadget intentTypeStr)
    let statement ← gadget.parseIntentData data
    let intents ← parseAll pairs
    .ok (⟨intentTypeStr, statement, some gadget⟩ :: intents)

def parseIntents (input : Str) : Checked (List Intent) := do
  let parsedIntents ← (IntentParser.parseIntentString input).mapErr
    fun e => .parseError (.debug e)
  r.parseAll parsedIntents

def verifyIntent (intent : Intent) (witness : Bytes) : Checked Bool := do
  let gadget ← match intent.gadget with
    | some m => .ok m
    | none => .okOr (.unknownIntentType intent.intentType) (r.getGadget intent.intentType)
  gadget.verifyWitness witness intent.statement

/-- The loop over intents and witnesses: the first check that fails ends it. -/
def verifyEach : List (Intent × Bytes) → Checked Bool
  | [] => .ok true
  | (intent, witness) :: rest => do
    let valid ← r.verifyIntent intent witness
    if valid then verifyEach rest
    else .err (.verificationError (.text intent.intentType))

def decodeWitnesses (witness : Bytes) : Option (List Bytes) :=
  (Codec.bytes.seq.decode witness).map Prod.fst

def verifyIntents (intents : List Intent) (witness : Bytes) : Checked Bool := do
  let decodedWitnesses ← .expect (decodeWitnesses witness)
  Outcome.assert (decodedWitnesses.length = intents.length)
  r.verifyEach (intents.zip decodedWitnesses)

section Accepted

variable {r} {P : Primitives} {chain : Chain}

theorem getGadget_register (g : Gadget) (ty : Str) :
    (r.register g).getGadget ty = if ty = g.intentTypeId then some g else r.getGadget ty :=
  Function.update_apply ..

theorem deployed_password :
    (deployed P chain).getGadget "Password".toList = some (PasswordGadget P) := by
  simp only [deployed, getGadget_register]
  rfl

theorem deployed_psp22 :
    (deployed P chain).getGadget "Psp22".toList = some (Psp22Gadget P chain) := by
  simp only [deployed, getGadget_register]
  rfl

theorem deployed_sr25519 :
    (deployed P chain).getGadget "Sr25519".toList = some (Sr25519Gadget P chain) := by
  simp only [deployed, getGadget_register]
  rfl

theorem parseAll_eq_ok {pairs : List (Str × Str)} {intents : List Intent} :
    r.parseAll pairs = .ok intents ↔
      List.Forall₂ (fun pair intent => ∃ gadget statement, r.getGadget pair.1 = some gadget ∧
        gadget.parseIntentData pair.2 = .ok statement ∧
        intent = ⟨pair.1, statement, some gadget⟩) pairs intents := by
  induction pairs generalizing intents with
  | nil =>
    rw [List.forall₂_nil_left_iff, parseAll, Outcome.ok.injEq, eq_comm]
  | cons pair pairs ih =>
    obtain ⟨intentType, data⟩ := pair
    simp only [parseAll, Outcome.bind_eq_ok, Outcome.okOr_eq_ok, Outcome.ok.injEq,
      List.forall₂_cons_left_iff, ih]
    constructor
    · intro hh
      obtain ⟨g, hg, st, hst, rest, hrest, rfl⟩ := hh
      exact ⟨_, rest, ⟨g, st, hg, hst, rfl⟩, hrest, rfl⟩
    · intro hh
      obtain ⟨_, rest, ⟨g, st, hg, hst, rfl⟩, hrest, rfl⟩ := hh
      exact ⟨g, hg, st, hst, rest, hrest, rfl⟩

/-- An intent whose gadget, where it has one, is that of its type. -/
def Attached (r : GadgetRegistry) (intent : Intent) : Prop :=
  intent.gadget = none ∨ intent.gadget = r.getGadget intent.intentType

theorem parseIntents_attached {input : Str} {intents : List Intent}
    (h : r.parseIntents input = .ok intents) : ∀ intent ∈ intents, Attached r intent := by
  simp only [parseIntents, Outcome.bind_eq_ok] at h
  obtain ⟨pairs, -, hall⟩ := h
  rw [parseAll_eq_ok] at hall
  induction hall with
  | nil => simp
  | cons hpair _ ih =>
    obtain ⟨g, st, hg, -, rfl⟩ := hpair
    exact List.forall_mem_cons.mpr ⟨Or.inr hg.symm, ih⟩

theorem verifyIntent_detached {intent : Intent} (h : Attached r intent) (w : Bytes) :
    r.verifyIntent intent.detached w = r.verifyIntent intent w := by
  obtain ⟨ty, st, g⟩ := intent
  rcases h with rfl | hg
  · rfl
  · cases g with
    | none => rfl
    | some g => simp [verifyIntent, Intent.detached, Outcome.okOr, ← show some g = _ from hg]

theorem verifyEach_eq_true {pairs : List (Intent × Bytes)} :
    r.verifyEach pairs = .ok true ↔ ∀ p ∈ pairs, r.verifyIntent p.1 p.2 = .ok true := by
  induction pairs with
  | nil => simp [verifyEach]
  | cons p pairs ih =>
    obtain ⟨intent, w⟩ := p
    simp only [verifyEach, Outcome.bind_eq_ok, List.forall_mem_cons, ← ih]
    constructor
    · intro hh
      obtain ⟨valid, hv, h⟩ := hh
      cases valid with
      | true => exact ⟨hv, h⟩
      | false => simp at h
    · intro hh
      obtain ⟨hv, h⟩ := hh
      exact ⟨true, hv, h⟩

theorem verifyIntents_eq_true {intents : List Intent} {w : Bytes} :
    r.verifyIntents intents w = .ok true ↔ ∃ ws, decodeWitnesses w = some ws ∧
      List.Forall₂ (fun intent w => r.verifyIntent intent w = .ok true) intents ws := by
  simp only [verifyIntents, Outcome.bind_eq_ok, Outcome.expect_eq_ok, Outcome.assert_eq_ok,
    verifyEach_eq_true, List.forall₂_iff_zip]
  constructor
  · intro hh
    obtain ⟨ws, hws, _, hlen, h⟩ := hh
    exact ⟨ws, hws, hlen.symm, fun hmem => h _ hmem⟩
  · intro hh
    obtain ⟨ws, hws, hlen, h⟩ := hh
    exact ⟨ws, hws, (), hlen.symm, fun _ hmem => h hmem⟩

theorem verifyEach_detached {intents : List Intent} (h : ∀ intent ∈ intents, Attached r intent)
    (ws : List Bytes) :
    r.verifyEach ((intents.map Intent.detached).zip ws) = r.verifyEach (intents.zip ws) := by
  induction intents generalizing ws with
  | nil => rfl
  | cons intent intents ih =>
    cases ws with
    | nil => rfl
    | cons w ws =>
      rw [List.forall_mem_cons] at h
      simp only [List.map_cons, List.zip_cons_cons, verifyEach, verifyIntent_detached h.1,
        ih h.2]
      rfl

/-- Intents read back from their encoding are checked as the parsed ones. -/
theorem verifyIntents_detached {intents : List Intent}
    (h : ∀ intent ∈ intents, Attached r intent) (w : Bytes) :
    r.verifyIntents (intents.map Intent.detached) w = r.verifyIntents intents w := by
  simp only [verifyIntents, List.length_map, verifyEach_detached h]

theorem decodeWitnesses_lengths {blob : Bytes} {ws : List Bytes}
    (h : decodeWitnesses blob = some ws) : ws.length < 2 ^ 32 ∧ ∀ w ∈ ws, w.length < 2 ^ 32 := by
  obtain ⟨⟨_, rest⟩, hdec, rfl⟩ := Option.map_eq_some_iff.mp h
  obtain ⟨e, he, -⟩ := (Codec.bytes.seq.spec _ _ _).mp hdec
  have hsome := Codec.bytes.seq_encode_isSome.mp (Option.isSome_iff_exists.mpr ⟨e, he⟩)
  simpa only [Codec.bytes_encode_isSome] using hsome

theorem exists_decodeWitnesses {ws : List Bytes} (hlen : ws.length < 2 ^ 32)
    (hws : ∀ w ∈ ws, w.length < 2 ^ 32) : ∃ blob, decodeWitnesses blob = some ws := by
  have hsome : (Codec.bytes.seq.encode ws).isSome := by
    rw [Codec.seq_encode_isSome]
    exact ⟨hlen, fun w hw => Codec.bytes_encode_isSome.mpr (hws w hw)⟩
  obtain ⟨e, he⟩ := Option.isSome_iff_exists.mp hsome
  exact ⟨e, by rw [decodeWitnesses, Codec.decode_encode _ he]; rfl⟩

theorem accepted_at {intents : List Intent} {blob : Bytes} {i : Nat} {intent : Intent}
    (h : r.verifyIntents intents blob = .ok true) (hi : intents[i]? = some intent) :
    ∃ ws w, decodeWitnesses blob = some ws ∧ ws[i]? = some w ∧ w.length < 2 ^ 32 ∧
      r.verifyIntent intent w = .ok true := by
  obtain ⟨ws, hws, hall⟩ := verifyIntents_eq_true.mp h
  obtain ⟨hlt, hget⟩ := List.getElem?_eq_some_iff.mp hi
  have hlt' : i < ws.length := hall.length_eq ▸ hlt
  have hv := hall.get hlt hlt'
  simp only [List.get_eq_getElem, hget] at hv
  exact ⟨ws, ws[i], hws, List.getElem?_eq_getElem hlt',
    (decodeWitnesses_lengths hws).2 _ (List.getElem_mem hlt'), hv⟩

theorem exists_accepted {intents : List Intent} (hlen : intents.length < 2 ^ 32)
    (f : Nat → Bytes) (hf : ∀ k intent, intents[k]? = some intent →
      (f k).length < 2 ^ 32 ∧ r.verifyIntent intent (f k) = .ok true) :
    ∃ blob, decodeWitnesses blob = some ((List.range intents.length).map f) ∧
      r.verifyIntents intents blob = .ok true := by
  have hsize : ∀ w ∈ (List.range intents.length).map f, w.length < 2 ^ 32 := by
    intro w hw
    obtain ⟨k, hk, rfl⟩ := List.mem_map.mp hw
    have hlt := List.mem_range.mp hk
    exact (hf k _ (List.getElem?_eq_getElem hlt)).1
  obtain ⟨blob, hblob⟩ := exists_decodeWitnesses (by simpa using hlen) hsize
  refine ⟨blob, hblob, verifyIntents_eq_true.mpr ⟨_, hblob, ?_⟩⟩
  rw [List.forall₂_iff_get]
  refine ⟨by simp, fun k hk hk' => ?_⟩
  have hv := (hf k _ (List.getElem?_eq_getElem hk)).2
  simpa using hv

/-- The checks run until the first that does not accept: each that is reached
must not panic. -/
theorem verifyEach_ne_panic {pairs : List (Intent × Bytes)} :
    r.verifyEach pairs ≠ .panic ↔ ∀ pre intent w post, pairs = pre ++ (intent, w) :: post →
      (∀ q ∈ pre, r.verifyIntent q.1 q.2 = .ok true) → r.verifyIntent intent w ≠ .panic := by
  induction pairs with
  | nil => simp [verifyEach]
  | cons p pairs ih =>
    obtain ⟨intent, w⟩ := p
    rw [verifyEach, Outcome.bind_ne_panic]
    constructor
    · intro h pre intent' w' post he hpre
      cases pre with
      | nil =>
        obtain ⟨hp, -⟩ := List.cons.inj he
        obtain ⟨rfl, rfl⟩ := Prod.mk.inj hp
        exact h.1
      | cons q pre =>
        obtain ⟨rfl, rfl⟩ := List.cons.inj he
        rw [List.forall_mem_cons] at hpre
        exact ih.mp (h.2 true hpre.1) pre intent' w' post rfl hpre.2
    · intro h
      refine ⟨h [] intent w pairs rfl (by simp), fun valid hv => ?_⟩
      cases valid with
      | false => simp
      | true =>
        refine ih.mpr fun pre intent' w' post he hpre => ?_
        refine h ((intent, w) :: pre) intent' w' post (by rw [he]; rfl) ?_
        exact List.forall_mem_cons.mpr ⟨hv, hpre⟩

theorem verifyIntents_ne_panic {intents : List Intent} {blob : Bytes} :
    r.verifyIntents intents blob ≠ .panic ↔ ∃ ws, decodeWitnesses blob = some ws ∧
      ws.length = intents.length ∧ r.verifyEach (intents.zip ws) ≠ .panic := by
  simp only [verifyIntents, Outcome.expect_bind_ne_panic, Outcome.assert_bind_ne_panic]

/-- A witness whose check ends, in one way or the other: the two chain gadgets
unwrap the text, the signature and the account that they read from it. -/
structure Harmless (P : Primitives) (chain : Chain) (intent : Intent) (w : Bytes) : Prop where
  psp22 : intent.intentType = "Psp22".toList → ∃ s, w = asBytes s
  sr25519 : intent.intentType = "Sr25519".toList → w.length = 176 →
    ∃ s sig nonce, w.take 48 = asBytes s ∧ Hex.decode (w.drop 48) = some sig ∧
      chain.account (decodePublicKey P s) = .ok (some nonce)

theorem verifyIntent_ne_panic {intent : Intent} (h : (deployed P chain).Attached intent)
    (w : Bytes) :
    (deployed P chain).verifyIntent intent w ≠ .panic ↔ Harmless P chain intent w := by
  rw [← verifyIntent_detached h]
  obtain ⟨ty, statement, g⟩ := intent
  have hverify (gadget : Gadget) (hg : (deployed P chain).getGadget ty = some gadget) :
      (deployed P chain).verifyIntent (Intent.detached ⟨ty, statement, g⟩) w =
        gadget.verifyWitness w statement := by
    simp [verifyIntent, Intent.detached, Outcome.okOr, hg]
  by_cases hpsp : ty = "Psp22".toList
  · rw [hverify _ (hpsp ▸ deployed_psp22)]
    have hne : ty ≠ "Sr25519".toList := by
      rw [hpsp]
      decide
    exact (psp22_ne_panic_iff P chain).trans
      ⟨fun hs => ⟨fun _ => hs, fun he => absurd he hne⟩, fun hh => hh.psp22 hpsp⟩
  · by_cases hsr : ty = "Sr25519".toList
    · rw [hverify _ (hsr ▸ deployed_sr25519)]
      exact (sr25519_ne_panic_iff P chain).trans
        ⟨fun hs => ⟨fun he => absurd he hpsp, fun _ => hs⟩, fun hh => hh.sr25519 hsr⟩
    · have hharmless : Harmless P chain ⟨ty, statement, g⟩ w :=
        ⟨fun he => absurd he hpsp, fun he => absurd he hsr⟩
      refine ⟨fun _ => hharmless, fun _ => ?_⟩
      by_cases hpw : ty = "Password".toList
      · rw [hverify _ (hpw ▸ deployed_password)]
        intro he
        cases he
      · have hnone : (deployed P chain).getGadget ty = none := by
          simp only [deployed, getGadget_register]
          exact (if_neg hsr).trans ((if_neg hpsp).trans (if_neg hpw))
        simp [verifyIntent, Intent.detached, hnone, Outcome.okOr]

end Accepted

end GadgetRegistry

end Fangorn
