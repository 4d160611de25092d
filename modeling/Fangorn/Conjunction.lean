import Fangorn.PasswordAccess

/-! A list of intents as a conjunction (`verify_intents` in `gadget/mod.rs`):
what the check accepts, on parsed and on stored intents, and in any order. -/

namespace Fangorn

open Rust Scale

namespace GadgetRegistry

/-- The lists of intents that the check is called with. -/
inductive Sourced (r : GadgetRegistry) (intents : List Intent) : Prop where
  | parsed (input : Str) (h : r.parseIntents input = .ok intents)
  | stored (b : Bytes) (h : Intent.decodeVec b = some intents)

/-- The bytes start with the encoding of the witnesses. -/
def StartsWith (blob : Bytes) (ws : List Bytes) : Prop :=
  ∃ e, Codec.bytes.seq.encode ws = some e ∧ e <+: blob

/-- The gadget registered for the type of the intent accepts the witness. -/
def Accepts (r : GadgetRegistry) (intent : Intent) (w : Bytes) : Prop :=
  ∃ gadget, r.getGadget intent.intentType = some gadget ∧
    gadget.verifyWitness w intent.statement = .ok true

variable {r : GadgetRegistry} {intents : List Intent}

theorem decodeVec_attached {b : Bytes} (h : Intent.decodeVec b = some intents) :
    ∀ intent ∈ intents, Attached r intent := by
  obtain ⟨p, -, rfl⟩ := Option.map_eq_some_iff.mp h
  intro intent hmem
  obtain ⟨i, -, rfl⟩ := List.mem_map.mp hmem
  exact Or.inl rfl

theorem Sourced.attached (h : Sourced r intents) : ∀ intent ∈ intents, Attached r intent := by
  cases h with
  | parsed input h => exact parseIntents_attached h
  | stored b h => exact decodeVec_attached h

theorem startsWith_iff {blob : Bytes} {ws : List Bytes} :
    StartsWith blob ws ↔ decodeWitnesses blob = some ws := by
  unfold decodeWitnesses
  constructor
  · intro h
    obtain ⟨e, he, rest, rfl⟩ := h
    rw [Codec.bytes.seq.decode_append he]
    rfl
  · intro h
    obtain ⟨⟨_, rest⟩, hdec, rfl⟩ := Option.map_eq_some_iff.mp h
    obtain ⟨e, he, rfl⟩ := (Codec.bytes.seq.spec _ _ _).mp hdec
    exact ⟨e, he, rest, rfl⟩

theorem accepts_iff {intent : Intent} (h : Attached r intent) (w : Bytes) :
    Accepts r intent w ↔ r.verifyIntent intent w = .ok true := by
  rw [← verifyIntent_detached h]
  simp only [Accepts, verifyIntent, Intent.detached, Outcome.bind_eq_ok, Outcome.okOr_eq_ok]

theorem verifyIntents_iff (h : ∀ intent ∈ intents, Attached r intent) (blob : Bytes) :
    r.verifyIntents intents blob = .ok true ↔
      ∃ ws, StartsWith blob ws ∧ List.Forall₂ (Accepts r) intents ws := by
  have hall (ws : List Bytes) : List.Forall₂ (Accepts r) intents ws ↔
      List.Forall₂ (fun intent w => r.verifyIntent intent w = .ok true) intents ws := by
    induction intents generalizing ws with
    | nil => simp
    | cons intent intents ih =>
      rw [List.forall_mem_cons] at h
      simp only [List.forall₂_cons_left_iff, accepts_iff h.1, ih h.2]
  simp only [verifyIntents_eq_true, startsWith_iff, hall]

/-- On a blob of as many witnesses the check is one check for each pair. -/
theorem verifyIntents_pairs {pairs : List (Intent × Bytes)} {blob : Bytes}
    (h : StartsWith blob (pairs.map Prod.snd)) :
    r.verifyIntents (pairs.map Prod.fst) blob = .ok true ↔
      ∀ p ∈ pairs, r.verifyIntent p.1 p.2 = .ok true := by
  rw [verifyIntents, startsWith_iff.mp h]
  have hzip : (pairs.map Prod.fst).zip (pairs.map Prod.snd) = pairs :=
    (List.zip_of_prod rfl rfl).symm
  simp [Outcome.expect, Outcome.assert, hzip, verifyEach_eq_true]

theorem StartsWith.perm {ws ws' : List Bytes} {blob : Bytes} (h : StartsWith blob ws)
    (hperm : ws.Perm ws') : ∃ e, Codec.bytes.seq.encode ws' = some e := by
  obtain ⟨e, he, -⟩ := h
  have hsome := Codec.bytes.seq_encode_isSome.mp (Option.isSome_iff_exists.mpr ⟨e, he⟩)
  apply Option.isSome_iff_exists.mp
  rw [Codec.seq_encode_isSome]
  exact ⟨hperm.length_eq ▸ hsome.1, fun w hw => hsome.2 w (hperm.mem_iff.mpr hw)⟩

/-- A conjunction is accepted when every conjunct is, whether its intents come
from the parser or from their own encoding, and in every order. -/
theorem conjunction_accepted (h : Sourced r intents) :
    (∀ blob, r.verifyIntents intents blob = .ok true ↔
      ∃ ws, StartsWith blob ws ∧ List.Forall₂ (Accepts r) intents ws) ∧
    (∀ e, Intent.encodeVec intents = some e → ∃ image, Intent.decodeVec e = some image ∧
      ∀ blob, r.verifyIntents image blob = .ok true ↔ r.verifyIntents intents blob = .ok true) ∧
    (∀ ws pairs blob, ws.length = intents.length → (intents.zip ws).Perm pairs →
      StartsWith blob ws → (∃ e, Codec.bytes.seq.encode (pairs.map Prod.snd) = some e) ∧
        ∀ blob', StartsWith blob' (pairs.map Prod.snd) →
          (r.verifyIntents (pairs.map Prod.fst) blob' = .ok true ↔
            r.verifyIntents intents blob = .ok true)) := by
  refine ⟨verifyIntents_iff h.attached, fun e he => ?_, ?_⟩
  · refine ⟨_, Intent.decodeVec_encodeVec he, fun blob => ?_⟩
    rw [verifyIntents_detached h.attached]
  · intro ws pairs blob hlen hperm hblob
    have hfst : (intents.zip ws).map Prod.fst = intents := List.map_fst_zip hlen.ge
    have hsnd : (intents.zip ws).map Prod.snd = ws := List.map_snd_zip hlen.le
    have hws : ws.Perm (pairs.map Prod.snd) := hsnd ▸ hperm.map Prod.snd
    refine ⟨hblob.perm hws, fun blob' hblob' => ?_⟩
    have hall : r.verifyIntents intents blob = .ok true ↔
        ∀ p ∈ intents.zip ws, r.verifyIntent p.1 p.2 = .ok true := by
      have := verifyIntents_pairs (r := r) (hsnd.symm ▸ hblob)
      rwa [hfst] at this
    rw [verifyIntents_pairs hblob', hall]
    exact ⟨fun hp p hmem => hp p (hperm.mem_iff.mp hmem),
      fun hp p hmem => hp p (hperm.mem_iff.mpr hmem)⟩

def twoPasswords : Str := "Password(secret) && Password(a,b)".toList

def passwordOf (p : Str) : Intent :=
  ⟨"Password".toList, (PasswordAccess.sha256Sample (asBytes p)).1,
    some (PasswordGadget PasswordAccess.samplePrimitives)⟩

theorem parseIntents_twoPasswords : PasswordAccess.sampleRegistry.parseIntents twoPasswords =
    .ok [passwordOf "secret".toList, passwordOf "a,b".toList] := by
  have hg : PasswordAccess.sampleRegistry.getGadget "Password".toList =
      some (PasswordGadget PasswordAccess.samplePrimitives) := deployed_password
  have hpairs : IntentParser.parseIntentString twoPasswords =
      .ok [("Password".toList, "secret".toList), ("Password".toList, "a,b".toList)] := by decide
  rw [parseIntents, hpairs]
  exact parseAll_eq_ok.mpr (.cons ⟨_, _, hg, rfl, rfl⟩ (.cons ⟨_, _, hg, rfl, rfl⟩ .nil))

theorem accepts_passwordOf (p : Str) :
    Accepts PasswordAccess.sampleRegistry (passwordOf p) (asBytes p) :=
  ⟨_, deployed_password, congrArg Outcome.ok (decide_eq_true rfl)⟩

theorem conjunction_accepted_twoPasswords : ∃ blob blob',
    StartsWith blob [asBytes "secret".toList, asBytes "a,b".toList] ∧
    StartsWith blob' [asBytes "a,b".toList, asBytes "secret".toList] ∧
    PasswordAccess.sampleRegistry.verifyIntents
      [passwordOf "secret".toList, passwordOf "a,b".toList] blob = .ok true ∧
    PasswordAccess.sampleRegistry.verifyIntents
      [passwordOf "a,b".toList, passwordOf "secret".toList] blob' = .ok true := by
  obtain ⟨blob, hblob⟩ : ∃ blob, decodeWitnesses blob =
      some [asBytes "secret".toList, asBytes "a,b".toList] :=
    exists_decodeWitnesses (by simp) (by decide)
  obtain ⟨blob', hblob'⟩ : ∃ blob, decodeWitnesses blob =
      some [asBytes "a,b".toList, asBytes "secret".toList] :=
    exists_decodeWitnesses (by simp) (by decide)
  rw [← startsWith_iff] at hblob hblob'
  have hconj := conjunction_accepted (Sourced.parsed twoPasswords parseIntents_twoPasswords)
  have haccept := (hconj.1 blob).mpr
    ⟨_, hblob, .cons (accepts_passwordOf _) (.cons (accepts_passwordOf _) .nil)⟩
  have hswap := (hconj.2.2 [asBytes "secret".toList, asBytes "a,b".toList]
    [(passwordOf "a,b".toList, asBytes "a,b".toList),
      (passwordOf "secret".toList, asBytes "secret".toList)] blob rfl (.swap _ _ _) hblob).2
    blob' hblob'
  exact ⟨blob, blob', hblob, hblob', haccept, hswap.mpr haccept⟩

end GadgetRegistry

end Fangorn
