import Fangorn.WitnessEncoding

/-! A password from the intent string to the accepted witness. -/

namespace Fangorn

open Rust Scale IntentParser

namespace PasswordAccess

def passwordIntent (p : Str) : Str := renderPart ("Password".toList, p)

/-- The witness argument passes the check against the intents as the registry
returns them after their registration. -/
def Opens (r : GadgetRegistry) (intents : List Intent) (w : Str) : Prop :=
  ∃ e registered blob, Intent.encodeVec intents = some e ∧
    Intent.decodeVec e = some registered ∧ witnessBlob w = some blob ∧
    r.verifyIntents registered blob = .ok true

variable {r : GadgetRegistry} {P : Primitives} {intents : List Intent} {p w : Str}

theorem opens_iff (hatt : ∀ intent ∈ intents, r.Attached intent) :
    Opens r intents w ↔ (Intent.encodeVec intents).isSome ∧ (witnessBlob w).isSome ∧
      List.Forall₂ (fun intent x => r.verifyIntent intent (asBytes x) = .ok true)
        intents (parseWitnesses w) := by
  simp only [Option.isSome_iff_exists]
  constructor
  · intro hh
    obtain ⟨e, registered, blob, he, hreg, hblob, hv⟩ := hh
    rw [Intent.decodeVec_encodeVec he, Option.some.injEq] at hreg
    rw [← hreg, GadgetRegistry.verifyIntents_detached hatt,
      GadgetRegistry.verifyIntents_eq_true] at hv
    obtain ⟨ws, hws, hall⟩ := hv
    rw [decodeWitnesses_blob hblob, Option.some.injEq] at hws
    rw [← hws, List.forall₂_map_right_iff] at hall
    exact ⟨⟨e, he⟩, ⟨blob, hblob⟩, hall⟩
  · intro hh
    obtain ⟨⟨e, he⟩, ⟨blob, hblob⟩, hall⟩ := hh
    refine ⟨e, _, blob, he, Intent.decodeVec_encodeVec he, hblob, ?_⟩
    rw [GadgetRegistry.verifyIntents_detached hatt, GadgetRegistry.verifyIntents_eq_true]
    exact ⟨_, decodeWitnesses_blob hblob, List.forall₂_map_right_iff.mpr hall⟩

theorem trim_passwordIntent (p : Str) : trim (passwordIntent p) = passwordIntent p := by
  have hhead : "Password".toList.head? = some 'P' := by decide
  apply trim_renderPart
  rw [hhead]
  intro c hc
  cases hc
  decide

theorem forall₂_comp {α β γ : Type} {R : α → β → Prop} {S : β → γ → Prop} {T : α → γ → Prop}
    (h : ∀ a b c, R a b → S b c → T a c) {l₁ : List α} {l₂ : List β} {l₃ : List γ}
    (h₁ : List.Forall₂ R l₁ l₂) (h₂ : List.Forall₂ S l₂ l₃) : List.Forall₂ T l₁ l₃ := by
  induction h₁ generalizing l₃ with
  | nil =>
    cases h₂
    exact .nil
  | cons hr _ ih =>
    cases h₂ with
    | cons hs h₂ => exact .cons (h _ _ _ hr hs) (ih h₂)

theorem verifyIntent_password (hpw : r.getGadget "Password".toList = some (PasswordGadget P))
    {d x : Str} {gadget : Gadget} {statement : Bytes}
    (hg : r.getGadget "Password".toList = some gadget)
    (hst : gadget.parseIntentData d = .ok statement) :
    r.verifyIntent ⟨"Password".toList, statement, some gadget⟩ (asBytes x) = .ok true ↔
      P.sha256 (asBytes x) = P.sha256 (asBytes d) := by
  obtain rfl : PasswordGadget P = gadget := Option.some.inj (hpw.symm.trans hg)
  obtain rfl : (P.sha256 (asBytes d)).1 = statement := Outcome.ok.inj hst
  change Outcome.ok (decide ((P.sha256 (asBytes x)).1 = (P.sha256 (asBytes d)).1)) = .ok true ↔ _
  rw [Outcome.ok.injEq, decide_eq_true_eq, Subtype.ext_iff]

/-- No field of the argument has the hash of another password in the intent. -/
def NoCollision (P : Primitives) (p w : Str) : Prop :=
  ∀ part ∈ split delimiter (passwordIntent p), ∀ d, trim part = passwordIntent d →
    ∀ x ∈ parseWitnesses w, P.sha256 (asBytes x) = P.sha256 (asBytes d) → x = d

theorem fields_of_opens (hpw : r.getGadget "Password".toList = some (PasswordGadget P))
    (hparse : r.parseIntents (passwordIntent p) = .ok intents)
    (hclose : ∀ part ∈ split delimiter (passwordIntent p), ClosesAtEnd (trim part))
    (hcoll : NoCollision P p w) (h : Opens r intents w) :
    List.Forall₂ (fun part x => ∀ d, trim part = passwordIntent d → x = d)
      (split delimiter (passwordIntent p)) (parseWitnesses w) := by
  have hatt := GadgetRegistry.parseIntents_attached hparse
  obtain ⟨-, -, hfields⟩ := (opens_iff hatt).mp h
  simp only [GadgetRegistry.parseIntents, Outcome.bind_eq_ok, Outcome.mapErr_eq_ok] at hparse
  obtain ⟨pairs, hpairs, hall⟩ := hparse
  have hrender := parse_renders hpairs ((faithful_iff_closesAtEnd hpairs).mpr hclose)
  rw [GadgetRegistry.parseAll_eq_ok] at hall
  -- a password part stands for an intent of the password gadget
  have hintent : List.Forall₂ (fun part intent => ∀ d, trim part = passwordIntent d →
      ∃ gadget statement, r.getGadget "Password".toList = some gadget ∧
        gadget.parseIntentData d = .ok statement ∧
        intent = ⟨"Password".toList, statement, some gadget⟩)
      (split delimiter (passwordIntent p)) intents := by
    refine forall₂_comp ?_ hrender hall
    rintro part ⟨ty, data⟩ intent ⟨hty, hpart⟩ ⟨gadget, statement, hg, hst, hi⟩ d hd
    obtain ⟨rfl, rfl⟩ := renderPart_inj hty (by decide) (hpart.symm.trans hd)
    exact ⟨gadget, statement, hg, hst, hi⟩
  have hhash : List.Forall₂ (fun part x => ∀ d, trim part = passwordIntent d →
      P.sha256 (asBytes x) = P.sha256 (asBytes d))
      (split delimiter (passwordIntent p)) (parseWitnesses w) := by
    refine forall₂_comp ?_ hintent hfields
    rintro part intent x hi hx d hd
    obtain ⟨gadget, statement, hg, hst, rfl⟩ := hi d hd
    exact (verifyIntent_password hpw hg hst).mp hx
  rw [List.forall₂_iff_zip] at hhash ⊢
  refine ⟨hhash.1, fun {part x} hmem d hd => ?_⟩
  obtain ⟨hpart, hx⟩ := List.of_mem_zip hmem
  exact hcoll part hpart d hd x hx (hhash.2 hmem d hd)

theorem trim_of_opens (hpw : r.getGadget "Password".toList = some (PasswordGadget P))
    (hparse : r.parseIntents (passwordIntent p) = .ok intents)
    (hclose : ∀ part ∈ split delimiter (passwordIntent p), ClosesAtEnd (trim part))
    (hcoll : NoCollision P p w) (hp : ¬ delimiter <:+: p) (h : Opens r intents w) :
    trim w = p ∧ ',' ∉ p := by
  have hfields := fields_of_opens hpw hparse hclose hcoll h
  have htrim := trim_passwordIntent p
  rw [passwordIntent, split_renderPart (by decide) hp] at hfields
  cases hw : parseWitnesses w with
  | nil => simp [hw] at hfields
  | cons x xs =>
    rw [hw, List.forall₂_cons, List.forall₂_nil_left_iff] at hfields
    obtain ⟨hx, rfl⟩ := hfields
    obtain rfl : x = p := hx p htrim
    exact parseWitnesses_eq_singleton.mp hw

theorem password_intents (hpw : r.getGadget "Password".toList = some (PasswordGadget P))
    (hparse : r.parseIntents (passwordIntent p) = .ok intents)
    (hclose : ∀ part ∈ split delimiter (passwordIntent p), ClosesAtEnd (trim part))
    (hp : ¬ delimiter <:+: p) :
    intents = [⟨"Password".toList, (P.sha256 (asBytes p)).1, some (PasswordGadget P)⟩] := by
  simp only [GadgetRegistry.parseIntents, Outcome.bind_eq_ok, Outcome.mapErr_eq_ok] at hparse
  obtain ⟨pairs, hpairs, hall⟩ := hparse
  have hrender := parse_renders hpairs ((faithful_iff_closesAtEnd hpairs).mpr hclose)
  have htrim := trim_passwordIntent p
  rw [passwordIntent, split_renderPart (by decide) hp, List.forall₂_cons_left_iff] at hrender
  obtain ⟨⟨ty, data⟩, _, ⟨hty, hpart⟩, hnil, rfl⟩ := hrender
  obtain rfl := List.forall₂_nil_left_iff.mp hnil
  obtain ⟨rfl, rfl⟩ := renderPart_inj hty (by decide) (hpart.symm.trans htrim)
  rw [GadgetRegistry.parseAll_eq_ok, List.forall₂_cons_left_iff] at hall
  obtain ⟨_, _, ⟨gadget, statement, hg, hst, rfl⟩, hnil, rfl⟩ := hall
  obtain rfl := List.forall₂_nil_left_iff.mp hnil
  obtain rfl : PasswordGadget P = gadget := Option.some.inj (hpw.symm.trans hg)
  obtain rfl : (P.sha256 (asBytes data)).1 = statement := Outcome.ok.inj hst
  rfl

/-- Within the grammar a password is a comma separated field. A password that
is one such field is the only one that opens its file; one with a comma or with
surrounding white space opens nothing. -/
theorem password_access (hpw : r.getGadget "Password".toList = some (PasswordGadget P))
    (hparse : r.parseIntents (passwordIntent p) = .ok intents)
    (hclose : ∀ part ∈ split delimiter (passwordIntent p), ClosesAtEnd (trim part))
    (hw : NoCollision P p w) (hp : NoCollision P p p) :
    (Opens r intents w → List.Forall₂ (fun part x => ∀ d, trim part = passwordIntent d → x = d)
      (split delimiter (passwordIntent p)) (parseWitnesses w)) ∧
    (¬ delimiter <:+: p → (Opens r intents w → trim w = p) ∧
      (Opens r intents p ↔ ',' ∉ p ∧ trim p = p ∧ (asBytes p).length < 2 ^ 32)) := by
  refine ⟨fields_of_opens hpw hparse hclose hw, fun hdel => ⟨fun h =>
    (trim_of_opens hpw hparse hclose hw hdel h).1, fun h => ?_, ?_⟩⟩
  · obtain ⟨htrim, hcomma⟩ := trim_of_opens hpw hparse hclose hp hdel h
    have hatt := GadgetRegistry.parseIntents_attached hparse
    have hsize := (witnessBlob_isSome.mp ((opens_iff hatt).mp h).2.1).2
    have hfields := parseWitnesses_eq_singleton.mpr ⟨htrim, hcomma⟩
    exact ⟨hcomma, htrim, hsize p (by simp [hfields])⟩
  · intro hh
    obtain ⟨hcomma, htrim, hsize⟩ := hh
    have hatt := GadgetRegistry.parseIntents_attached hparse
    have hfields := parseWitnesses_eq_singleton.mpr ⟨htrim, hcomma⟩
    have hi := password_intents hpw hparse hclose hdel
    rw [opens_iff hatt, witnessBlob_isSome, hfields, hi]
    refine ⟨?_, by simpa using hsize, .cons ?_ .nil⟩
    · rw [Intent.encodeVec_isSome, List.forall_mem_singleton, (P.sha256 _).2]
      have hty : (asBytes "Password".toList).length < 2 ^ 32 := by decide
      exact ⟨by simp, hty, by decide⟩
    · exact (verifyIntent_password hpw hpw rfl).mpr rfl

/-- SHA-256 on the passwords used below. -/
def sha256Sample (b : Bytes) : Arr 32 :=
  if b = asBytes "secret".toList then
    beArr 32 0x2bb80d537b1da3e38bd30361aa855686bde0eacd7162fef6a25fe97bf527a25b
  else if b = asBytes "a,b".toList then
    beArr 32 0x1eb7c54d52831bbfe8942af0b1c56b7409523a59ed6ca99c1174fef7eb32c1b5
  else beArr 32 0

def samplePrimitives : Primitives where
  sha256 := sha256Sample
  blake2 _ := beArr 32 0
  fromSs58check _ := none
  sr25519Verify _ _ _ := false

def sampleRegistry : GadgetRegistry :=
  .deployed samplePrimitives ⟨fun _ _ => .error [], fun _ => .ok none⟩

def passwordIntents (p : Str) : List Intent :=
  [⟨"Password".toList, (sha256Sample (asBytes p)).1, some (PasswordGadget samplePrimitives)⟩]

theorem parseIntents_sample {s p : Str}
    (h : parseIntentString s = .ok [("Password".toList, p)]) :
    sampleRegistry.parseIntents s = .ok (passwordIntents p) := by
  have hg : sampleRegistry.getGadget "Password".toList = some (PasswordGadget samplePrimitives) :=
    GadgetRegistry.deployed_password
  simp only [GadgetRegistry.parseIntents, h, Outcome.mapErr, Outcome.ok_bind]
  rw [GadgetRegistry.parseAll_eq_ok, passwordIntents, List.forall₂_cons]
  exact ⟨⟨_, _, hg, rfl, rfl⟩, .nil⟩

/-- The file locked under `a,b` does not open with `a,b`. -/
theorem comma_password_locked :
    sampleRegistry.parseIntents "Password(a,b)".toList = .ok (passwordIntents "a,b".toList) ∧
      ¬ Opens sampleRegistry (passwordIntents "a,b".toList) "a,b".toList := by
  have hparse : sampleRegistry.parseIntents "Password(a,b)".toList =
    .ok (passwordIntents "a,b".toList) := parseIntents_sample (by decide)
  refine ⟨hparse, fun h => ?_⟩
  have hfields := ((opens_iff (GadgetRegistry.parseIntents_attached hparse)).mp h).2.2
  exact absurd hfields.length_eq (by decide)

theorem password_access_secret :
    (Opens sampleRegistry (passwordIntents "secret".toList) " secret".toList →
      trim " secret".toList = "secret".toList) ∧
    Opens sampleRegistry (passwordIntents "secret".toList) "secret".toList := by
  have hpart : ∀ part ∈ split delimiter (passwordIntent "secret".toList),
      part = passwordIntent "secret".toList := by decide
  have htrim := trim_passwordIntent "secret".toList
  have hcoll (w : Str) (hw : parseWitnesses w = ["secret".toList]) :
      NoCollision samplePrimitives "secret".toList w := by
    intro part hmem d hd x hx _
    rw [hpart part hmem, htrim] at hd
    rw [hw, List.mem_singleton] at hx
    exact hx.trans (renderPart_inj (by decide) (by decide) hd).2
  have hbal : Nesting.Balanced '(' ')' "secret".toList :=
    ((Nesting.firstClose_one (l := "secret)".toList) (r := []) (by decide)).mp (by decide)).2
  have hparse : sampleRegistry.parseIntents (passwordIntent "secret".toList) =
    .ok (passwordIntents "secret".toList) := parseIntents_sample (by decide)
  have hclose : ∀ part ∈ split delimiter (passwordIntent "secret".toList),
      ClosesAtEnd (trim part) := by
    intro part hmem
    rw [hpart part hmem, htrim]
    exact closesAtEnd_renderPart (by decide) hbal
  obtain ⟨-, h⟩ := password_access GadgetRegistry.deployed_password hparse hclose
    (hcoll " secret".toList (by decide)) (hcoll "secret".toList (by decide))
  obtain ⟨htrims, hopens⟩ := h (by decide)
  exact ⟨htrims, hopens.mpr ⟨by decide, by decide, by decide⟩⟩

end PasswordAccess

end Fangorn
