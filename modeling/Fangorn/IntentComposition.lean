import Fangorn.PasswordAccess
import Fangorn.Lib.Splitting

/-! Intent strings put together with `&&`, and witness arguments with a comma:
what a composed file opens with (`gadget/mod.rs`, `crypto/cipher.rs`). -/

namespace Fangorn

open Rust Scale IntentParser PasswordAccess

/-- Two intent strings as one, the way the menus and the documentation write it. -/
def conjoin (s t : Str) : Str := s ++ " && ".toList ++ t

namespace IntentParser

theorem parsePart_trim (part : Str) : parsePart (trim part) = parsePart part := by
  simp only [parsePart, trim_trim]

theorem parseParts_congr {parts parts' : List Str} (h : parts.map trim = parts'.map trim) :
    parseParts parts = parseParts parts' := by
  induction parts generalizing parts' with
  | nil =>
    obtain rfl : parts' = [] := by simpa using h.symm
    rfl
  | cons part parts ih =>
    obtain ⟨part', parts', rfl⟩ : ∃ p ps, parts' = p :: ps := by
      cases parts' with
      | nil => simp at h
      | cons p ps => exact ⟨p, ps, rfl⟩
    rw [List.map_cons, List.map_cons, List.cons.injEq] at h
    rw [parseParts, parseParts, ← parsePart_trim part, h.1, parsePart_trim, ih h.2]

theorem parseParts_append (parts parts' : List Str) :
    parseParts (parts ++ parts') =
      (do let pairs ← parseParts parts
          let pairs' ← parseParts parts'
          .ok (pairs ++ pairs')) := by
  induction parts with
  | nil => cases h : parseParts parts' <;> simp [parseParts, h]
  | cons part parts ih =>
    rw [List.cons_append, parseParts, parseParts, ih]
    cases parsePart part with
    | err e => rfl
    | panic => rfl
    | ok pair =>
      cases parseParts parts with
      | err e => rfl
      | panic => rfl
      | ok pairs => cases parseParts parts' <;> rfl

theorem delimiter_solid : ∀ c ∈ delimiter, isWhitespace c = false := by
  simp only [delimiter, List.forall_mem_cons]
  exact ⟨rfl, rfl, nofun⟩

/-- Composed texts are read one after the other, also where one is refused. -/
theorem parse_conjoin (s t : Str) :
    parseIntentString (conjoin s t) =
      (do let pairs ← parseIntentString s
          let pairs' ← parseIntentString t
          .ok (pairs ++ pairs')) := by
  have hne : delimiter ≠ [] := List.cons_ne_nil _ _
  have htext : conjoin s t = s ++ ' ' :: (delimiter ++ (' ' :: t)) := by
    simp [conjoin, delimiter]
  have hwhite : ∀ c ∈ [' '], isWhitespace c = true := List.forall_mem_singleton.mpr rfl
  have hs := parseParts_congr (split_append_white hne delimiter_solid hwhite s)
  have ht := parseParts_congr (split_white_append hne delimiter_solid hwhite t)
  rw [parseIntentString, htext, split_boundary hne (by decide), parseParts_append, hs]
  exact congrArg _ (funext fun pairs => by rw [← List.singleton_append, ht]; rfl)

end IntentParser

namespace GadgetRegistry

variable {r : GadgetRegistry} {s t : Str} {intents : List Intent}

theorem parseIntents_eq_ok : r.parseIntents s = .ok intents ↔
    ∃ pairs, parseIntentString s = .ok pairs ∧ r.parseAll pairs = .ok intents := by
  simp only [parseIntents, Outcome.bind_eq_ok, Outcome.mapErr_eq_ok]

theorem parseAll_append {pairs pairs' : List (Str × Str)} :
    r.parseAll (pairs ++ pairs') = .ok intents ↔ ∃ is is', r.parseAll pairs = .ok is ∧
      r.parseAll pairs' = .ok is' ∧ intents = is ++ is' := by
  simp only [parseAll_eq_ok]
  constructor
  · intro h
    exact ⟨intents.take pairs.length, intents.drop pairs.length,
      (List.forall₂_take_append _ _ _ h.flip).flip, (List.forall₂_drop_append _ _ _ h.flip).flip,
      (List.take_append_drop _ _).symm⟩
  · intro h
    obtain ⟨is, is', his, his', rfl⟩ := h
    exact List.rel_append his his'

theorem parseIntents_conjoin : r.parseIntents (conjoin s t) = .ok intents ↔
    ∃ is is', r.parseIntents s = .ok is ∧ r.parseIntents t = .ok is' ∧ intents = is ++ is' := by
  simp only [parseIntents_eq_ok, parse_conjoin, Outcome.bind_eq_ok, Outcome.ok.injEq]
  constructor
  · intro h
    obtain ⟨_, ⟨pairs, hpairs, pairs', hpairs', rfl⟩, hall⟩ := h
    obtain ⟨is, is', his, his', rfl⟩ := parseAll_append.mp hall
    exact ⟨is, is', ⟨pairs, hpairs, his⟩, ⟨pairs', hpairs', his'⟩, rfl⟩
  · intro h
    obtain ⟨is, is', ⟨pairs, hpairs, his⟩, ⟨pairs', hpairs', his'⟩, rfl⟩ := h
    exact ⟨pairs ++ pairs', ⟨pairs, hpairs, pairs', hpairs', rfl⟩,
      parseAll_append.mpr ⟨is, is', his, his', rfl⟩⟩

end GadgetRegistry

theorem comma_solid : ∀ c ∈ [','], isWhitespace c = false := List.forall_mem_singleton.mpr rfl

theorem parseWitnesses_eq (w : Str) : parseWitnesses w = (split [','] w).map trim :=
  split_trim (List.cons_ne_nil _ _) comma_solid w

theorem parseWitnesses_append (v w : Str) :
    parseWitnesses (v ++ ',' :: w) = parseWitnesses v ++ parseWitnesses w := by
  simp only [parseWitnesses_eq, split_cons, List.map_append]

theorem parseWitnesses_intercalate {parts : List Str} (hne : parts ≠ [])
    (h : ∀ part ∈ parts, ',' ∉ part) :
    parseWitnesses ([','].intercalate parts) = parts.map trim := by
  rw [parseWitnesses_eq, split_intercalate (List.cons_ne_nil _ _) hne]
  intro part hpart
  simpa [List.singleton_infix_iff] using h part hpart

/-- An argument of enough fields is two arguments with a comma between them. -/
theorem exists_fields {u : Str} {n : Nat} (hn : 0 < n) (hlt : n < (parseWitnesses u).length) :
    ∃ v w, u = v ++ ',' :: w ∧ parseWitnesses v = (parseWitnesses u).take n ∧
      parseWitnesses w = (parseWitnesses u).drop n := by
  rw [parseWitnesses_eq, List.length_map] at hlt
  have hcommas (part : Str) (h : part ∈ split [','] u) : ',' ∉ part := not_mem_of_mem_split h
  have htake : (split [','] u).take n ≠ [] := by
    intro he
    have := congrArg List.length he
    rw [List.length_take, List.length_nil] at this
    omega
  have hdrop : (split [','] u).drop n ≠ [] := by
    intro he
    have := congrArg List.length he
    rw [List.length_drop, List.length_nil] at this
    omega
  refine ⟨[','].intercalate ((split [','] u).take n), [','].intercalate ((split [','] u).drop n),
    ?_, ?_, ?_⟩
  · have hu : [','].intercalate (split [','] u) = u :=
      intercalate_splitGo (List.cons_ne_nil _ _) 0 u
    conv_lhs => rw [← hu, ← List.take_append_drop n (split [','] u)]
    rw [intercalate_append htake hdrop, List.append_assoc, List.singleton_append]
  · rw [parseWitnesses_intercalate htake fun part h => hcommas part (List.mem_of_mem_take h),
      parseWitnesses_eq, List.map_take]
  · rw [parseWitnesses_intercalate hdrop fun part h => hcommas part (List.mem_of_mem_drop h),
      parseWitnesses_eq, List.map_drop]

section Composed

open GadgetRegistry

variable {r : GadgetRegistry} {is is' : List Intent}

theorem opens_append_iff (hatt : ∀ intent ∈ is ++ is', r.Attached intent) (hne : is ≠ [])
    (hne' : is' ≠ []) (u : Str) :
    Opens r (is ++ is') u ↔ is.length + is'.length < 2 ^ 32 ∧
      ∃ v w, u = v ++ ',' :: w ∧ Opens r is v ∧ Opens r is' w := by
  have hatt₁ : ∀ intent ∈ is, r.Attached intent := fun intent h =>
    hatt intent (List.mem_append_left _ h)
  have hatt₂ : ∀ intent ∈ is', r.Attached intent := fun intent h =>
    hatt intent (List.mem_append_right _ h)
  simp only [opens_iff hatt, opens_iff hatt₁, opens_iff hatt₂, Intent.encodeVec_isSome,
    witnessBlob_isSome, List.length_append, List.forall_mem_append]
  constructor
  · intro h
    obtain ⟨⟨hlen, hi, hi'⟩, ⟨hcount, hsize⟩, hall⟩ := h
    have hfields := hall.length_eq
    rw [List.length_append] at hfields
    have hpos := List.length_pos_iff.mpr hne
    have hpos' := List.length_pos_iff.mpr hne'
    obtain ⟨v, w, hu, hv, hw⟩ := exists_fields hpos
      (show is.length < (parseWitnesses u).length by omega)
    have hleft := List.forall₂_take_append _ _ _ hall.flip
    have hright := List.forall₂_drop_append _ _ _ hall.flip
    rw [← hv] at hleft
    rw [← hw] at hright
    have hcv := hleft.length_eq
    have hcw := hright.length_eq
    refine ⟨hlen, v, w, hu, ⟨⟨by omega, hi⟩, ⟨by omega, ?_⟩, hleft.flip⟩,
      ⟨by omega, hi'⟩, ⟨by omega, ?_⟩, hright.flip⟩
    · exact fun x hx => hsize x (List.mem_of_mem_take (hv ▸ hx))
    · exact fun x hx => hsize x (List.mem_of_mem_drop (hw ▸ hx))
  · intro h
    obtain ⟨hlen, v, w, rfl, ⟨⟨-, hi⟩, ⟨-, hv⟩, hleft⟩, ⟨-, hi'⟩, ⟨-, hw⟩, hright⟩ := h
    have hcv := hleft.length_eq
    have hcw := hright.length_eq
    rw [parseWitnesses_append]
    refine ⟨⟨hlen, hi, hi'⟩, ⟨?_, ?_⟩, List.rel_append hleft hright⟩
    · rw [List.length_append]
      omega
    · exact List.forall_mem_append.mpr ⟨hv, hw⟩

theorem parseIntents_ne_nil {s : Str} (h : r.parseIntents s = .ok is) : is ≠ [] := by
  obtain ⟨pairs, hpairs, hall⟩ := parseIntents_eq_ok.mp h
  have hcount := (parseParts_eq_ok hpairs).length_eq
  have hsame := (parseAll_eq_ok.mp hall).length_eq
  have hparts := List.length_pos_iff.mpr (splitGo_ne_nil delimiter 0 s)
  rw [split] at hcount
  rw [← List.length_pos_iff]
  omega

/-- A file under `s && t` is one file under `s` and under `t`: its intents are
those of `s` and then those of `t`, and what opens it is what opens the one, a
comma, and what opens the other. -/
theorem conjoin_compositional (r : GadgetRegistry) (s t : Str) :
    (∀ intents, r.parseIntents (conjoin s t) = .ok intents ↔ ∃ is is',
      r.parseIntents s = .ok is ∧ r.parseIntents t = .ok is' ∧ intents = is ++ is') ∧
    (∀ intents is is', r.parseIntents (conjoin s t) = .ok intents → r.parseIntents s = .ok is →
      r.parseIntents t = .ok is' → ∀ u, Opens r intents u ↔ is.length + is'.length < 2 ^ 32 ∧
        ∃ v w, u = v ++ ',' :: w ∧ Opens r is v ∧ Opens r is' w) := by
  refine ⟨fun intents => parseIntents_conjoin, fun intents is is' h hs ht u => ?_⟩
  have hatt := parseIntents_attached h
  obtain ⟨is₁, is₂, hs', ht', rfl⟩ := parseIntents_conjoin.mp h
  obtain rfl : is = is₁ := Outcome.ok.inj (hs.symm.trans hs')
  obtain rfl : is' = is₂ := Outcome.ok.inj (ht.symm.trans ht')
  exact opens_append_iff hatt (parseIntents_ne_nil hs) (parseIntents_ne_nil ht) u

/-- What a file under one password opens with. -/
theorem opens_password_iff {P : Primitives} {p : Str} (w : Str)
    (hpw : r.getGadget "Password".toList = some (PasswordGadget P)) :
    Opens r [⟨"Password".toList, (P.sha256 (asBytes p)).1, some (PasswordGadget P)⟩] w ↔
      ∃ x, parseWitnesses w = [x] ∧ (asBytes x).length < 2 ^ 32 ∧
        P.sha256 (asBytes x) = P.sha256 (asBytes p) := by
  have hatt : ∀ intent ∈ [(⟨"Password".toList, (P.sha256 (asBytes p)).1,
      some (PasswordGadget P)⟩ : Intent)], r.Attached intent := by
    rw [List.forall_mem_singleton]
    exact Or.inr hpw.symm
  have hty : (asBytes "Password".toList).length < 2 ^ 32 := by decide
  rw [opens_iff hatt, Intent.encodeVec_isSome, witnessBlob_isSome, List.forall_mem_singleton,
    (P.sha256 _).2, List.forall₂_cons_left_iff]
  simp only [List.forall₂_nil_left_iff, verifyIntent_password hpw hpw rfl]
  constructor
  · intro h
    obtain ⟨-, ⟨-, hsize⟩, x, _, hx, rfl, hfields⟩ := h
    rw [hfields, List.forall_mem_singleton] at hsize
    exact ⟨x, hfields, hsize, hx⟩
  · intro h
    obtain ⟨x, hfields, hsize, hx⟩ := h
    refine ⟨⟨by simp, hty, by decide⟩, ?_, x, [], hx, rfl, hfields⟩
    simpa [hfields] using hsize

def twoSecrets : Str := conjoin (passwordIntent "secret".toList) (passwordIntent "secret".toList)

/-- Two passwords open with both of them. -/
theorem conjoin_compositional_secrets : ∃ intents,
    sampleRegistry.parseIntents twoSecrets = .ok intents ∧
      Opens sampleRegistry intents "secret, secret".toList := by
  have hone : sampleRegistry.parseIntents (passwordIntent "secret".toList) =
      .ok (passwordIntents "secret".toList) := parseIntents_sample (by decide)
  have hopens {w : Str} (hw : parseWitnesses w = ["secret".toList]) :
      Opens sampleRegistry (passwordIntents "secret".toList) w :=
    (opens_password_iff w deployed_password).mpr ⟨_, hw, by decide, rfl⟩
  obtain ⟨hparse, hcompose⟩ := conjoin_compositional sampleRegistry
    (passwordIntent "secret".toList) (passwordIntent "secret".toList)
  have htwo := (hparse _).mpr ⟨_, _, hone, hone, rfl⟩
  refine ⟨_, htwo, (hcompose _ _ _ htwo hone hone _).mpr ⟨by simp [passwordIntents], ?_⟩⟩
  exact ⟨"secret".toList, " secret".toList, rfl, hopens (by decide), hopens (by decide)⟩

end Composed

end Fangorn
