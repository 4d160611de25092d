import Fangorn.EntmootCalls
import Fangorn.IntentComposition
import Fangorn.IntentRendering
import Mathlib.Data.Bool.AllAny

/-! The policies of the terminal client against the checks of the nodes: how the
text of a policy is read back, and when what the decrypt screen sends opens what
the encryption screens locked. -/

namespace Fangorn

open Rust Ink Scale

namespace Entmoot

def Policy.pairs (policy : Policy) : List (Str × Str) :=
  policy.password.toList.map (fun password => ("Password".toList, password)) ++
    policy.token.toList.map (fun token =>
      ("Psp22".toList, token.1 ++ ", ".toList ++ token.2)) ++
    if policy.signature then [("Sr25519".toList, [])] else []

theorem renderPart_eq {ty opened d : Str} (h : opened = ty ++ ['(']) :
    opened ++ d ++ [')'] = IntentParser.renderPart (ty, d) := by
  rw [h, IntentParser.renderPart, List.append_assoc ty]
  rfl

theorem passwordPart_eq (password : Str) :
    passwordPart password = IntentParser.renderPart ("Password".toList, password) :=
  renderPart_eq (by decide)

theorem psp22Part_eq (address count : Str) : psp22Part address count =
    IntentParser.renderPart ("Psp22".toList, address ++ ", ".toList ++ count) := by
  have hopened : "Psp22(".toList = "Psp22".toList ++ ['('] := by decide
  have h := renderPart_eq (d := address ++ ", ".toList ++ count) hopened
  simp only [← List.append_assoc] at h
  exact h

theorem Policy.parts_eq (policy : Policy) :
    policy.parts = policy.pairs.map IntentParser.renderPart := by
  have hsignature : (if policy.signature then ["Sr25519()".toList] else []) =
      (if policy.signature then [("Sr25519".toList, [])] else []).map
        IntentParser.renderPart := by
    split_ifs <;> rfl
  rw [Policy.parts, Policy.conditions, funext passwordPart_eq, hsignature]
  simp only [Policy.pairs, List.map_append, List.map_map, Function.comp_def, psp22Part_eq]

theorem parse_renderPart {pair : Str × Str} (h : IntentParser.Renderable pair) :
    IntentParser.parseIntentString (IntentParser.renderPart pair) = .ok [pair] := by
  have hrender := IntentParser.parse_render (List.cons_ne_nil ⟨[], pair, [], by simp, by simp⟩ [])
    (by simpa using h)
  simpa [IntentParser.render, IntentParser.Conjunct.text, List.intercalate] using hrender

theorem parse_spaced {pairs : List (Str × Str)} (hne : pairs ≠ [])
    (h : ∀ pair ∈ pairs, IntentParser.Renderable pair) :
    IntentParser.parseIntentString
      (" && ".toList.intercalate (pairs.map IntentParser.renderPart)) = .ok pairs := by
  induction pairs with
  | nil => exact absurd rfl hne
  | cons pair pairs ih =>
    rw [List.forall_mem_cons] at h
    cases pairs with
    | nil => simpa [List.intercalate] using parse_renderPart h.1
    | cons pair' pairs =>
      have hrest := ih (List.cons_ne_nil _ _) h.2
      rw [List.map_cons, ← List.singleton_append,
        intercalate_append (List.cons_ne_nil _ _) (by simp)]
      have hconjoin := IntentParser.parse_conjoin (IntentParser.renderPart pair)
        (" && ".toList.intercalate ((pair' :: pairs).map IntentParser.renderPart))
      rw [parse_renderPart h.1, hrest] at hconjoin
      simpa [conjoin, List.intercalate] using hconjoin

section Checks

variable (P : Primitives) (chain : Chain)

def minimumOf (count : Str) : Nat := (parseUnsigned (2 ^ 128) count).getD 0

/-- What the registry makes of a policy. -/
def Policy.intents (policy : Policy) : List Intent :=
  policy.password.toList.map (fun password =>
      ⟨"Password".toList, (P.sha256 (asBytes password)).1, some (PasswordGadget P)⟩) ++
    policy.token.toList.map (fun token => ⟨"Psp22".toList,
      TokenGate.psp22Statement (decodeContractAddr P (trim token.1)) (minimumOf token.2),
      some (Psp22Gadget P chain)⟩) ++
    if policy.signature then [⟨"Sr25519".toList, [], some (Sr25519Gadget P chain)⟩] else []

/-- A policy that the parser and the token gadget can read. -/
structure Policy.Readable (policy : Policy) : Prop where
  part : policy.parts ≠ []
  pairs : ∀ pair ∈ policy.pairs, IntentParser.Renderable pair
  address : ∀ address count, policy.token = some (address, count) → ',' ∉ address
  count : ∀ address count, policy.token = some (address, count) → IsNumeral count ∧
    ∃ n, parseUnsigned (2 ^ 128) count = some n

variable {P chain} {policy : Policy}

theorem psp22_statement {address count : Str} {n : Nat} (haddress : ',' ∉ address)
    (hcount : IsNumeral count) (hn : parseUnsigned (2 ^ 128) count = some n) :
    psp22ParseIntentData P (address ++ ", ".toList ++ count) =
      .ok (TokenGate.psp22Statement (decodeContractAddr P (trim address)) n) := by
  have hdigits : ',' ∉ count := by
    intro hmem
    exact absurd (hcount.1 ',' hmem) (by decide)
  have hsplit : split [','] (address ++ ',' :: (' ' :: count)) = [address, ' ' :: count] :=
    split_eq_pair.mpr ⟨rfl, haddress, by simpa using hdigits⟩
  have hwhite : ∀ c ∈ [' '], isWhitespace c = true := List.forall_mem_singleton.mpr rfl
  have htrim : trim (' ' :: count) = count := by
    rw [← List.singleton_append, trim_white_append hwhite]
    refine trim_eq_self (fun c hc => ?_) fun c hc => ?_
    · exact isWhitespace_of_isDigit (hcount.1 c (List.mem_of_mem_head? hc))
    · exact isWhitespace_of_isDigit (hcount.1 c (List.mem_of_mem_getLast? hc))
  have htext : address ++ ", ".toList ++ count = address ++ ',' :: (' ' :: count) := by simp
  rw [htext, psp22ParseIntentData, hsplit]
  simp only [htrim, hn, Outcome.okOr, Outcome.ok_bind]
  rfl

theorem Policy.Readable.parse (h : policy.Readable) :
    (GadgetRegistry.deployed P chain).parseIntents policy.text = .ok (policy.intents P chain) := by
  refine GadgetRegistry.parseIntents_eq_ok.mpr ⟨policy.pairs, ?_, ?_⟩
  · rw [Policy.text, Policy.parts_eq]
    refine parse_spaced (fun hnil => h.part ?_) h.pairs
    rw [Policy.parts_eq, hnil, List.map_nil]
  · rw [GadgetRegistry.parseAll_eq_ok]
    refine List.rel_append (List.rel_append ?_ ?_) ?_
    · cases hp : policy.password with
      | none => exact .nil
      | some password => exact .cons ⟨_, _, GadgetRegistry.deployed_password, rfl, rfl⟩ .nil
    · cases ht : policy.token with
      | none => exact .nil
      | some token =>
        obtain ⟨hnumeral, n, hn⟩ := h.count token.1 token.2 ht
        have hstatement := psp22_statement (P := P) (h.address token.1 token.2 ht) hnumeral hn
        have hmin : minimumOf token.2 = n := by
          rw [minimumOf, hn]
          rfl
        rw [← hmin] at hstatement
        exact .cons ⟨_, _, GadgetRegistry.deployed_psp22, hstatement, rfl⟩ .nil
    · split_ifs
      · exact .cons ⟨_, _, GadgetRegistry.deployed_sr25519, rfl, rfl⟩ .nil
      · exact .nil

theorem digit_plain {n : Nat} (h : n < 16) :
    isWhitespace (Char.ofNat (Hex.digit n).toNat) = false ∧
      Char.ofNat (Hex.digit n).toNat ≠ ',' := by
  have hall : ∀ n : Fin 16, isWhitespace (Char.ofNat (Hex.digit n).toNat) = false ∧
    Char.ofNat (Hex.digit n).toNat ≠ ',' := by decide
  exact hall ⟨n, h⟩

theorem hex_plain {b : Bytes} {c : Char} (h : c ∈ Hex.text b) :
    isWhitespace c = false ∧ c ≠ ',' := by
  obtain ⟨d, hd, rfl⟩ := List.mem_map.mp h
  obtain ⟨n, hn, rfl⟩ := Hex.exists_digit hd
  exact digit_plain hn

theorem forall₂_append_iff {α β : Type} {R : α → β → Prop} {as as' : List α} {bs bs' : List β}
    (hlen : as.length = bs.length) :
    List.Forall₂ R (as ++ as') (bs ++ bs') ↔ List.Forall₂ R as bs ∧ List.Forall₂ R as' bs' := by
  constructor
  · intro h
    have hleft := List.forall₂_take_append _ _ _ h
    have hright := List.forall₂_drop_append _ _ _ h
    rw [← hlen, List.take_left] at hleft
    rw [← hlen, List.drop_left] at hright
    exact ⟨hleft, hright⟩
  · intro h
    exact List.rel_append h.1 h.2

theorem parseWitnesses_plain {parts : List Str} (hne : parts ≠ [])
    (h : ∀ part ∈ parts, ',' ∉ part ∧ trim part = part) :
    parseWitnesses ([','].intercalate parts) = parts := by
  rw [parseWitnesses_intercalate hne fun part hpart => (h part hpart).1]
  conv_rhs => rw [← List.map_id parts]
  exact List.map_congr_left fun part hpart => (h part hpart).2

variable {x : Str}

theorem verifyIntent_some {r : GadgetRegistry} {ty : Str} {statement : Bytes} {gadget : Gadget}
    (w : Bytes) :
    r.verifyIntent ⟨ty, statement, some gadget⟩ w = gadget.verifyWitness w statement := rfl

theorem password_field {p : Str} : (PasswordGadget P).verifyWitness (asBytes x)
    (P.sha256 (asBytes p)).1 = .ok true ↔ P.sha256 (asBytes x) = P.sha256 (asBytes p) := by
  show Outcome.ok (decide _) = Outcome.ok true ↔ _
  rw [Outcome.ok.injEq, decide_eq_true_eq, Subtype.ext_iff]

theorem token_field {c : AccountId} {n : Nat} (hn : n < 2 ^ 128) :
    (Psp22Gadget P chain).verifyWitness (asBytes x) (TokenGate.psp22Statement c n) = .ok true ↔
      ∃ balance, psp22Balance P chain c (decodePublicKey P x) = .ok balance ∧ n ≤ balance := by
  show psp22VerifyWitness P chain _ _ = _ ↔ _
  rw [TokenGate.psp22Statement, psp22_accepts_iff P chain hn]
  constructor
  · intro h
    obtain ⟨s, balance, hs, hbalance, hle⟩ := h
    rw [← asBytes_injective hs] at hbalance
    exact ⟨balance, hbalance, hle⟩
  · intro h
    obtain ⟨balance, hbalance, hle⟩ := h
    exact ⟨x, balance, rfl, hbalance, hle⟩

theorem signature_field {address : Str} {sig : Arr 64} {nonce : UInt32}
    (hlen : (asBytes address).length = 48)
    (hnonce : chain.account (decodePublicKey P address) = .ok (some nonce))
    (hverify : P.sr25519Verify sig (leBytes 4 nonce.toNat) (decodePublicKey P address) = true) :
    (Sr25519Gadget P chain).verifyWitness (asBytes (address ++ Hex.text sig.1)) [] = .ok true := by
  show sr25519VerifyWitness P chain _ _ = _
  rw [sr25519_accepts_iff, asBytes_append, Hex.asBytes_text]
  refine ⟨?_, address, sig, nonce, List.take_left' hlen, ?_, hnonce, hverify⟩
  · rw [List.length_append, hlen, Hex.length_of_decode (Hex.decode_encode sig.1), sig.2]
  · rw [List.drop_left' hlen, Hex.decode_encode]

theorem policy_fields_iff (h : policy.Readable) {password signature : Option Str} {token : Bool}
    {address : Str} (hp : password.isSome = policy.password.isSome)
    (ht : token = policy.token.isSome) (hs : signature.isSome = policy.signature)
    (hsig : ∀ s, signature = some s →
      (Sr25519Gadget P chain).verifyWitness (asBytes (address ++ s)) [] = .ok true) :
    List.Forall₂ (fun intent x =>
        (GadgetRegistry.deployed P chain).verifyIntent intent (asBytes x) = .ok true)
      (policy.intents P chain) (witnessParts password token signature address) ↔
    (∀ p p', policy.password = some p → password = some p' →
      P.sha256 (asBytes p') = P.sha256 (asBytes p)) ∧
    ∀ contract count, policy.token = some (contract, count) → ∃ balance,
      psp22Balance P chain (decodeContractAddr P (trim contract)) (decodePublicKey P address) =
        .ok balance ∧ minimumOf count ≤ balance := by
  have hpasswords : policy.password.toList.length = password.toList.length := by
    rw [Option.length_toList, Option.length_toList, hp]
  have htokens : policy.token.toList.length = (if token then [address] else []).length := by
    subst ht
    cases policy.token <;> rfl
  unfold Policy.intents witnessParts
  rw [forall₂_append_iff (by simp only [List.length_append, List.length_map, hpasswords, htokens]),
    forall₂_append_iff (by rw [List.length_map, hpasswords]), and_assoc]
  refine and_congr ?_ ?_
  · cases hpolicy : policy.password with
    | none => simp [show password = none by simpa [hpolicy] using hp]
    | some p =>
      rw [hpolicy] at hp
      obtain ⟨p', rfl⟩ := Option.isSome_iff_exists.mp hp
      simp [verifyIntent_some, password_field]
  · rw [and_iff_left]
    · cases hpolicy : policy.token with
      | none => simp [ht, hpolicy]
      | some pair =>
        obtain ⟨contract, count⟩ := pair
        obtain ⟨-, n, hn⟩ := h.count contract count hpolicy
        have hmin : minimumOf count < 2 ^ 128 := by
          rw [minimumOf, hn]
          exact parseUnsigned_lt hn
        simp [ht, hpolicy, verifyIntent_some, token_field hmin]
    · cases hsome : signature with
      | none => simp [← hs, hsome]
      | some s => simpa [← hs, hsome, verifyIntent_some] using hsig s hsome

theorem intents_encode : (Intent.encodeVec (policy.intents P chain)).isSome = true := by
  rw [Intent.encodeVec_isSome]
  have hcount : (policy.intents P chain).length ≤ 3 := by
    have hpasswords := Option.length_toList_le (o := policy.password)
    have htokens := Option.length_toList_le (o := policy.token)
    rw [Policy.intents, List.length_append, List.length_append, List.length_map, List.length_map]
    split_ifs <;> simp only [List.length_cons, List.length_nil] <;> omega
  refine ⟨by omega, ?_⟩
  have hnames : ∀ ty ∈ ["Password".toList, "Psp22".toList, "Sr25519".toList],
      (asBytes ty).length < 2 ^ 32 := by decide
  have hstatement (c : AccountId) (n : Nat) : (TokenGate.psp22Statement c n).length < 2 ^ 32 := by
    rw [TokenGate.psp22Statement, List.length_append, c.2, leBytes_length]
    decide
  unfold Policy.intents
  intro intent hmem
  rw [List.mem_append, List.mem_append] at hmem
  rcases hmem with (hmem | hmem) | hmem
  · obtain ⟨p, -, rfl⟩ := List.mem_map.mp hmem
    refine ⟨hnames _ (by simp), ?_⟩
    rw [(P.sha256 _).2]
    decide
  · obtain ⟨token, -, rfl⟩ := List.mem_map.mp hmem
    exact ⟨hnames _ (by simp), hstatement _ _⟩
  · split_ifs at hmem
    · obtain rfl := List.mem_singleton.mp hmem
      exact ⟨hnames _ (by simp), by simp⟩
    · cases hmem

end Checks

/-- A key pair with the text of its address. -/
structure ProperWallet (P : Primitives) (wallet : Wallet) : Prop where
  length : (asBytes wallet.address).length = 48
  plain : ∀ c ∈ wallet.address, isWhitespace c = false ∧ c ≠ ','
  signs : ∀ message, P.sr25519Verify (wallet.sign message) message
    (decodePublicKey P wallet.address) = true

/-- A password that is a field of its own. -/
structure PlainPassword (password : Str) : Prop where
  comma : ',' ∉ password
  trimmed : trim password = password
  length : (asBytes password).length < 2 ^ 32

theorem signatureHex_eq_ok {env : MenuEnv} {wallet : Wallet} {s : Str} :
    signatureHex env wallet = .ok s ↔ ∃ nonce : UInt32,
      env.chain.account (decodePublicKey env.P wallet.address) = .ok (some nonce) ∧
      Hex.text (wallet.sign (leBytes 4 nonce.toNat)).1 = s := by
  simp only [signatureHex, Outcome.bind_eq_ok, Outcome.unwrap_eq_ok,
    SubstrateBackend.nonce_eq_ok, Outcome.ok.injEq]

theorem ProperWallet.signature {env : MenuEnv} {wallet : Wallet} (h : ProperWallet env.P wallet)
    {s : Str} (hs : signatureHex env wallet = .ok s) :
    (Sr25519Gadget env.P env.chain).verifyWitness (asBytes (wallet.address ++ s)) [] =
      .ok true ∧ (asBytes (wallet.address ++ s)).length = 176 ∧
      ∀ c ∈ s, isWhitespace c = false ∧ c ≠ ',' := by
  obtain ⟨nonce, hnonce, rfl⟩ := signatureHex_eq_ok.mp hs
  refine ⟨signature_field h.length hnonce (h.signs _), ?_, fun c hc => hex_plain hc⟩
  rw [asBytes_append, Hex.asBytes_text, List.length_append, h.length,
    Hex.length_of_decode (Hex.decode_encode _), (wallet.sign _).2]

theorem plain_field {s : Str} (h : ∀ c ∈ s, isWhitespace c = false ∧ c ≠ ',') :
    ',' ∉ s ∧ trim s = s :=
  ⟨fun hc => (h ',' hc).2 rfl,
    trim_eq_self (fun c hc => (h c (List.mem_of_mem_head? hc)).1)
      fun c hc => (h c (List.mem_of_mem_getLast? hc)).1⟩

theorem parts_length (policy : Policy) : policy.parts.length =
    policy.password.toList.length + policy.token.toList.length +
      if policy.signature then 1 else 0 := by
  simp only [Policy.parts, Policy.conditions, List.length_append, List.length_map]
  split_ifs <;> rfl

theorem parts_length_le (policy : Policy) : policy.parts.length ≤ 3 := by
  have hpasswords := Option.length_toList_le (o := policy.password)
  have htokens := Option.length_toList_le (o := policy.token)
  rw [parts_length]
  split_ifs <;> omega

theorem witnessParts_length {policy : Policy} {password signature : Option Str} {token : Bool}
    {address : Str} (hp : password.isSome = policy.password.isSome)
    (ht : token = policy.token.isSome) (hs : signature.isSome = policy.signature) :
    (witnessParts password token signature address).length = policy.parts.length := by
  subst ht
  rw [parts_length, witnessParts, List.length_append, List.length_append, List.length_map,
    Option.length_toList, Option.length_toList, Option.length_toList, Option.length_toList, hp, hs]
  cases policy.token <;> rfl

theorem witnessParts_fields {P : Primitives} {wallet : Wallet} (h : ProperWallet P wallet)
    {password signature : Option Str} {token : Bool}
    (hp : ∀ p, password = some p → PlainPassword p)
    (hs : ∀ s, signature = some s → (asBytes (wallet.address ++ s)).length = 176 ∧
      ∀ c ∈ s, isWhitespace c = false ∧ c ≠ ',') :
    ∀ part ∈ witnessParts password token signature wallet.address,
      (',' ∉ part ∧ trim part = part) ∧ (asBytes part).length < 2 ^ 32 := by
  intro part hpart
  rw [witnessParts, List.mem_append, List.mem_append] at hpart
  rcases hpart with (hpart | hpart) | hpart
  · obtain hpart := hp part (Option.mem_toList.mp hpart)
    exact ⟨⟨hpart.comma, hpart.trimmed⟩, hpart.length⟩
  · split_ifs at hpart
    · obtain rfl := List.mem_singleton.mp hpart
      exact ⟨plain_field h.plain, by rw [h.length]; decide⟩
    · cases hpart
  · obtain ⟨s, hsome, rfl⟩ := List.mem_map.mp hpart
    obtain ⟨hlength, hplain⟩ := hs s (Option.mem_toList.mp hsome)
    refine ⟨plain_field fun c hc => ?_, by omega⟩
    rcases List.mem_append.mp hc with hc | hc
    · exact h.plain c hc
    · exact hplain c hc

def secretPolicy : Policy :=
  ⟨some "secret".toList, some (TokenGate.poorAddress, "100".toList), true⟩

/-- Text without brackets and ampersands is told from the text around it. -/
theorem renderable_plain {ty d : Str} (hty : '(' ∉ ty) (hamp : '&' ∉ ty)
    (hhead : ty.head?.any isWhitespace = false) (hopen : '(' ∉ d) (hclose : ')' ∉ d)
    (hd : '&' ∉ d) (hlen : d.length < 2 ^ 31 - 1) : IntentParser.Renderable (ty, d) := by
  have hdelimiter {s : Str} (hs : '&' ∉ s) : ¬ IntentParser.delimiter <:+: s :=
    fun hi => hs (hi.subset (by decide))
  have hnet (p : Str) (hp : p <+: d) : Nesting.net '(' ')' p = 0 := by
    rw [Nesting.net, List.count_eq_zero_of_not_mem fun hc => hopen (hp.subset hc),
      List.count_eq_zero_of_not_mem fun hc => hclose (hp.subset hc), sub_self]
  exact IntentParser.renderable_of_length hty (hdelimiter hamp)
    ((Option.any_eq_false _ _).mp hhead) (hdelimiter hd)
    ⟨fun p hp => (hnet p hp).ge, hnet d (List.prefix_refl d)⟩ hlen

theorem secretPolicy_readable : secretPolicy.Readable where
  part := by simp [secretPolicy, Policy.parts]
  pairs := by
    have hpairs : secretPolicy.pairs = [("Password".toList, "secret".toList),
        ("Psp22".toList, TokenGate.poorAddress ++ ", ".toList ++ "100".toList),
        ("Sr25519".toList, [])] := rfl
    rw [hpairs]
    simp only [List.forall_mem_cons, List.not_mem_nil, false_imp_iff, implies_true, and_true]
    refine ⟨?_, ?_, ?_⟩ <;>
      exact renderable_plain (by decide) (by decide) (by decide) (by decide) (by decide)
        (by decide) (by decide)
  address := by
    rintro address count ⟨⟩
    decide
  count := by
    rintro address count ⟨⟩
    exact ⟨⟨List.all_eq_true.mp (by decide), by decide⟩, 100, by decide⟩

/-- Ticked as the policy has it, with the account that holds a thousand tokens. -/
def answering : App Str (Bool × Str) :=
  { new typing (true, []) with
    displayPasswordInput := true
    displayContractAddressInput := true
    sr25519Intent := true }

end Entmoot

end Fangorn
