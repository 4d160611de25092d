import Fangorn.EntmootForms

/-! The calls of the terminal client, press by press: each carries the form as it
stands then. -/

namespace Fangorn

open Rust Ink Scale

namespace Entmoot

variable {Area Explorer : Type} {lib : MenuLib Area Explorer} {env : MenuEnv} {key : KeyEvent}
  {app : App Area Explorer}

theorem nonzeroDigits_isDigit : ∀ c ∈ nonzeroDigits, c.isDigit = true ∧ c ≠ '0' := by
  simp [nonzeroDigits, Char.isDigit]

/-- How the text areas behave on the keys of the balance field: `holds area s`
says that the area has the one line `s`, with the cursor behind it. -/
structure AreaLaws (lib : MenuLib Area Explorer) (holds : Area → Str → Prop) : Prop where
  new : holds lib.newArea []
  lines : ∀ area s, holds area s → lib.lines area = [s]
  digit : ∀ area s key c, holds area s → key.code = .char c → c.isDigit = true →
    holds (lib.input key area) (s ++ [c]) ∨ holds (lib.input key area) s
  backspace : ∀ area s key, holds area s → key.code = .backspace →
    ∃ t, t <+: s ∧ holds (lib.input key area) t

section Balance

variable {holds : Area → Str → Prop} (laws : AreaLaws lib holds)
include laws

theorem AreaLaws.text {area : Area} {s : Str} (h : holds area s) : text lib area = s := by
  rw [Entmoot.text, laws.lines area s h]
  exact List.intercalate_singleton

theorem AreaLaws.typeKey {area : Area} {s : Str} (h : holds area s) (hnum : IsNumeral s)
    (key : KeyEvent) :
    ∃ t, holds (typeKey lib .tokenCount key area) t ∧ IsNumeral t := by
  cases hkey : key.code with
  | char c =>
    rw [typeKey_char hkey]
    split_ifs with hdigit
    · have hc : c.isDigit = true ∧ (c = '0' → s ≠ []) := by
        rcases hdigit with hmem | ⟨rfl, hne⟩
        · exact ⟨(nonzeroDigits_isDigit c hmem).1,
            fun hzero => absurd hzero (nonzeroDigits_isDigit c hmem).2⟩
        · rw [laws.text h] at hne
          exact ⟨rfl, fun _ => hne⟩
      rcases laws.digit area s key c h hkey hc.1 with hadded | hsame
      · exact ⟨s ++ [c], hadded, hnum.concat hc.1 hc.2⟩
      · exact ⟨s, hsame, hnum⟩
    · exact ⟨s, h, hnum⟩
  | backspace =>
    rw [typeKey_backspace hkey]
    obtain ⟨t, ht, hholds⟩ := laws.backspace area s key h hkey
    exact ⟨t, hholds, hnum.of_prefix ht⟩
  | _ =>
    rw [typeKey_other (by simp [hkey]) (by simp [hkey])]
    exact ⟨s, h, hnum⟩

theorem AreaLaws.numeral (form : Form) : IsNumeral (form.text lib .tokenCount) := by
  obtain ⟨s, hs, hnum⟩ : ∃ s, holds (form.area lib .tokenCount) s ∧ IsNumeral s := by
    unfold Form.area
    induction form.typed .tokenCount using List.reverseRecOn with
    | nil => exact ⟨[], laws.new, .nil⟩
    | append_singleton keys key ih =>
      obtain ⟨s, hs, hnum⟩ := ih
      rw [List.foldl_concat]
      exact laws.typeKey hs hnum key
  rw [Form.text, laws.text hs]
  exact hnum

end Balance

theorem prepareWitnessString_eq_ok {password witness : Str}
    (h : prepareWitnessString env password app = .ok witness) :
    ∃ wallet, env.wallet = some wallet ∧ ∃ signature : Option Str,
      (signature.isSome = true ↔ app.sr25519Intent = true) ∧
      (∀ s, signature = some s → signatureHex env wallet = .ok s) ∧
      witness = [','].intercalate (witnessParts
        (if app.displayPasswordInput then some password else none)
        app.displayContractAddressInput signature wallet.address) := by
  simp only [prepareWitnessString, Outcome.bind_eq_ok, Outcome.expect_eq_ok] at h
  obtain ⟨wallet, hwallet, h⟩ := h
  refine ⟨wallet, hwallet, ?_⟩
  split at h <;> next hp hc hs =>
    simp only [Outcome.bind_eq_ok, Outcome.ok.injEq] at h
    simp only [hp, hc, hs]
    first
    | obtain ⟨signature, hsig, rfl⟩ := h
      exact ⟨some signature, by simp, by simpa using hsig,
        by simp [witnessParts, List.intercalate]⟩
    | subst h
      exact ⟨none, by simp, by simp, by simp [witnessParts, List.intercalate]⟩

theorem signedPart_conditions {policy : Policy} (h : policy.conditions ≠ []) :
    signedPart policy.signature (" && ".toList.intercalate policy.conditions) = policy.text := by
  unfold signedPart Policy.text Policy.parts
  split_ifs
  · rw [intercalate_append h (List.cons_ne_nil _ _), List.append_assoc]
    rfl
  · rw [List.append_nil]

section Calls

variable {form : Form}

/-- At most one call is made, and it carries the form. -/
def Makes (lib : MenuLib Area Explorer) (env : MenuEnv) (form : Form) (app : App Area Explorer)
    (r : Outcome Exit Unit × App Area Explorer) : Prop :=
  r.2.calls = app.calls ∨
    ∃ call, r.2.calls = app.calls ++ [call] ∧ Carries lib env form call

theorem typeInto_calls : (typeInto lib key app).calls = app.calls := by
  unfold typeInto
  cases focus app with
  | none => rfl
  | some field => cases field <;> rfl

theorem perform_calls (call : Call) :
    (perform env call app).2.calls = app.calls ++ [call] := by
  unfold perform
  split <;> rfl

theorem callEncrypt_makes {holds : Area → Str → Prop} (laws : AreaLaws lib holds)
    (h : Records lib app form) (hp : (form.policy lib).Filled) :
    Makes lib env form app (callEncrypt lib env (form.policy lib).text app) := by
  have hpath := h.path
  unfold callEncrypt
  split
  · exact Or.inl rfl
  · next path hpicked =>
    refine Or.inr ⟨_, perform_calls _, .encrypt (hpath.symm.trans hpicked) hp fun htick => ?_⟩
    have htoken : (form.policy lib).token =
        some (form.text lib .contractAddress, form.text lib .tokenCount) := if_pos htick
    exact (laws.numeral form).positive (hp.token _ _ htoken).2

theorem submitEncryption_makes {holds : Area → Str → Prop} (laws : AreaLaws lib holds)
    (h : Records lib app form) (hsig : app.sr25519Intent = form.ticks 2)
    (hne : (form.policy lib).conditions ≠ []) (hp : (form.policy lib).Filled) :
    Makes lib env form app (submitEncryption lib env
      (" && ".toList.intercalate (form.policy lib).conditions) app) := by
  have htext : signedPart app.sr25519Intent
      (" && ".toList.intercalate (form.policy lib).conditions) = (form.policy lib).text := by
    rw [hsig]
    exact signedPart_conditions hne
  have hcall : Makes lib env form app (callEncrypt lib env (form.policy lib).text app) :=
    callEncrypt_makes laws h hp
  unfold submitEncryption
  rw [htext]
  split
  · next app' happ =>
    rw [happ] at hcall
    exact hcall
  · exact hcall

theorem encryptionEnter_makes {holds : Area → Str → Prop} (laws : AreaLaws lib holds)
    (hs : app.currentScreen = .encryptionInput) (h : Records lib app form) :
    Makes lib env form app (encryptionEnter lib env app) := by
  obtain ⟨hpassword, hcontract, hsig⟩ := h.shown (Or.inl hs)
  have hticked := h.ticked hs
  have hsubmit {conditions : Str} (hne : (form.policy lib).conditions ≠ [])
      (hp : (form.policy lib).Filled)
      (heq : " && ".toList.intercalate (form.policy lib).conditions = conditions) :
      Makes lib env form app (submitEncryption lib env conditions app) := by
    rw [← heq]
    exact submitEncryption_makes laws h hsig hne hp
  unfold encryptionEnter
  rw [h.password, h.contractAddress, h.tokenCount, hpassword, hcontract]
  extract_lets password contractAddress tokenCount
  cases hc : form.ticks 1 with
  | false =>
    have hp : form.ticks 0 = true := by simpa [hc] using hticked
    have hpolicy : form.policy lib = ⟨some password, none, form.ticks 2⟩ := by
      simp [Form.policy, hc, hp, password, Form.text]
    rw [hpolicy] at hsubmit
    by_cases hempty : password = []
    · exact Or.inl (by simp [hempty])
    · have hfilled : Policy.Filled ⟨some password, none, form.ticks 2⟩ :=
        ⟨List.cons_ne_nil _ _, by simpa using hempty, by simp⟩
      simp only [hempty, Bool.false_and, Bool.false_eq_true, if_false]
      exact hsubmit (List.cons_ne_nil _ _) hfilled (by simp [Policy.conditions, List.intercalate])
  | true =>
    cases hp : form.ticks 0 with
    | false =>
      have hpolicy : form.policy lib =
          ⟨none, some (contractAddress, tokenCount), form.ticks 2⟩ := by
        simp [Form.policy, hc, hp, contractAddress, tokenCount, Form.text]
      rw [hpolicy] at hsubmit
      by_cases hempty : contractAddress = [] ∨ tokenCount = []
      · exact Or.inl (by simp [hempty])
      · have hfilled : Policy.Filled ⟨none, some (contractAddress, tokenCount), form.ticks 2⟩ := by
          refine ⟨List.cons_ne_nil _ _, by simp, ?_⟩
          rintro address count htoken
          cases htoken
          exact not_or.mp hempty
        simp only [hempty, Bool.and_false, Bool.false_eq_true, if_false, if_true]
        exact hsubmit (List.cons_ne_nil _ _) hfilled (by simp [Policy.conditions, List.intercalate])
    | true =>
      have hpolicy : form.policy lib =
          ⟨some password, some (contractAddress, tokenCount), form.ticks 2⟩ := by
        simp [Form.policy, hc, hp, password, contractAddress, tokenCount, Form.text]
      rw [hpolicy] at hsubmit
      by_cases hempty : password = [] ∨ contractAddress = [] ∨ tokenCount = []
      · exact Or.inl (by simp [hempty])
      · have hfields := not_or.mp hempty
        have hfilled : Policy.Filled
            ⟨some password, some (contractAddress, tokenCount), form.ticks 2⟩ := by
          refine ⟨List.cons_ne_nil _ _, by simpa using hfields.1, ?_⟩
          rintro address count htoken
          cases htoken
          exact not_or.mp hfields.2
        simp only [hempty, Bool.and_true, if_false, if_true]
        exact hsubmit (List.cons_ne_nil _ _) hfilled (by simp [Policy.conditions, List.intercalate])

theorem submitIntents_makes {holds : Area → Str → Prop} (laws : AreaLaws lib holds)
    (h : Records lib app form)
    (hshown : app.displayPasswordInput = form.ticks 0 ∧
      app.displayContractAddressInput = form.ticks 1 ∧ app.sr25519Intent = form.ticks 2) :
    Makes lib env form app (submitIntents lib env app) := by
  obtain ⟨hpassword, hcontract, hsig⟩ := hshown
  unfold submitIntents
  split_ifs with hnone hpath honly
  · exact Or.inl rfl
  · rw [hpassword, hcontract, hsig] at honly
    simp only [Bool.and_eq_true, Bool.not_eq_true'] at honly
    obtain ⟨⟨h2, h1⟩, h0⟩ := honly
    have hpolicy : form.policy lib = ⟨none, none, true⟩ := by simp [Form.policy, h0, h1, h2]
    have htext : (form.policy lib).text = "Sr25519()".toList := by
      rw [hpolicy]
      rfl
    have hfilled : (form.policy lib).Filled := by
      rw [hpolicy]
      exact ⟨by simp [Policy.parts], by simp, by simp⟩
    have hcall : Makes lib env form app (callEncrypt lib env (form.policy lib).text app) :=
      callEncrypt_makes laws h hfilled
    rw [htext] at hcall
    split
    · next app' happ =>
      rw [happ] at hcall
      exact hcall
    · exact hcall
  · exact Or.inl rfl
  · exact Or.inl rfl

theorem intentsInput_makes {holds : Area → Str → Prop} (laws : AreaLaws lib holds)
    (hs : app.currentScreen = .intentSelection) (h : Records lib app form) :
    Makes lib env form app (intentsInput lib env key app) := by
  unfold intentsInput
  split
  · exact Or.inl rfl
  · exact Or.inl rfl
  · split
    · next password psp22 sr25519 hpassword hpsp22 hsr25519 =>
      have hshown : Records lib { app with
          displayPasswordInput := password.2
          displayContractAddressInput := psp22.2
          sr25519Intent := sr25519.2 } form :=
        { h with shown := fun hs' => by simp [hs] at hs' }
      exact submitIntents_makes laws hshown ⟨h.ticks_of_item (by decide) hpassword,
        h.ticks_of_item (by decide) hpsp22, h.ticks_of_item (by decide) hsr25519⟩
    · exact Or.inl rfl
  · split
    · split
      · next app' htoggle =>
        unfold toggle at htoggle
        split_ifs at htoggle
        obtain rfl := Option.some.inj htoggle
        exact Or.inl rfl
      · exact Or.inl rfl
    · exact Or.inl rfl
  all_goals exact Or.inl rfl

theorem encryptionInput_makes {holds : Area → Str → Prop} (laws : AreaLaws lib holds)
    (hs : app.currentScreen = .encryptionInput) (h : Records lib app form) :
    Makes lib env form app (encryptionInput lib env key app) := by
  unfold encryptionInput
  split
  · exact Or.inl rfl
  · left
    unfold encryptionTab
    split_ifs <;> rfl
  · exact encryptionEnter_makes laws hs h
  · left
    rw [encryptionTyped_eq hs]
    exact typeInto_calls

theorem decryptEnter_makes (hsane : Sane app) (hs : app.currentScreen = .decrypt)
    (h : Records lib app form) : Makes lib env form app (decryptEnter lib env app) := by
  obtain ⟨hpassword, hcontract, hsig⟩ := h.shown (Or.inr hs)
  have hticked := hsane.asked hs
  unfold decryptEnter
  extract_lets filename password
  split_ifs with hempty
  · exact Or.inl rfl
  · rw [not_or, not_and] at hempty
    have hname : filename = form.text lib .filename := congrArg (text lib) h.filename
    have hcall : Makes lib env form app (callDecrypt env filename password app) := by
      unfold callDecrypt
      split
      · next witness hw =>
        obtain ⟨wallet, hwallet, signature, hsome, hmade, rfl⟩ := prepareWitnessString_eq_ok hw
        have hsigned : signature.isSome = form.ticks 2 := by
          rw [← hsig]
          exact Bool.eq_iff_iff.mpr hsome
        have hanswers : witnessParts (if app.displayPasswordInput then some password else none)
            app.displayContractAddressInput signature wallet.address =
              form.answers lib signature wallet.address := by
          rw [Form.answers, ← hpassword, ← hcontract, Form.text, ← h.password]
          cases hshown : app.displayPasswordInput <;> simp [password, hshown]
        rw [hanswers, hname]
        refine Or.inr ⟨_, perform_calls _, .decrypt hwallet hsigned hmade (hname ▸ hempty.1) ?_ ?_⟩
        · intro htick
          rw [← hpassword] at htick
          have hne := hempty.2 htick
          rw [Form.text, ← h.password]
          simpa [password, htick] using hne
        · rw [← hpassword, ← hcontract, ← hsig]
          exact hticked
      · exact Or.inl rfl
    split
    · next app' happ =>
      rw [happ] at hcall
      exact hcall
    · exact hcall

theorem mainInput_calls : (mainInput env key app).2.calls = app.calls := by
  have hselect : (select env app).2.calls = app.calls := by
    unfold select
    split
    · split <;> rfl
    · split <;> rfl
    · rfl
    · rfl
    · rfl
  unfold mainInput
  split <;> first | rfl | exact hselect

theorem fileSelectInput_calls : (fileSelectInput lib key app).2.calls = app.calls := by
  unfold fileSelectInput
  split
  · rfl
  · rfl
  · split <;> rfl
  · split <;> rfl

variable (env key) in
theorem handleKey_makes {holds : Area → Str → Prop} (laws : AreaLaws lib holds)
    (hsane : Sane app) (h : Records lib app form) :
    Makes lib env form app (handleKey lib env key app) := by
  unfold handleKey
  split
  · exact Or.inl mainInput_calls
  · left
    unfold keyResultsInput
    split <;> rfl
  · exact Or.inl fileSelectInput_calls
  · next hs => exact encryptionInput_makes laws hs h
  · next hs =>
    unfold decryptInput
    split
    · exact Or.inl rfl
    · split_ifs <;> exact Or.inl rfl
    · exact decryptEnter_makes hsane hs h
    · left
      rw [decryptTyped_eq hs]
      exact typeInto_calls
  · next hs => exact intentsInput_makes laws hs h

theorem run_makes {holds : Area → Str → Prop} (laws : AreaLaws lib holds) (hsane : Sane app)
    (h : Records lib app form) (events : List (MenuEnv × KeyEvent)) :
    ∀ call ∈ (run lib events app).2.calls, call ∈ app.calls ∨
      ∃ before env key after, events = before ++ (env, key) :: after ∧
        Carries lib env (fill lib before app form) call := by
  induction events generalizing app form with
  | nil => exact fun call hcall => Or.inl hcall
  | cons event events ih =>
    obtain ⟨env, key⟩ := event
    have hmakes := handleKey_makes env key laws hsane h
    have hstep := handleKey_sane lib env key hsane
    have hrecords := handleKey_records env key h
    have hhere (call : Call) (hcall : call ∈ (handleKey lib env key app).2.calls) :
        call ∈ app.calls ∨ ∃ before env' key' after,
          (env, key) :: events = before ++ (env', key') :: after ∧
            Carries lib env' (fill lib before app form) call := by
      rcases hmakes with hsame | ⟨made, hone, hcarries⟩
      · exact Or.inl (hsame ▸ hcall)
      · rw [hone, List.mem_append, List.mem_singleton] at hcall
        rcases hcall with hold | rfl
        · exact Or.inl hold
        · exact Or.inr ⟨[], env, key, events, rfl, hcarries⟩
    intro call hcall
    rw [run] at hcall
    rcases hkey : handleKey lib env key app with ⟨o, next⟩
    cases o with
    | ok u =>
      rw [hkey] at hcall hstep hrecords
      rcases ih hstep hrecords call hcall with hold | ⟨before, env', key', after, rfl, hcarries⟩
      · exact hhere call (by rwa [hkey])
      · refine Or.inr ⟨(env, key) :: before, env', key', after, rfl, ?_⟩
        rw [fill, hkey]
        exact hcarries
    | err e =>
      rw [hkey] at hcall
      exact hhere call (by rwa [hkey])
    | panic =>
      rw [hkey] at hcall
      exact hhere call (by rwa [hkey])

def typing : MenuLib Str (Bool × Str) where
  newArea := []
  input key area :=
    match key.code with
    | .char c => area ++ [c]
    | .backspace => area.dropLast
    | _ => area
  lines area := [area]
  explore _ explorer := some explorer
  current := id
  fileName := some

def signOf (message : Bytes) : Arr 64 := beArr 64 (leNat message + 1)

def menuPrimitives : Primitives where
  sha256 := PasswordAccess.sha256Sample
  blake2 := TokenGate.twoAccounts.blake2
  fromSs58check := TokenGate.twoAccounts.fromSs58check
  sr25519Verify sig message key := decide (sig = signOf message ∧ key = TokenGate.rich)

def workingEnv : MenuEnv where
  P := menuPrimitives
  chain := TokenGate.twoBalances
  generateKeys := true
  listKeys := .ok ()
  wallet := some ⟨TokenGate.richAddress, signOf⟩
  returns _ := true

theorem typing_laws : AreaLaws typing (· = ·) where
  new := rfl
  lines area s h := by
    rw [← h]
    rfl
  digit area s key c h hkey _ := by
    subst h
    obtain ⟨code, count⟩ := key
    obtain rfl : code = .char c := hkey
    exact Or.inl rfl
  backspace area s key h hkey := by
    subst h
    obtain ⟨code, count⟩ := key
    obtain rfl : code = .backspace := hkey
    exact ⟨_, List.dropLast_prefix area, rfl⟩

def presses (codes : List KeyCode) : List (MenuEnv × KeyEvent) :=
  codes.map fun code => (workingEnv, ⟨code, 0⟩)

/-- From the main menu to a file under a password and a balance of ten. -/
def lockingPresses : List (MenuEnv × KeyEvent) :=
  presses [.down, .down, .enter, .enter, .char ' ', .down, .char ' ', .enter, .char 'p', .tab,
    .char 'c', .tab, .char '0', .char '1', .char '0', .enter]

end Calls

end Entmoot

end Fangorn
