import Fangorn.Entmoot

/-! Every run of the terminal client: the rows and fields that its screens point
to are there, and it ends in a panic only where something outside of the menus
fails. -/

namespace Fangorn

open Rust Ink Scale

namespace Entmoot

variable {Area Explorer : Type} {lib : MenuLib Area Explorer} {env : MenuEnv} {key : KeyEvent}
  {app : App Area Explorer}

/-- How many inputs the encryption screen shows. -/
def shownInputs (app : App Area Explorer) : Nat :=
  if app.displayContractAddressInput then if app.displayPasswordInput then 3 else 2 else 1

/-- What the screens take for granted. -/
structure Sane (app : App Area Explorer) : Prop where
  four : app.menuItems.length = 4
  row : ∀ i, app.menuState = some i → i < 4
  three : app.intentListItems.length = 3
  cursor : ∀ i, app.intentListState = some i → i < 3
  picked : app.currentScreen = .intentSelection → app.isEncryptPath = true →
    app.filePath.isSome = true
  chosen : app.currentScreen = .encryptionInput → app.filePath.isSome = true
  asked : app.currentScreen = .decrypt → (app.displayPasswordInput ||
    app.displayContractAddressInput || app.sr25519Intent) = true
  idle : app.currentScreen ≠ .encryptionInput → app.encryptInputSelection = 0
  input : app.encryptInputSelection < shownInputs app
  field : app.decryptInputSelection < 2

theorem nextIndex_lt {len : Nat} {s : Option Nat} {i : Nat} (hlen : 0 < len)
    (h : nextIndex len s = some i) : i < len := by
  cases s with
  | none =>
    obtain rfl : 0 = i := Option.some.inj h
    exact hlen
  | some j =>
    have hi : (if len - 1 ≤ j then 0 else j + 1) = i := Option.some.inj h
    split at hi <;> omega

theorem previousIndex_lt {len : Nat} {s : Option Nat} {i : Nat} (hlen : 0 < len)
    (hs : ∀ j, s = some j → j < len) (h : previousIndex len s = some i) : i < len := by
  cases s with
  | none =>
    obtain rfl : 0 = i := Option.some.inj h
    exact hlen
  | some j =>
    have hj := hs j rfl
    have hi : (if j = 0 then len - 1 else j - 1) = i := Option.some.inj h
    split at hi <;> omega

theorem shownInputs_pos (app : App Area Explorer) : 0 < shownInputs app := by
  unfold shownInputs
  split_ifs <;> decide

namespace Sane

theorem initial (lib : MenuLib Area Explorer) (explorer : Explorer) :
    Sane (new lib explorer) where
  four := rfl
  row i h := by
    obtain rfl : 0 = i := Option.some.inj h
    decide
  three := rfl
  cursor i h := by
    obtain rfl : 0 = i := Option.some.inj h
    decide
  picked h := by cases h
  chosen h := by cases h
  asked h := by cases h
  idle _ := rfl
  input := shownInputs_pos _
  field := Nat.two_pos

/-- A screen that takes no input and shows no intents has nothing to take for
granted. -/
theorem goto (h : Sane app) (hfrom : app.currentScreen ≠ .encryptionInput) {screen : CurrentScreen}
    (hintents : screen ≠ .intentSelection) (hinput : screen ≠ .encryptionInput)
    (hdecrypt : screen ≠ .decrypt) : Sane { app with currentScreen := screen } :=
  { h with
    picked := fun hs => absurd hs hintents
    chosen := fun hs => absurd hs hinput
    asked := fun hs => absurd hs hdecrypt
    idle := fun _ => h.idle hfrom }

theorem reset (h : Sane app) : Sane (resetIntentList app) := by
  refine { h with three := ?_, cursor := fun i hi => ?_ }
  · show (app.intentListItems.map _).length = 3
    rw [List.length_map, h.three]
  · obtain rfl : 0 = i := Option.some.inj hi
    decide

theorem leave (h : Sane app) (hfrom : app.currentScreen ≠ .encryptionInput) :
    Sane (leaveIntents app) :=
  reset (h.goto hfrom (by decide) (by decide) (by decide))

theorem cleanEncryption (h : Sane app) : Sane (cleanupEncryption lib app) :=
  { h.reset with
    picked := fun hs => (by cases hs)
    chosen := fun hs => (by cases hs)
    asked := fun hs => (by cases hs)
    idle := fun _ => rfl
    input := shownInputs_pos _ }

theorem cleanDecryption (h : Sane app) (hfrom : app.currentScreen ≠ .encryptionInput) :
    Sane (cleanupDecryption lib app) :=
  { h.reset with
    picked := fun hs => (by cases hs)
    chosen := fun hs => (by cases hs)
    asked := fun hs => (by cases hs)
    idle := fun _ => h.idle hfrom
    field := Nat.two_pos }

theorem perform (h : Sane app) (call : Call) : Sane (perform env call app).2 := by
  unfold Entmoot.perform
  split <;> exact { h with }

theorem callEncrypt (h : Sane app) (intentStr : Str) :
    Sane (callEncrypt lib env intentStr app).2 := by
  unfold Entmoot.callEncrypt
  split
  · exact h
  · exact h.perform _

theorem callDecrypt (h : Sane app) (filename password : Str) :
    Sane (callDecrypt env filename password app).2 := by
  unfold Entmoot.callDecrypt
  split
  · exact h.perform _
  · exact h

end Sane

theorem callEncrypt_screen (intentStr : Str) :
    (callEncrypt lib env intentStr app).2.currentScreen = app.currentScreen := by
  unfold callEncrypt perform
  split
  · rfl
  · dsimp only
    split <;> rfl

theorem callDecrypt_screen (filename password : Str) :
    (callDecrypt env filename password app).2.currentScreen = app.currentScreen := by
  unfold callDecrypt perform
  split
  · split <;> rfl
  · rfl

theorem select_sane (h : Sane app) (hs : app.currentScreen = .main) :
    Sane (select env app).2 := by
  have hfrom : app.currentScreen ≠ .encryptionInput := by
    rw [hs]
    decide
  unfold select
  split
  · split
    · exact h.goto hfrom (by decide) (by decide) (by decide)
    · exact h
  · split
    · exact h.goto hfrom (by decide) (by decide) (by decide)
    · exact h
    · exact h
  · exact { h with
      picked := fun hs => (by cases hs)
      chosen := fun hs => (by cases hs)
      asked := fun hs => (by cases hs)
      idle := fun _ => h.idle hfrom }
  · exact { h with
      picked := fun _ hpath => (by cases hpath)
      chosen := fun hs => (by cases hs)
      asked := fun hs => (by cases hs)
      idle := fun _ => h.idle hfrom }
  · exact h

theorem mainInput_sane (h : Sane app) (hs : app.currentScreen = .main) :
    Sane (mainInput env key app).2 := by
  have hprevious : Sane
      { app with menuState := previousIndex app.menuItems.length app.menuState } := by
    refine { h with row := fun i hi => ?_ }
    rw [h.four] at hi
    exact previousIndex_lt (by decide) h.row hi
  have hnext : Sane { app with menuState := nextIndex app.menuItems.length app.menuState } := by
    refine { h with row := fun i hi => ?_ }
    rw [h.four] at hi
    exact nextIndex_lt (by decide) hi
  unfold mainInput
  split
  · exact h
  · exact h
  · exact hprevious
  · exact hprevious
  · exact hnext
  · exact hnext
  · exact select_sane h hs
  · exact select_sane h hs
  · exact select_sane h hs
  · exact h

theorem keyResultsInput_sane (h : Sane app) (hs : app.currentScreen = .keyResults) :
    Sane (keyResultsInput key app) := by
  have hfrom : app.currentScreen ≠ .encryptionInput := by
    rw [hs]
    decide
  unfold keyResultsInput
  split
  · exact h.goto hfrom (by decide) (by decide) (by decide)
  · exact h.goto hfrom (by decide) (by decide) (by decide)
  · exact h

theorem fileSelectInput_sane (h : Sane app) (hs : app.currentScreen = .encryptFileSelect) :
    Sane (fileSelectInput lib key app).2 := by
  have hfrom : app.currentScreen ≠ .encryptionInput := by
    rw [hs]
    decide
  unfold fileSelectInput
  split
  · exact h.goto hfrom (by decide) (by decide) (by decide)
  · exact h.goto hfrom (by decide) (by decide) (by decide)
  · split
    · exact { h with
        picked := fun _ _ => rfl
        chosen := fun _ => rfl
        asked := fun hs => (by cases hs)
        idle := fun _ => h.idle hfrom }
    · exact h
  · split
    · exact { h with }
    · exact h

theorem submitIntents_sane (h : Sane app) (hs : app.currentScreen = .intentSelection) :
    Sane (submitIntents lib env app).2 := by
  have hfrom : app.currentScreen ≠ .encryptionInput := by
    rw [hs]
    decide
  unfold submitIntents
  split_ifs with hnone hpath honly
  · exact h
  · -- the signature alone needs no further input
    have hcall : Sane (callEncrypt lib env "Sr25519()".toList app).2 := h.callEncrypt _
    have hscreen : (callEncrypt lib env "Sr25519()".toList app).2.currentScreen ≠
        .encryptionInput := by
      rwa [callEncrypt_screen]
    split
    · next app' happ =>
      rw [happ] at hcall hscreen
      exact { hcall.leave hscreen with asked := fun hs => (by cases hs) }
    · exact hcall
  · exact { h with
      picked := fun hs => (by cases hs)
      chosen := fun _ => h.picked hs hpath
      asked := fun hs => (by cases hs)
      idle := fun hs => absurd rfl hs }
  · refine { h with
      picked := fun hs => (by cases hs)
      chosen := fun hs => (by cases hs)
      asked := fun _ => ?_
      idle := fun _ => h.idle hfrom }
    show (app.displayPasswordInput || app.displayContractAddressInput || app.sr25519Intent) = true
    simp only [Bool.and_eq_true, Bool.not_eq_true', not_and, Bool.not_eq_false] at hnone
    by_cases hsig : app.sr25519Intent = true
    · simp [hsig]
    · by_cases hcontract : app.displayContractAddressInput = true
      · simp [hcontract]
      · simp [hnone ⟨by simpa using hsig, by simpa using hcontract⟩]

theorem toggle_sane (h : Sane app) {i : Nat} {app' : App Area Explorer}
    (htoggle : toggle i app = some app') : Sane app' := by
  unfold toggle at htoggle
  split_ifs at htoggle
  obtain rfl := Option.some.inj htoggle
  refine { h with three := ?_ }
  rw [List.length_modify, h.three]

/-- `Enter` shows the inputs of the ticked intents, with the first one selected. -/
theorem shown_sane (h : Sane app) (hs : app.currentScreen = .intentSelection)
    (password psp22 sr25519 : Bool) : Sane { app with
      displayPasswordInput := password
      displayContractAddressInput := psp22
      sr25519Intent := sr25519 } := by
  have hzero : app.encryptInputSelection = 0 := h.idle (by rw [hs]; decide)
  refine { h with asked := fun hd => ?_, input := ?_ }
  · rw [hs] at hd
    cases hd
  · show app.encryptInputSelection < _
    rw [hzero]
    exact shownInputs_pos _

theorem intentsInput_sane (h : Sane app) (hs : app.currentScreen = .intentSelection) :
    Sane (intentsInput lib env key app).2 := by
  have hfrom : app.currentScreen ≠ .encryptionInput := by
    rw [hs]
    decide
  unfold intentsInput
  split
  · exact h.leave hfrom
  · exact h.leave hfrom
  · split
    · exact submitIntents_sane (shown_sane h hs _ _ _) hs
    · exact h
  · split
    · split
      · next htoggle => exact toggle_sane h htoggle
      · exact h
    · exact h
  · refine { h with cursor := fun i hi => ?_ }
    rw [h.three] at hi
    exact nextIndex_lt (by decide) hi
  · refine { h with cursor := fun i hi => ?_ }
    rw [h.three] at hi
    exact previousIndex_lt (by decide) h.cursor hi
  · exact h

theorem submitEncryption_sane (h : Sane app) (intentStr : Str) :
    Sane (submitEncryption lib env intentStr app).2 := by
  have hcall : Sane (callEncrypt lib env (signedPart app.sr25519Intent intentStr) app).2 :=
    h.callEncrypt _
  unfold submitEncryption
  split
  · next app' happ =>
    rw [happ] at hcall
    exact hcall.cleanEncryption
  · exact hcall

theorem encryptionEnter_sane (h : Sane app) : Sane (encryptionEnter lib env app).2 := by
  unfold encryptionEnter
  extract_lets password contractAddress tokenCount
  split_ifs
  · exact h
  · exact submitEncryption_sane h _
  · exact h
  · exact submitEncryption_sane h _
  · exact h
  · exact submitEncryption_sane h _

theorem encryptionTab_sane (h : Sane app) (hs : app.currentScreen = .encryptionInput) :
    Sane (encryptionTab app) := by
  have hinput := h.input
  unfold encryptionTab
  unfold shownInputs at hinput
  split_ifs with hboth hcontract
  · rw [Bool.and_eq_true] at hboth
    refine { h with idle := fun hne => absurd hs hne, input := ?_ }
    show (app.encryptInputSelection + 1) % 3 < shownInputs app
    rw [shownInputs, if_pos hboth.1, if_pos hboth.2]
    exact Nat.mod_lt _ (by decide)
  · rw [Bool.and_eq_true, not_and] at hboth
    refine { h with idle := fun hne => absurd hs hne, input := ?_ }
    show (app.encryptInputSelection + 1) % 2 < shownInputs app
    rw [shownInputs, if_pos hcontract, if_neg (hboth hcontract)]
    exact Nat.mod_lt _ (by decide)
  · exact h

theorem matchNumChars_sane (h : Sane app) : Sane (matchNumChars lib key app) := by
  unfold matchNumChars
  split
  · split_ifs
    · exact h
    · exact { h with }
  iterate 10 exact { h with }
  · exact h

theorem encryptionTyped_sane (h : Sane app) : Sane (encryptionTyped lib key app) := by
  unfold encryptionTyped
  split_ifs
  · split
    · exact { h with }
    · exact { h with }
    · exact matchNumChars_sane h
    · exact h
  · split
    · exact { h with }
    · exact matchNumChars_sane h
    · exact h
  · exact { h with }

theorem encryptionInput_sane (h : Sane app) (hs : app.currentScreen = .encryptionInput) :
    Sane (encryptionInput lib env key app).2 := by
  unfold encryptionInput
  split
  · exact h.cleanEncryption
  · exact encryptionTab_sane h hs
  · exact encryptionEnter_sane h
  · exact encryptionTyped_sane h

theorem decryptEnter_sane (h : Sane app) (hs : app.currentScreen = .decrypt) :
    Sane (decryptEnter lib env app).2 := by
  unfold decryptEnter
  extract_lets filename password
  split_ifs
  · exact h
  · have hcall : Sane (callDecrypt env filename password app).2 := h.callDecrypt _ _
    have hscreen : (callDecrypt env filename password app).2.currentScreen ≠
        .encryptionInput := by
      rw [callDecrypt_screen, hs]
      decide
    split
    · next app' happ =>
      rw [happ] at hcall hscreen
      exact hcall.cleanDecryption hscreen
    · exact hcall

theorem decryptInput_sane (h : Sane app) (hs : app.currentScreen = .decrypt) :
    Sane (decryptInput lib env key app).2 := by
  unfold decryptInput
  split
  · refine h.cleanDecryption ?_
    rw [hs]
    decide
  · split_ifs
    · exact { h with field := Nat.mod_lt _ (by decide) }
    · exact h
  · exact decryptEnter_sane h hs
  · unfold decryptTyped
    split_ifs <;> exact { h with }

variable (lib env key) in
theorem handleKey_sane (h : Sane app) : Sane (handleKey lib env key app).2 := by
  unfold handleKey
  split
  · next hs => exact mainInput_sane h hs
  · next hs => exact keyResultsInput_sane h hs
  · next hs => exact fileSelectInput_sane h hs
  · next hs => exact encryptionInput_sane h hs
  · next hs => exact decryptInput_sane h hs
  · next hs => exact intentsInput_sane h hs

theorem run_sane (h : Sane app) (events : List (MenuEnv × KeyEvent)) :
    Sane (run lib events app).2 := by
  induction events generalizing app with
  | nil => exact h
  | cons event events ih =>
    obtain ⟨env, key⟩ := event
    have hstep := handleKey_sane lib env key h
    rw [run]
    split
    · next app' happ =>
      rw [happ] at hstep
      exact ih hstep
    · exact hstep

/-- What is outside of the menus and ends the program at a key press: keys cannot
be made or listed, a witness finds no key pair or no nonce, or a call does not
return. -/
inductive Fails (lib : MenuLib Area Explorer) (env : MenuEnv) (key : KeyEvent)
    (app : App Area Explorer) : Prop where
  | generate (hs : app.currentScreen = .main) (hrow : app.menuState = some 0)
      (h : env.generateKeys = false)
  | list (hs : app.currentScreen = .main) (hrow : app.menuState = some 1)
      (h : env.listKeys = .panic)
  | wallet (hs : app.currentScreen = .decrypt) (hkey : key.code = .enter) (h : env.wallet = none)
  | nonce (hs : app.currentScreen = .decrypt) (hkey : key.code = .enter)
      (hsig : app.sr25519Intent = true) {wallet : Wallet} (hwallet : env.wallet = some wallet)
      (h : ∀ nonce,
        SubstrateBackend.nonce env.chain (decodePublicKey env.P wallet.address) ≠ .ok nonce)
  | call (call : Call)
      (hcall : (handleKey lib env key app).2.calls = app.calls ++ [call])
      (h : env.returns call = false)

theorem ok_ne_panic {u : Unit} : (.ok u : Outcome Exit Unit) ≠ .panic := nofun

theorem err_ne_panic {exit : Exit} : (.err exit : Outcome Exit Unit) ≠ .panic := nofun

/-- A panic comes from the call that was made. -/
def CallPanics (env : MenuEnv) (app : App Area Explorer)
    (r : Outcome Exit Unit × App Area Explorer) : Prop :=
  r.1 = .panic → ∃ call, env.returns call = false ∧ r.2.calls = app.calls ++ [call]

theorem perform_panics (call : Call) : CallPanics env app (perform env call app) := by
  intro h
  unfold perform at h ⊢
  cases hreturns : env.returns call with
  | true => simp [hreturns] at h
  | false => exact ⟨call, hreturns, rfl⟩

/-- The path was picked before, so only the call itself can fail. -/
theorem callEncrypt_panics (hpath : app.filePath.isSome = true) (intentStr : Str) :
    CallPanics env app (callEncrypt lib env intentStr app) := by
  obtain ⟨path, hpath⟩ := Option.isSome_iff_exists.mp hpath
  unfold callEncrypt
  rw [hpath]
  exact perform_panics _

theorem signatureHex_cases (env : MenuEnv) (wallet : Wallet) :
    (∃ s, signatureHex env wallet = .ok s) ∨ ∀ nonce,
      SubstrateBackend.nonce env.chain (decodePublicKey env.P wallet.address) ≠ .ok nonce := by
  by_cases h : ∃ nonce,
      SubstrateBackend.nonce env.chain (decodePublicKey env.P wallet.address) = .ok nonce
  · obtain ⟨nonce, hnonce⟩ := h
    refine Or.inl ⟨Hex.text (wallet.sign (leBytes 4 nonce.toNat)).1, ?_⟩
    rw [signatureHex, hnonce]
    rfl
  · exact Or.inr (not_exists.mp h)

theorem prepareWitnessString_cases (env : MenuEnv) (password : Str) (app : App Area Explorer) :
    (∃ witness, prepareWitnessString env password app = .ok witness) ∨ env.wallet = none ∨
      app.sr25519Intent = true ∧ ∃ wallet, env.wallet = some wallet ∧ ∀ nonce,
        SubstrateBackend.nonce env.chain (decodePublicKey env.P wallet.address) ≠ .ok nonce := by
  unfold prepareWitnessString
  cases hwallet : env.wallet with
  | none => exact Or.inr (Or.inl rfl)
  | some wallet =>
    simp only [Outcome.expect, Outcome.ok_bind]
    rcases signatureHex_cases env wallet with ⟨s, hs⟩ | hnonce
    · left
      rw [hs]
      split <;> exact ⟨_, rfl⟩
    · cases hsig : app.sr25519Intent with
      | true => exact Or.inr (Or.inr ⟨rfl, wallet, rfl, hnonce⟩)
      | false =>
        left
        split <;> first | exact ⟨_, rfl⟩ | next h => cases h

theorem select_fails (hs : app.currentScreen = .main) (h : (select env app).1 = .panic) :
    Fails lib env key app := by
  unfold select at h
  split at h
  · next hrow =>
    split_ifs at h with hmade
    exact .generate hs hrow (Bool.eq_false_iff.mpr hmade)
  · next hrow =>
    split at h
    · cases h
    · cases h
    · next hpanic => exact .list hs hrow hpanic
  all_goals cases h

theorem submitEncryption_panics (hpath : app.filePath.isSome = true) (intentStr : Str) :
    CallPanics env app (submitEncryption lib env intentStr app) := by
  have hpanics : CallPanics env app
      (callEncrypt lib env (signedPart app.sr25519Intent intentStr) app) :=
    callEncrypt_panics hpath _
  unfold submitEncryption
  split
  · exact nofun
  · exact hpanics

theorem encryptionEnter_panics (hpath : app.filePath.isSome = true) :
    CallPanics env app (encryptionEnter lib env app) := by
  unfold encryptionEnter
  extract_lets password contractAddress tokenCount
  split_ifs <;> first | exact submitEncryption_panics hpath _ | exact nofun

theorem encryptionInput_panics (hpath : app.filePath.isSome = true) :
    CallPanics env app (encryptionInput lib env key app) := by
  unfold encryptionInput
  split
  · exact nofun
  · exact nofun
  · exact encryptionEnter_panics hpath
  · exact nofun

theorem submitIntents_panics (hpath : app.isEncryptPath = true → app.filePath.isSome = true) :
    CallPanics env app (submitIntents lib env app) := by
  unfold submitIntents
  split_ifs with hnone hencrypt honly
  · exact nofun
  · have hpanics : CallPanics env app (callEncrypt lib env "Sr25519()".toList app) :=
      callEncrypt_panics (hpath hencrypt) _
    split
    · exact nofun
    · exact hpanics
  · exact nofun
  · exact nofun

theorem intentsInput_panics (hsane : Sane app) (hs : app.currentScreen = .intentSelection) :
    CallPanics env app (intentsInput lib env key app) := by
  have hthree := hsane.three
  unfold intentsInput
  split
  · exact nofun
  · exact nofun
  · split
    · exact submitIntents_panics fun hencrypt => hsane.picked hs hencrypt
    · next hmissing =>
      -- the list has its three rows
      exact absurd (List.getElem?_eq_getElem (show 2 < _ by omega)) (hmissing _ _ _
        (List.getElem?_eq_getElem (show 0 < _ by omega))
        (List.getElem?_eq_getElem (show 1 < _ by omega)))
  · split
    · next selected hselected =>
      have hlt := hsane.cursor selected hselected
      rw [toggle, if_pos (by omega)]
      exact nofun
    · exact nofun
  all_goals exact nofun

theorem decryptEnter_fails (hs : app.currentScreen = .decrypt) (hkey : key.code = .enter)
    (h : (decryptEnter lib env app).1 = .panic) : Fails lib env key app := by
  have hstep : handleKey lib env key app = decryptEnter lib env app := by
    rw [handleKey, hs]
    simp only [decryptInput, hkey]
  unfold decryptEnter at h
  extract_lets filename password at h
  split_ifs at h with hempty
  rcases prepareWitnessString_cases env password app with hmade | hwallet | hnonce
  · obtain ⟨witness, hwitness⟩ := hmade
    have hcall : callDecrypt env filename password app =
        perform env (.decrypt configPath filename witness filename contractAddr) app := by
      rw [callDecrypt, hwitness]
    cases hreturns : env.returns (.decrypt configPath filename witness filename contractAddr) with
    | true =>
      rw [hcall, perform, if_pos hreturns] at h
      cases h
    | false =>
      refine .call _ ?_ hreturns
      have hpanic : perform env (.decrypt configPath filename witness filename contractAddr) app =
          (.panic, { app with calls := app.calls ++
            [.decrypt configPath filename witness filename contractAddr] }) := by
        rw [perform, hreturns]
        rfl
      rw [hstep, decryptEnter, if_neg hempty, hcall, hpanic]
  · exact .wallet hs hkey hwallet
  · obtain ⟨hsig, wallet, hwallet, hnonce⟩ := hnonce
    exact .nonce hs hkey hsig hwallet hnonce

theorem mainInput_fails (hs : app.currentScreen = .main)
    (h : (mainInput env key app).1 = .panic) : Fails lib env key app := by
  unfold mainInput at h
  split at h <;> first | exact select_fails hs h | cases h

theorem fileSelectInput_ne_panic : (fileSelectInput lib key app).1 ≠ .panic := by
  unfold fileSelectInput
  split
  · exact ok_ne_panic
  · exact ok_ne_panic
  · split <;> exact ok_ne_panic
  · split
    · exact ok_ne_panic
    · exact err_ne_panic

theorem decryptInput_fails (hs : app.currentScreen = .decrypt)
    (h : (decryptInput lib env key app).1 = .panic) : Fails lib env key app := by
  unfold decryptInput at h
  split at h
  · cases h
  · split_ifs at h
  · next hkey => exact decryptEnter_fails hs hkey h
  · cases h

theorem handleKey_fails (hsane : Sane app) (h : (handleKey lib env key app).1 = .panic) :
    Fails lib env key app := by
  have hcall (hmade : CallPanics env app (handleKey lib env key app)) :
      Fails lib env key app := by
    obtain ⟨call, hreturns, hcalls⟩ := hmade h
    exact .call call hcalls hreturns
  cases hs : app.currentScreen with
  | main =>
    rw [handleKey, hs] at h
    exact mainInput_fails hs h
  | keyResults =>
    rw [handleKey, hs] at h
    cases h
  | encryptFileSelect =>
    rw [handleKey, hs] at h
    exact absurd h fileSelectInput_ne_panic
  | encryptionInput =>
    apply hcall
    rw [handleKey, hs]
    exact encryptionInput_panics (hsane.chosen hs)
  | decrypt =>
    rw [handleKey, hs] at h
    exact decryptInput_fails hs h
  | intentSelection =>
    apply hcall
    rw [handleKey, hs]
    exact intentsInput_panics hsane hs

end Entmoot

end Fangorn
