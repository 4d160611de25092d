import Fangorn.EntmootRuns
import Fangorn.Lib.Splitting
import Fangorn.Lib.Decimal
import Fangorn.PasswordAccess
import Fangorn.TokenGate

/-! What the calls of the terminal client carry: the file that was picked, the
intents that were ticked and the texts that were typed for them. -/

namespace Fangorn

open Rust Ink Scale

namespace Entmoot

variable {Area Explorer : Type} {lib : MenuLib Area Explorer} {env : MenuEnv} {key : KeyEvent}
  {app app' : App Area Explorer}

structure Policy where
  password : Option Str
  token : Option (Str × Str)
  signature : Bool

def Policy.conditions (policy : Policy) : List Str :=
  policy.password.toList.map passwordPart ++
    policy.token.toList.map fun token => psp22Part token.1 token.2

def Policy.parts (policy : Policy) : List Str :=
  policy.conditions ++ if policy.signature then ["Sr25519()".toList] else []

def Policy.text (policy : Policy) : Str := " && ".toList.intercalate policy.parts

structure Policy.Filled (policy : Policy) : Prop where
  some_part : policy.parts ≠ []
  password : policy.password ≠ some []
  token : ∀ address count, policy.token = some (address, count) → address ≠ [] ∧ count ≠ []

def witnessParts (password : Option Str) (token : Bool) (signature : Option Str) (address : Str) :
    List Str :=
  password.toList ++ (if token then [address] else []) ++
    signature.toList.map fun signature => address ++ signature

inductive Field where
  | filename
  | password
  | contractAddress
  | tokenCount
  deriving DecidableEq

def fieldArea (app : App Area Explorer) : Field → Area
  | .filename => app.filenameInput
  | .password => app.passwordInput
  | .contractAddress => app.contractAddressInput
  | .tokenCount => app.tokenCountInput

def withField (area : Area) (app : App Area Explorer) : Field → App Area Explorer
  | .filename => { app with filenameInput := area }
  | .password => { app with passwordInput := area }
  | .contractAddress => { app with contractAddressInput := area }
  | .tokenCount => { app with tokenCountInput := area }

/-- The field that is lit up and takes the keys. -/
def focus (app : App Area Explorer) : Option Field :=
  match app.currentScreen with
  | .encryptionInput =>
    if app.displayContractAddressInput && app.displayPasswordInput then
      match app.encryptInputSelection with
      | 0 => some .password
      | 1 => some .contractAddress
      | 2 => some .tokenCount
      | _ => none
    else if app.displayContractAddressInput then
      match app.encryptInputSelection with
      | 0 => some .contractAddress
      | 1 => some .tokenCount
      | _ => none
    else some .password
  | .decrypt =>
    if app.displayPasswordInput && app.decryptInputSelection != 0 then some .password
    else some .filename
  | _ => none

def nonzeroDigits : List Char := ['1', '2', '3', '4', '5', '6', '7', '8', '9']

section Forms

variable (lib)

/-- What a key makes of a field. -/
def typeKey : Field → KeyEvent → Area → Area
  | .tokenCount, key, area =>
    match key.code with
    | .char c =>
      if c ∈ nonzeroDigits ∨ c = '0' ∧ text lib area ≠ [] then lib.input key area else area
    | .backspace => lib.input key area
    | _ => area
  | _, key, area => lib.input key area

/-- A key goes into the field that is lit up. -/
def typeInto (key : KeyEvent) (app : App Area Explorer) : App Area Explorer :=
  match focus app with
  | some field => withField (typeKey lib field key (fieldArea app field)) app field
  | none => app

/-- What was picked, ticked and typed, the keys of each field in their order. -/
structure Form where
  path : Option Str
  ticks : Nat → Bool
  typed : Field → List KeyEvent

namespace Form

def blank : Form := ⟨none, fun _ => false, fun _ => []⟩

def area (form : Form) (field : Field) : Area :=
  (form.typed field).foldl (fun area key => typeKey lib field key area) lib.newArea

def text (form : Form) (field : Field) : Str := Entmoot.text lib (form.area lib field)

def typeIn (field : Field) (key : KeyEvent) (form : Form) : Form :=
  { form with typed := Function.update form.typed field (form.typed field ++ [key]) }

/-- What a key press does to the form, by the screens before and after it, the
lit row or field and the selected file. A form is cleared on the way back to the
main menu. -/
def press (before after : App Area Explorer) (key : KeyEvent) (form : Form) : Form :=
  match before.currentScreen with
  | .encryptFileSelect =>
    match key.code, lib.current before.fileExplorer with
    | .enter, (true, path) => { form with path := some path }
    | _, _ => form
  | .intentSelection =>
    if after.currentScreen = .main then { form with ticks := fun _ => false }
    else
      match key.code, before.intentListState with
      | .char ' ', some i => { form with ticks := Function.update form.ticks i !(form.ticks i) }
      | _, _ => form
  | .encryptionInput | .decrypt =>
    if after.currentScreen = .main then blank
    else
      match key.code, focus before with
      | .tab, _ => form
      | .enter, _ => form
      | _, some field => form.typeIn field key
      | _, none => form
  | _ => form

def policy (form : Form) : Policy where
  password := if form.ticks 0 then some (form.text lib .password) else none
  token :=
    if form.ticks 1 then some (form.text lib .contractAddress, form.text lib .tokenCount) else none
  signature := form.ticks 2

def answers (form : Form) (signature : Option Str) (address : Str) : List Str :=
  witnessParts (if form.ticks 0 then some (form.text lib .password) else none) (form.ticks 1)
    signature address

end Form

/-- The form after these key presses. -/
def fill : List (MenuEnv × KeyEvent) → App Area Explorer → Form → Form
  | [], _, form => form
  | (env, key) :: events, app, form =>
    let next := (handleKey lib env key app).2
    fill events next (form.press lib app next key)

/-- A call is made with what the form holds: no value of a ticked intent is
empty, the balance is the numeral of a positive number, and the signature is that
of the wallet for its nonce. -/
inductive Carries (env : MenuEnv) (form : Form) : Call → Prop where
  | encrypt {path : Str} (hpath : form.path = some path) (hp : (form.policy lib).Filled)
      (hcount : form.ticks 1 = true → ∃ n, 0 < n ∧ ∀ bound,
        parseUnsigned bound (form.text lib .tokenCount) = if n < bound then some n else none) :
      Carries env form (.encrypt ((lib.fileName path).getD "unknown".toList)
        ((lib.fileName path).getD "unknown".toList) configPath keystorePath
        (form.policy lib).text contractAddr)
  | decrypt {wallet : Wallet} {signature : Option Str} (hwallet : env.wallet = some wallet)
      (hsig : signature.isSome = form.ticks 2)
      (hsigned : ∀ s, signature = some s → signatureHex env wallet = .ok s)
      (hname : form.text lib .filename ≠ [])
      (hpw : form.ticks 0 = true → form.text lib .password ≠ [])
      (hticked : (form.ticks 0 || form.ticks 1 || form.ticks 2) = true) :
      Carries env form (.decrypt configPath (form.text lib .filename)
        ([','].intercalate (form.answers lib signature wallet.address))
        (form.text lib .filename) contractAddr)

/-- The screens show the form. -/
structure Records (app : App Area Explorer) (form : Form) : Prop where
  path : app.filePath = form.path
  filename : app.filenameInput = form.area lib .filename
  password : app.passwordInput = form.area lib .password
  contractAddress : app.contractAddressInput = form.area lib .contractAddress
  tokenCount : app.tokenCountInput = form.area lib .tokenCount
  ticks : ∀ i < 3, (app.intentListItems[i]?).map Prod.snd = some (form.ticks i)
  shown : app.currentScreen = .encryptionInput ∨ app.currentScreen = .decrypt →
    app.displayPasswordInput = form.ticks 0 ∧ app.displayContractAddressInput = form.ticks 1 ∧
      app.sr25519Intent = form.ticks 2
  ticked : app.currentScreen = .encryptionInput → form.ticks 0 = true ∨ form.ticks 1 = true

end Forms

variable (lib) in
theorem Form.area_typeIn (form : Form) (field : Field) (key : KeyEvent) (g : Field) :
    (form.typeIn field key).area lib g =
      if g = field then typeKey lib field key (form.area lib field) else form.area lib g := by
  unfold Form.area Form.typeIn
  dsimp only
  split_ifs with hg
  · subst hg
    rw [Function.update_self, List.foldl_concat]
  · rw [Function.update_of_ne hg]

theorem typeKey_char {c : Char} (hkey : key.code = .char c) (area : Area) :
    typeKey lib .tokenCount key area =
      if c ∈ nonzeroDigits ∨ c = '0' ∧ text lib area ≠ [] then lib.input key area else area := by
  obtain ⟨code, modifiers⟩ := key
  obtain rfl : code = .char c := hkey
  rfl

theorem typeKey_backspace (hkey : key.code = .backspace) (area : Area) :
    typeKey lib .tokenCount key area = lib.input key area := by
  obtain ⟨code, modifiers⟩ := key
  obtain rfl : code = .backspace := hkey
  rfl

theorem typeKey_other (hchar : ∀ c, key.code ≠ .char c) (hback : key.code ≠ .backspace)
    (area : Area) : typeKey lib .tokenCount key area = area := by
  obtain ⟨code, modifiers⟩ := key
  cases code with
  | char c => exact absurd rfl (hchar c)
  | backspace => exact absurd rfl hback
  | _ => rfl

/-- The keys of the balance field, told by their characters. -/
theorem matchNumChars_eq : matchNumChars lib key app =
    { app with tokenCountInput := typeKey lib .tokenCount key app.tokenCountInput } := by
  unfold matchNumChars
  split
  · next hkey =>
    rw [typeKey_char hkey]
    by_cases hempty : text lib app.tokenCountInput = []
    · rw [if_pos hempty, if_neg (by simp [hempty, nonzeroDigits])]
    · rw [if_neg hempty, if_pos (Or.inr ⟨rfl, hempty⟩)]
  iterate 9 next hkey => rw [typeKey_char hkey, if_pos (Or.inl (by decide))]
  · next hkey => rw [typeKey_backspace hkey]
  · next h0 h1 h2 h3 h4 h5 h6 h7 h8 h9 hback =>
    cases hcode : key.code with
    | char c =>
      have hother : ¬ (c ∈ nonzeroDigits ∨ c = '0' ∧ text lib app.tokenCountInput ≠ []) := by
        rintro (hmem | ⟨rfl, -⟩)
        · simp only [nonzeroDigits, List.mem_cons, List.not_mem_nil, or_false] at hmem
          rcases hmem with rfl | rfl | rfl | rfl | rfl | rfl | rfl | rfl | rfl
          · exact h1 hcode
          · exact h2 hcode
          · exact h3 hcode
          · exact h4 hcode
          · exact h5 hcode
          · exact h6 hcode
          · exact h7 hcode
          · exact h8 hcode
          · exact h9 hcode
        · exact h0 hcode
      rw [typeKey_char hcode, if_neg hother]
    | _ => rw [typeKey_other (by simp [hcode]) hback]

namespace Records

theorem initial (lib : MenuLib Area Explorer) (explorer : Explorer) :
    Records lib (new lib explorer) .blank where
  path := rfl
  filename := rfl
  password := rfl
  contractAddress := rfl
  tokenCount := rfl
  ticks i hi := by
    obtain rfl | rfl | rfl : i = 0 ∨ i = 1 ∨ i = 2 := by omega
    all_goals rfl
  shown hs := by rcases hs with hs | hs <;> cases hs
  ticked hs := by cases hs

/-- Back to a screen without fields. -/
theorem goto {form : Form} (h : Records lib app form) {screen : CurrentScreen}
    (hinput : screen ≠ .encryptionInput) (hdecrypt : screen ≠ .decrypt) :
    Records lib { app with currentScreen := screen } form :=
  { h with
    shown := fun hs => hs.elim (fun hs => absurd hs hinput) fun hs => absurd hs hdecrypt
    ticked := fun hs => absurd hs hinput }

theorem leave {form : Form} (h : Records lib app form) :
    Records lib (leaveIntents app) { form with ticks := fun _ => false } where
  path := h.path
  filename := h.filename
  password := h.password
  contractAddress := h.contractAddress
  tokenCount := h.tokenCount
  ticks i hi := by
    have hi := h.ticks i hi
    obtain ⟨item, hitem, -⟩ := Option.map_eq_some_iff.mp hi
    show ((app.intentListItems.map _)[i]?).map Prod.snd = some false
    rw [List.getElem?_map, hitem]
    rfl
  shown hs := by rcases hs with hs | hs <;> cases hs
  ticked hs := by cases hs

theorem blanks {form : Form} (h : Records lib app form) (i : Nat) (hi : i < 3) :
    ((app.intentListItems.map fun item => (item.1, false))[i]?).map Prod.snd = some false :=
  h.leave.ticks i hi

theorem cleanEncryption {form : Form} (h : Records lib app form) :
    Records lib (cleanupEncryption lib app) .blank where
  path := rfl
  filename := rfl
  password := rfl
  contractAddress := rfl
  tokenCount := rfl
  ticks := h.blanks
  shown hs := by rcases hs with hs | hs <;> cases hs
  ticked hs := by cases hs

theorem cleanDecryption {form : Form} (h : Records lib app form) :
    Records lib (cleanupDecryption lib app) .blank where
  path := rfl
  filename := rfl
  password := rfl
  contractAddress := rfl
  tokenCount := rfl
  ticks := h.blanks
  shown hs := by rcases hs with hs | hs <;> cases hs
  ticked hs := by cases hs

theorem perform {form : Form} (h : Records lib app form) (call : Call) :
    Records lib (perform env call app).2 form := by
  unfold Entmoot.perform
  split <;> exact { h with }

theorem callEncrypt {form : Form} (h : Records lib app form) (intentStr : Str) :
    Records lib (callEncrypt lib env intentStr app).2 form := by
  unfold Entmoot.callEncrypt
  split
  · exact h
  · exact h.perform _

theorem callDecrypt {form : Form} (h : Records lib app form) (filename password : Str) :
    Records lib (callDecrypt env filename password app).2 form := by
  unfold Entmoot.callDecrypt
  split
  · exact h.perform _
  · exact h

end Records

section Press

variable {form : Form}

theorem press_picked (hs : app.currentScreen = .encryptFileSelect) (hkey : key.code = .enter)
    {path : Str} (hfile : lib.current app.fileExplorer = (true, path)) :
    form.press lib app app' key = { form with path := some path } := by
  rw [Form.press, hs, hkey, hfile]

theorem press_unpicked (hs : app.currentScreen = .encryptFileSelect)
    (h : key.code = .enter → (lib.current app.fileExplorer).1 = false) :
    form.press lib app app' key = form := by
  rw [Form.press, hs]
  dsimp only
  split
  · next path hkey hfile =>
    have hno := h hkey
    rw [hfile] at hno
    cases hno
  · rfl

theorem press_left (hs : app.currentScreen = .intentSelection)
    (hafter : app'.currentScreen = .main) :
    form.press lib app app' key = { form with ticks := fun _ => false } := by
  rw [Form.press, hs]
  dsimp only
  rw [if_pos hafter]

theorem press_ticked (hs : app.currentScreen = .intentSelection)
    (hafter : app'.currentScreen ≠ .main) (hkey : key.code = .char ' ') {i : Nat}
    (hi : app.intentListState = some i) : form.press lib app app' key =
      { form with ticks := Function.update form.ticks i !(form.ticks i) } := by
  rw [Form.press, hs]
  dsimp only
  rw [if_neg hafter, hkey, hi]
  rfl

theorem press_unticked (hs : app.currentScreen = .intentSelection)
    (hafter : app'.currentScreen ≠ .main)
    (h : key.code = .char ' ' → app.intentListState = none) :
    form.press lib app app' key = form := by
  rw [Form.press, hs]
  dsimp only
  rw [if_neg hafter]
  split
  · next i hkey hi =>
    rw [h hkey] at hi
    cases hi
  · rfl

theorem press_cleared (hs : app.currentScreen = .encryptionInput ∨ app.currentScreen = .decrypt)
    (hafter : app'.currentScreen = .main) : form.press lib app app' key = .blank := by
  rcases hs with hs | hs <;>
  · rw [Form.press, hs]
    dsimp only
    rw [if_pos hafter]

theorem press_typed (hs : app.currentScreen = .encryptionInput ∨ app.currentScreen = .decrypt)
    (hafter : app'.currentScreen ≠ .main) (htab : key.code ≠ .tab) (henter : key.code ≠ .enter)
    {field : Field} (hfocus : focus app = some field) :
    form.press lib app app' key = form.typeIn field key := by
  rcases hs with hs | hs <;>
  · rw [Form.press, hs]
    dsimp only
    rw [if_neg hafter]
    split
    · next h => exact absurd h htab
    · next h => exact absurd h henter
    · next lit hlit _ _ =>
      rw [Option.some.inj (hfocus.symm.trans hlit)]
    · next hnone _ _ =>
      rw [hfocus] at hnone
      cases hnone

theorem press_untyped (hs : app.currentScreen = .encryptionInput ∨ app.currentScreen = .decrypt)
    (hafter : app'.currentScreen ≠ .main)
    (h : key.code ≠ .tab → key.code ≠ .enter → focus app = none) :
    form.press lib app app' key = form := by
  rcases hs with hs | hs <;>
  · rw [Form.press, hs]
    dsimp only
    rw [if_neg hafter]
    split
    · rfl
    · rfl
    · next field hfocus htab henter =>
      rw [h htab henter] at hfocus
      cases hfocus
    · rfl

end Press

section Screens

variable {form : Form}

theorem select_records (h : Records lib app form) : Records lib (select env app).2 form := by
  have hmain {screen : CurrentScreen} (path : Bool) (hinput : screen ≠ .encryptionInput)
      (hdecrypt : screen ≠ .decrypt) :
      Records lib { app with isEncryptPath := path, currentScreen := screen } form :=
    { h.goto hinput hdecrypt with }
  unfold select
  split
  · split
    · exact h.goto (by decide) (by decide)
    · exact h
  · split
    · exact h.goto (by decide) (by decide)
    · exact h
    · exact h
  · exact hmain true (by decide) (by decide)
  · exact hmain false (by decide) (by decide)
  · exact h

theorem mainInput_records (h : Records lib app form) :
    Records lib (mainInput env key app).2 form := by
  unfold mainInput
  split
  · exact h
  · exact h
  · exact { h with }
  · exact { h with }
  · exact { h with }
  · exact { h with }
  · exact select_records h
  · exact select_records h
  · exact select_records h
  · exact h

theorem keyResultsInput_records (h : Records lib app form) :
    Records lib (keyResultsInput key app) form := by
  unfold keyResultsInput
  split
  · exact h.goto (by decide) (by decide)
  · exact h.goto (by decide) (by decide)
  · exact h

theorem fileSelectInput_records (hs : app.currentScreen = .encryptFileSelect)
    (h : Records lib app form) : Records lib (fileSelectInput lib key app).2
      (form.press lib app (fileSelectInput lib key app).2 key) := by
  unfold fileSelectInput
  split
  · next hkey =>
    rw [press_unpicked hs fun he => by simp [hkey] at he]
    exact h.goto (by decide) (by decide)
  · next hkey =>
    rw [press_unpicked hs fun he => by simp [hkey] at he]
    exact h.goto (by decide) (by decide)
  · next hkey =>
    split
    · next path hfile =>
      rw [press_picked hs hkey hfile]
      exact { h with
        path := rfl
        shown := fun hs => (by rcases hs with hs | hs <;> cases hs)
        ticked := fun hs => (by cases hs) }
    · next hfile =>
      rw [press_unpicked hs fun _ => by rw [hfile]]
      exact h
  · next hother =>
    have hkey : key.code ≠ .enter := hother
    split
    · rw [press_unpicked hs fun he => absurd he hkey]
      exact { h with }
    · rw [press_unpicked hs fun he => absurd he hkey]
      exact h

theorem submitIntents_records {before : App Area Explorer}
    (hbefore : before.currentScreen = .intentSelection) (hkey : key.code = .enter)
    (hs : app.currentScreen = .intentSelection) (h : Records lib app form)
    (hshown : app.displayPasswordInput = form.ticks 0 ∧
      app.displayContractAddressInput = form.ticks 1 ∧ app.sr25519Intent = form.ticks 2) :
    Records lib (submitIntents lib env app).2
      (form.press lib before (submitIntents lib env app).2 key) := by
  have hnotick : key.code = .char ' ' → before.intentListState = none := by
    intro he
    rw [hkey] at he
    cases he
  unfold submitIntents
  split_ifs with hnone hpath honly
  · rw [press_unticked hbefore (by rw [hs]; decide) hnotick]
    exact h
  · have hcall : Records lib (callEncrypt lib env "Sr25519()".toList app).2 form := h.callEncrypt _
    have hscreen : (callEncrypt lib env "Sr25519()".toList app).2.currentScreen ≠ .main := by
      rw [callEncrypt_screen, hs]
      decide
    split
    · next app' happ =>
      rw [happ] at hcall
      rw [press_left hbefore rfl]
      exact { hcall.leave with shown := fun hs => by rcases hs with hs | hs <;> cases hs }
    · rw [press_unticked hbefore hscreen hnotick]
      exact hcall
  · rw [press_unticked hbefore (by simp) hnotick]
    refine { h with shown := fun _ => hshown, ticked := fun _ => ?_ }
    rw [← hshown.1, ← hshown.2.1]
    simp only [Bool.and_eq_true, Bool.not_eq_true', not_and, Bool.not_eq_false] at hnone honly
    by_cases hcontract : app.displayContractAddressInput = true
    · exact Or.inr hcontract
    · left
      rw [Bool.not_eq_true] at hcontract
      cases hsig : app.sr25519Intent with
      | true => exact honly ⟨hsig, hcontract⟩
      | false => exact hnone ⟨hsig, hcontract⟩
  · rw [press_unticked hbefore (by simp) hnotick]
    exact { h with shown := fun _ => hshown, ticked := fun hs => by cases hs }

theorem Records.ticks_of_item (h : Records lib app form) {i : Nat} (hi : i < 3)
    {item : Str × Bool} (hitem : app.intentListItems[i]? = some item) :
    item.2 = form.ticks i := by
  have hticks := h.ticks i hi
  rw [hitem] at hticks
  exact Option.some.inj hticks

theorem Records.tick (hs : app.currentScreen = .intentSelection) (h : Records lib app form)
    {items : List (Str × Bool)} {ticks : Nat → Bool}
    (hticks : ∀ j < 3, (items[j]?).map Prod.snd = some (ticks j)) :
    Records lib { app with intentListItems := items } { form with ticks := ticks } :=
  { h with
    ticks := hticks
    shown := fun hs' => by simp [hs] at hs'
    ticked := fun hs' => by simp [hs] at hs' }

theorem toggle_records (hs : app.currentScreen = .intentSelection) (h : Records lib app form)
    {i : Nat} (htoggle : toggle i app = some app') :
    app'.currentScreen = app.currentScreen ∧
      Records lib app' { form with ticks := Function.update form.ticks i !(form.ticks i) } := by
  unfold toggle at htoggle
  split_ifs at htoggle
  obtain rfl := Option.some.inj htoggle
  refine ⟨rfl, h.tick hs fun j hj => ?_⟩
  obtain ⟨item, hitem, htick⟩ := Option.map_eq_some_iff.mp (h.ticks j hj)
  rw [List.getElem?_modify, hitem, Function.update_apply, ← htick]
  by_cases hij : i = j
  · subst hij
    simp [← htick]
  · simp [hij, Ne.symm hij]

/-- A row behind the three is no intent. -/
theorem missed_records (hs : app.currentScreen = .intentSelection) (h : Records lib app form)
    {i : Nat} (htoggle : toggle i app = none) :
    Records lib app { form with ticks := Function.update form.ticks i !(form.ticks i) } := by
  unfold toggle at htoggle
  split_ifs at htoggle with hlt
  obtain ⟨item, hitem, -⟩ := Option.map_eq_some_iff.mp (h.ticks 2 (by decide))
  have hlen : 2 < app.intentListItems.length := (List.getElem?_eq_some_iff.mp hitem).1
  refine h.tick hs fun j hj => ?_
  rw [Function.update_of_ne (by omega)]
  exact h.ticks j hj

theorem intentsInput_records (hs : app.currentScreen = .intentSelection)
    (h : Records lib app form) : Records lib (intentsInput lib env key app).2
      (form.press lib app (intentsInput lib env key app).2 key) := by
  have hnomain : app.currentScreen ≠ .main := by
    rw [hs]
    decide
  unfold intentsInput
  split
  · rw [press_left hs rfl]
    exact h.leave
  · rw [press_left hs rfl]
    exact h.leave
  · next hkey =>
    split
    · next password psp22 sr25519 hpassword hpsp22 hsr25519 =>
      have hshown : Records lib { app with
          displayPasswordInput := password.2
          displayContractAddressInput := psp22.2
          sr25519Intent := sr25519.2 } form :=
        { h with shown := fun hs' => by simp [hs] at hs' }
      exact submitIntents_records hs hkey hs hshown ⟨h.ticks_of_item (by decide) hpassword,
        h.ticks_of_item (by decide) hpsp22, h.ticks_of_item (by decide) hsr25519⟩
    · rw [press_unticked hs hnomain fun he => by simp [hkey] at he]
      exact h
  · next hkey =>
    split
    · next selected hselected =>
      split
      · next app' htoggle =>
        obtain ⟨hscreen, hrecords⟩ := toggle_records hs h htoggle
        rw [press_ticked hs (by rwa [hscreen]) hkey hselected]
        exact hrecords
      · next htoggle =>
        rw [press_ticked hs hnomain hkey hselected]
        exact missed_records hs h htoggle
    · next hselected =>
      rw [press_unticked hs hnomain fun _ => hselected]
      exact h
  · next hkey =>
    rw [press_unticked hs (by exact hnomain) fun he => by simp [hkey] at he]
    exact { h with }
  · next hkey =>
    rw [press_unticked hs (by exact hnomain) fun he => by simp [hkey] at he]
    exact { h with }
  · next hspace _ _ =>
    rw [press_unticked hs hnomain fun he => absurd he hspace]
    exact h

theorem submitEncryption_records (hs : app.currentScreen = .encryptionInput)
    (hkey : key.code = .enter) (h : Records lib app form) (intentStr : Str) :
    Records lib (submitEncryption lib env intentStr app).2
      (form.press lib app (submitEncryption lib env intentStr app).2 key) := by
  have hcall : Records lib (callEncrypt lib env (signedPart app.sr25519Intent intentStr) app).2
      form := h.callEncrypt _
  have hscreen : (callEncrypt lib env (signedPart app.sr25519Intent intentStr)
      app).2.currentScreen ≠ .main := by
    rw [callEncrypt_screen, hs]
    decide
  unfold submitEncryption
  split
  · next app' happ =>
    rw [happ] at hcall
    rw [press_cleared (Or.inl hs) rfl]
    exact hcall.cleanEncryption
  · rw [press_untyped (Or.inl hs) hscreen fun _ he => absurd hkey he]
    exact hcall

theorem encryptionEnter_records (hs : app.currentScreen = .encryptionInput)
    (hkey : key.code = .enter) (h : Records lib app form) :
    Records lib (encryptionEnter lib env app).2
      (form.press lib app (encryptionEnter lib env app).2 key) := by
  have hstay : Records lib app (form.press lib app app key) := by
    rw [press_untyped (Or.inl hs) (by rw [hs]; decide) fun _ he => absurd hkey he]
    exact h
  unfold encryptionEnter
  extract_lets password contractAddress tokenCount
  split_ifs <;> first | exact hstay | exact submitEncryption_records hs hkey h _

theorem withField_records (h : Records lib app form) (field : Field) :
    Records lib (withField (typeKey lib field key (fieldArea app field)) app field)
      (form.typeIn field key) := by
  have hname := h.filename
  have hpassword := h.password
  have haddress := h.contractAddress
  have hcount := h.tokenCount
  have harea := form.area_typeIn lib field key
  cases field <;>
  · refine { h with filename := ?_, password := ?_, contractAddress := ?_, tokenCount := ?_ } <;>
    · rw [harea]
      simp [withField, fieldArea, hname, hpassword, haddress, hcount]

theorem typeInto_lit (field : Field) (hfocus : focus app = some field) : typeInto lib key app =
    withField (typeKey lib field key (fieldArea app field)) app field := by
  rw [typeInto, hfocus]

theorem typeInto_dark (hfocus : focus app = none) : typeInto lib key app = app := by
  rw [typeInto, hfocus]

theorem encryptionTyped_eq (hs : app.currentScreen = .encryptionInput) :
    encryptionTyped lib key app = typeInto lib key app := by
  unfold encryptionTyped
  split_ifs with hboth hcontract
  · have hsel : focus app = match app.encryptInputSelection with
        | 0 => some .password
        | 1 => some .contractAddress
        | 2 => some .tokenCount
        | _ => none := by
      rw [focus, hs]
      exact if_pos hboth
    have hdark (h0 : app.encryptInputSelection ≠ 0) (h1 : app.encryptInputSelection ≠ 1)
        (h2 : app.encryptInputSelection ≠ 2) : focus app = none := by
      rw [hsel]
      split <;> first | rfl | contradiction
    split
    · next h =>
      rw [typeInto_lit .password (by rw [hsel, h]; rfl)]
      rfl
    · next h =>
      rw [typeInto_lit .contractAddress (by rw [hsel, h]; rfl)]
      rfl
    · next h =>
      rw [typeInto_lit .tokenCount (by rw [hsel, h]; rfl), matchNumChars_eq]
      rfl
    · next h0 h1 h2 => rw [typeInto_dark (hdark h0 h1 h2)]
  · have hsel : focus app = match app.encryptInputSelection with
        | 0 => some .contractAddress
        | 1 => some .tokenCount
        | _ => none := by
      rw [focus, hs]
      exact (if_neg hboth).trans (if_pos hcontract)
    have hdark (h0 : app.encryptInputSelection ≠ 0) (h1 : app.encryptInputSelection ≠ 1) :
        focus app = none := by
      rw [hsel]
      split <;> first | rfl | contradiction
    split
    · next h =>
      rw [typeInto_lit .contractAddress (by rw [hsel, h]; rfl)]
      rfl
    · next h =>
      rw [typeInto_lit .tokenCount (by rw [hsel, h]; rfl), matchNumChars_eq]
      rfl
    · next h0 h1 => rw [typeInto_dark (hdark h0 h1)]
  · have hfocus : focus app = some .password := by
      rw [focus, hs]
      exact (if_neg hboth).trans (if_neg hcontract)
    rw [typeInto_lit _ hfocus]
    rfl

theorem decryptTyped_eq (hs : app.currentScreen = .decrypt) :
    decryptTyped lib key app = typeInto lib key app := by
  unfold decryptTyped
  split_ifs with hpassword
  · have hfocus : focus app = some .password := by
      rw [focus, hs]
      exact if_pos hpassword
    rw [typeInto_lit _ hfocus]
    rfl
  · have hfocus : focus app = some .filename := by
      rw [focus, hs]
      exact if_neg hpassword
    rw [typeInto_lit _ hfocus]
    rfl

theorem withField_screen (area : Area) (field : Field) :
    (withField area app field).currentScreen = app.currentScreen := by
  cases field <;> rfl

theorem typed_records (hs : app.currentScreen = .encryptionInput ∨ app.currentScreen = .decrypt)
    (htab : key.code ≠ .tab) (henter : key.code ≠ .enter) (h : Records lib app form) :
    Records lib (typeInto lib key app) (form.press lib app (typeInto lib key app) key) := by
  have hnomain : app.currentScreen ≠ .main := by
    rcases hs with hs | hs <;> rw [hs] <;> decide
  cases hfocus : focus app with
  | none =>
    rw [typeInto_dark hfocus, press_untyped hs hnomain fun _ _ => hfocus]
    exact h
  | some field =>
    rw [typeInto_lit _ hfocus, press_typed hs (by rwa [withField_screen]) htab henter hfocus]
    exact withField_records h field

theorem encryptionInput_records (hs : app.currentScreen = .encryptionInput)
    (h : Records lib app form) : Records lib (encryptionInput lib env key app).2
      (form.press lib app (encryptionInput lib env key app).2 key) := by
  unfold encryptionInput
  split
  · rw [press_cleared (Or.inl hs) rfl]
    exact h.cleanEncryption
  · next hkey =>
    have htab : (encryptionTab app).currentScreen = app.currentScreen := by
      unfold encryptionTab
      split_ifs <;> rfl
    rw [press_untyped (Or.inl hs) (by rw [htab, hs]; decide) fun he _ => absurd hkey he]
    unfold encryptionTab
    split_ifs <;> exact { h with }
  · next hkey => exact encryptionEnter_records hs hkey h
  · next htab henter =>
    rw [encryptionTyped_eq hs]
    exact typed_records (Or.inl hs) htab henter h

theorem decryptEnter_records (hs : app.currentScreen = .decrypt) (hkey : key.code = .enter)
    (h : Records lib app form) : Records lib (decryptEnter lib env app).2
      (form.press lib app (decryptEnter lib env app).2 key) := by
  have hstay {after : App Area Explorer} (hafter : after.currentScreen = app.currentScreen)
      (h : Records lib after form) : Records lib after (form.press lib app after key) := by
    rw [press_untyped (Or.inr hs) (by rw [hafter, hs]; decide) fun _ he => absurd hkey he]
    exact h
  unfold decryptEnter
  extract_lets filename password
  split_ifs
  · exact hstay rfl h
  · have hcall : Records lib (callDecrypt env filename password app).2 form := h.callDecrypt _ _
    split
    · next app' happ =>
      rw [happ] at hcall
      rw [press_cleared (Or.inr hs) rfl]
      exact hcall.cleanDecryption
    · exact hstay (callDecrypt_screen _ _) hcall

theorem decryptInput_records (hs : app.currentScreen = .decrypt) (h : Records lib app form) :
    Records lib (decryptInput lib env key app).2
      (form.press lib app (decryptInput lib env key app).2 key) := by
  have hnomain : app.currentScreen ≠ .main := by
    rw [hs]
    decide
  unfold decryptInput
  split
  · rw [press_cleared (Or.inr hs) rfl]
    exact h.cleanDecryption
  · next hkey =>
    split_ifs
    · rw [press_untyped (Or.inr hs) (by exact hnomain) fun he _ => absurd hkey he]
      exact { h with }
    · rw [press_untyped (Or.inr hs) hnomain fun he _ => absurd hkey he]
      exact h
  · next hkey => exact decryptEnter_records hs hkey h
  · next htab henter =>
    rw [decryptTyped_eq hs]
    exact typed_records (Or.inr hs) htab henter h

variable (env key) in
theorem handleKey_records (h : Records lib app form) : Records lib (handleKey lib env key app).2
    (form.press lib app (handleKey lib env key app).2 key) := by
  have hsame (hother : app.currentScreen = .main ∨ app.currentScreen = .keyResults)
      {after : App Area Explorer} (h : Records lib after form) :
      Records lib after (form.press lib app after key) := by
    rcases hother with hs | hs <;>
    · rw [Form.press, hs]
      exact h
  unfold handleKey
  split
  · next hs => exact hsame (Or.inl hs) (mainInput_records h)
  · next hs => exact hsame (Or.inr hs) (keyResultsInput_records h)
  · next hs => exact fileSelectInput_records hs h
  · next hs => exact encryptionInput_records hs h
  · next hs => exact decryptInput_records hs h
  · next hs => exact intentsInput_records hs h

end Screens

end Entmoot

end Fangorn
