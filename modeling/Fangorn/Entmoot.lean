import Fangorn.Gadgets

/-! The menus of the terminal client (`entmoot/src/main.rs`, `entmoot/src/menus`):
the screens a user walks through to encrypt and to decrypt a file, key press by
key press. `main.rs` stands in the middle of a merge, both sides of which have
these menus; the calls to `handle_encrypt` and `handle_decrypt` have parameters
that no version under `fangorn` takes, and are kept as the texts they pass.
Colours, titles, layout and the blocks around the text areas are left out. -/

namespace Fangorn

open Rust Ink Scale

inductive KeyCode where
  | esc
  | enter
  | tab
  | backspace
  | up
  | down
  | left
  | right
  | char (c : Char)
  | other (code : Nat)
  deriving DecidableEq

structure KeyEvent where
  code : KeyCode
  modifiers : Nat

inductive CurrentScreen where
  | main
  | keyResults
  | encryptFileSelect
  | encryptionInput
  | decrypt
  | intentSelection
  deriving DecidableEq

/-- The widgets: text areas, the file explorer (which may fail on a key), and
the last component of a path. -/
structure MenuLib (Area Explorer : Type) where
  newArea : Area
  input : KeyEvent → Area → Area
  lines : Area → List Str
  explore : KeyEvent → Explorer → Option Explorer
  current : Explorer → Bool × Str
  fileName : Str → Option Str

/-- The texts passed to `handle_encrypt` and `handle_decrypt`, in the order in
which the menus pass them; behind them come the node and the ticket. -/
inductive Call where
  | encrypt (messagePath filename configPath keystorePath intentStr contractAddr : Str)
  | decrypt (configPath filename witnessString ptFilename contractAddr : Str)

structure Wallet where
  address : Str
  sign : Bytes → Arr 64

/-- What a key press finds outside of the menus: whether keys can be made and
listed, the wallet of the key store, the chain, and which calls return. -/
structure MenuEnv where
  P : Primitives
  chain : Chain
  generateKeys : Bool
  listKeys : Outcome Unit Unit
  wallet : Option Wallet
  returns : Call → Bool

structure App (Area Explorer : Type) where
  menuState : Option Nat
  menuItems : List Str
  intentListState : Option Nat
  intentListItems : List (Str × Bool)
  currentScreen : CurrentScreen
  fileExplorer : Explorer
  filePath : Option Str
  filenameInput : Area
  passwordInput : Area
  contractAddressInput : Area
  tokenCountInput : Area
  decryptInputSelection : Nat
  encryptInputSelection : Nat
  displayPasswordInput : Bool
  displayContractAddressInput : Bool
  sr25519Intent : Bool
  isEncryptPath : Bool
  calls : List Call

inductive Exit where
  | quit
  | explorer
  deriving DecidableEq

def passwordPart (password : Str) : Str := "Password(".toList ++ password ++ ")".toList

def psp22Part (contractAddress tokenCount : Str) : Str :=
  "Psp22(".toList ++ contractAddress ++ ", ".toList ++ tokenCount ++ ")".toList

def signedPart (sr25519Intent : Bool) (intentStr : Str) : Str :=
  if sr25519Intent then intentStr ++ " && Sr25519()".toList else intentStr

namespace Entmoot

def configPath : Str := "config.txt".toList

def keystorePath : Str := "tmp/keystore".toList

def contractAddr : Str := "5Ccuf8QBBoqZtUPFTxwixMd9mfHLUmXhRvNfBdEU7uL1ApR7".toList

def nextIndex (len : Nat) : Option Nat → Option Nat
  | some i => some (if len - 1 ≤ i then 0 else i + 1)
  | none => some 0

def previousIndex (len : Nat) : Option Nat → Option Nat
  | some i => some (if i = 0 then len - 1 else i - 1)
  | none => some 0

variable {Area Explorer : Type}

section Handlers

variable (lib : MenuLib Area Explorer)

def new (explorer : Explorer) : App Area Explorer where
  menuState := some 0
  menuItems := ["Generate Keys".toList, "Inspect Keys".toList, "Encrypt".toList, "Decrypt".toList]
  intentListState := some 0
  intentListItems :=
    [("Password".toList, false), ("PSP22".toList, false), ("SR25519".toList, false)]
  currentScreen := .main
  fileExplorer := explorer
  filePath := none
  filenameInput := lib.newArea
  passwordInput := lib.newArea
  contractAddressInput := lib.newArea
  tokenCountInput := lib.newArea
  decryptInputSelection := 0
  encryptInputSelection := 0
  displayPasswordInput := false
  displayContractAddressInput := false
  sr25519Intent := false
  isEncryptPath := true
  calls := []

def text (area : Area) : Str := ['\n'].intercalate (lib.lines area)

def resetInputFields (app : App Area Explorer) : App Area Explorer :=
  { app with
    passwordInput := lib.newArea
    filenameInput := lib.newArea
    contractAddressInput := lib.newArea
    tokenCountInput := lib.newArea }

def resetIntentList (app : App Area Explorer) : App Area Explorer :=
  { app with
    intentListState := some 0
    intentListItems := app.intentListItems.map fun item => (item.1, false) }

section Calls

variable (env : MenuEnv)

/-- The call is made in any case; a panic in it ends the program. -/
def perform (call : Call) (app : App Area Explorer) : Outcome Exit Unit × App Area Explorer :=
  if env.returns call then (.ok (), { app with calls := app.calls ++ [call] })
  else (.panic, { app with calls := app.calls ++ [call] })

/-- The file is named by the last component of the path that was picked. -/
def callEncrypt (intentStr : Str) (app : App Area Explorer) :
    Outcome Exit Unit × App Area Explorer :=
  match app.filePath with
  | none => (.panic, app)
  | some path =>
    let filename := (lib.fileName path).getD "unknown".toList
    perform env (.encrypt filename filename configPath keystorePath intentStr contractAddr) app

def signatureHex (wallet : Wallet) : Outcome Unit Str := do
  let nonce ← (SubstrateBackend.nonce env.chain (decodePublicKey env.P wallet.address)).unwrap
  .ok (Hex.text (wallet.sign (leBytes 4 nonce.toNat)).1)

def prepareWitnessString (password : Str) (app : App Area Explorer) : Outcome Unit Str := do
  let wallet ← .expect env.wallet
  let pubkey := wallet.address
  match app.displayPasswordInput, app.displayContractAddressInput, app.sr25519Intent with
  | true, true, true => do
    let signature ← signatureHex env wallet
    .ok (password ++ ",".toList ++ pubkey ++ ",".toList ++ pubkey ++ signature)
  | false, true, true => do
    let signature ← signatureHex env wallet
    .ok (pubkey ++ ",".toList ++ pubkey ++ signature)
  | true, false, true => do
    let signature ← signatureHex env wallet
    .ok (password ++ ",".toList ++ pubkey ++ signature)
  | true, true, false => .ok (password ++ ",".toList ++ pubkey)
  | false, true, false => .ok pubkey
  | true, false, false => .ok password
  | false, false, true => do
    let signature ← signatureHex env wallet
    .ok (pubkey ++ signature)
  | false, false, false => .ok []

def callDecrypt (filename password : Str) (app : App Area Explorer) :
    Outcome Exit Unit × App Area Explorer :=
  match prepareWitnessString env password app with
  | .ok witnessString =>
    perform env (.decrypt configPath filename witnessString filename contractAddr) app
  | _ => (.panic, app)

end Calls

def openFileSelect (app : App Area Explorer) : App Area Explorer :=
  { app with isEncryptPath := true, currentScreen := .encryptFileSelect }

def openIntents (app : App Area Explorer) : App Area Explorer :=
  { app with isEncryptPath := false, currentScreen := .intentSelection }

def select (env : MenuEnv) (app : App Area Explorer) : Outcome Exit Unit × App Area Explorer :=
  match app.menuState with
  | some 0 =>
    if env.generateKeys then (.ok (), { app with currentScreen := .keyResults }) else (.panic, app)
  | some 1 =>
    match env.listKeys with
    | .ok _ => (.ok (), { app with currentScreen := .keyResults })
    | .err _ => (.ok (), app)
    | .panic => (.panic, app)
  | some 2 => (.ok (), openFileSelect app)
  | some 3 => (.ok (), openIntents app)
  | _ => (.ok (), app)

def mainInput (env : MenuEnv) (key : KeyEvent) (app : App Area Explorer) :
    Outcome Exit Unit × App Area Explorer :=
  match key.code with
  | .esc | .char 'q' => (.err .quit, app)
  | .up | .char 'k' =>
    (.ok (), { app with menuState := previousIndex app.menuItems.length app.menuState })
  | .down | .char 'j' =>
    (.ok (), { app with menuState := nextIndex app.menuItems.length app.menuState })
  | .enter | .char ' ' | .right => select env app
  | _ => (.ok (), app)

def keyResultsInput (key : KeyEvent) (app : App Area Explorer) : App Area Explorer :=
  match key.code with
  | .esc | .char 'c' => { app with currentScreen := .main }
  | _ => app

def fileSelectInput (key : KeyEvent) (app : App Area Explorer) :
    Outcome Exit Unit × App Area Explorer :=
  match key.code with
  | .esc | .char 'c' => (.ok (), { app with currentScreen := .main })
  | .enter =>
    match lib.current app.fileExplorer with
    | (true, path) =>
      (.ok (), { app with filePath := some path, currentScreen := .intentSelection })
    | (false, _) => (.ok (), app)
  | _ =>
    match lib.explore key app.fileExplorer with
    | some explorer => (.ok (), { app with fileExplorer := explorer })
    | none => (.err .explorer, app)

def leaveIntents (app : App Area Explorer) : App Area Explorer :=
  resetIntentList { app with currentScreen := .main }

def toggle (i : Nat) (app : App Area Explorer) : Option (App Area Explorer) :=
  if i < app.intentListItems.length then
    some { app with intentListItems := app.intentListItems.modify i fun item => (item.1, !item.2) }
  else none

/-- Behind `Enter` on the intents screen, once the chosen intents are read. -/
def submitIntents (env : MenuEnv) (app : App Area Explorer) :
    Outcome Exit Unit × App Area Explorer :=
  if !app.sr25519Intent && !app.displayContractAddressInput && !app.displayPasswordInput then
    (.ok (), app)
  else if app.isEncryptPath then
    if app.sr25519Intent && !app.displayContractAddressInput && !app.displayPasswordInput then
      match callEncrypt lib env "Sr25519()".toList app with
      | (.ok _, app) => (.ok (), { leaveIntents app with sr25519Intent := false })
      | r => r
    else (.ok (), { app with currentScreen := .encryptionInput })
  else (.ok (), { app with currentScreen := .decrypt })

def intentsInput (env : MenuEnv) (key : KeyEvent) (app : App Area Explorer) :
    Outcome Exit Unit × App Area Explorer :=
  match key.code with
  | .esc | .char 'q' => (.ok (), leaveIntents app)
  | .enter =>
    match app.intentListItems[0]?, app.intentListItems[1]?, app.intentListItems[2]? with
    | some password, some psp22, some sr25519 =>
      submitIntents lib env { app with
        displayPasswordInput := password.2
        displayContractAddressInput := psp22.2
        sr25519Intent := sr25519.2 }
    | _, _, _ => (.panic, app)
  | .char ' ' =>
    match app.intentListState with
    | some selected =>
      match toggle selected app with
      | some app => (.ok (), app)
      | none => (.panic, app)
    | none => (.ok (), app)
  | .down =>
    (.ok (), { app with
      intentListState := nextIndex app.intentListItems.length app.intentListState })
  | .up =>
    (.ok (), { app with
      intentListState := previousIndex app.intentListItems.length app.intentListState })
  | _ => (.ok (), app)

def cleanupEncryption (app : App Area Explorer) : App Area Explorer :=
  { resetIntentList (resetInputFields lib app) with
    filePath := none
    currentScreen := .main
    displayContractAddressInput := false
    displayPasswordInput := false
    encryptInputSelection := 0 }

/-- Digits and backspace only, and no zero in the first place. -/
def matchNumChars (key : KeyEvent) (app : App Area Explorer) : App Area Explorer :=
  match key.code with
  | .char '0' =>
    if text lib app.tokenCountInput = [] then app
    else { app with tokenCountInput := lib.input key app.tokenCountInput }
  | .char '1' | .char '2' | .char '3' | .char '4' | .char '5' | .char '6' | .char '7'
  | .char '8' | .char '9' | .backspace =>
    { app with tokenCountInput := lib.input key app.tokenCountInput }
  | _ => app

def submitEncryption (env : MenuEnv) (intentStr : Str) (app : App Area Explorer) :
    Outcome Exit Unit × App Area Explorer :=
  match callEncrypt lib env (signedPart app.sr25519Intent intentStr) app with
  | (.ok _, app) => (.ok (), cleanupEncryption lib app)
  | r => r

def encryptionEnter (env : MenuEnv) (app : App Area Explorer) :
    Outcome Exit Unit × App Area Explorer :=
  let password := text lib app.passwordInput
  let contractAddress := text lib app.contractAddressInput
  let tokenCount := text lib app.tokenCountInput
  if app.displayContractAddressInput && app.displayPasswordInput then
    if password = [] ∨ contractAddress = [] ∨ tokenCount = [] then (.ok (), app)
    else submitEncryption lib env
      (passwordPart password ++ " && ".toList ++ psp22Part contractAddress tokenCount) app
  else if app.displayContractAddressInput then
    if contractAddress = [] ∨ tokenCount = [] then (.ok (), app)
    else submitEncryption lib env (psp22Part contractAddress tokenCount) app
  else
    if password = [] then (.ok (), app)
    else submitEncryption lib env (passwordPart password) app

def encryptionTab (app : App Area Explorer) : App Area Explorer :=
  if app.displayContractAddressInput && app.displayPasswordInput then
    { app with encryptInputSelection := (app.encryptInputSelection + 1) % 3 }
  else if app.displayContractAddressInput then
    { app with encryptInputSelection := (app.encryptInputSelection + 1) % 2 }
  else app

def encryptionTyped (key : KeyEvent) (app : App Area Explorer) : App Area Explorer :=
  if app.displayContractAddressInput && app.displayPasswordInput then
    match app.encryptInputSelection with
    | 0 => { app with passwordInput := lib.input key app.passwordInput }
    | 1 => { app with contractAddressInput := lib.input key app.contractAddressInput }
    | 2 => matchNumChars lib key app
    | _ => app
  else if app.displayContractAddressInput then
    match app.encryptInputSelection with
    | 0 => { app with contractAddressInput := lib.input key app.contractAddressInput }
    | 1 => matchNumChars lib key app
    | _ => app
  else { app with passwordInput := lib.input key app.passwordInput }

def encryptionInput (env : MenuEnv) (key : KeyEvent) (app : App Area Explorer) :
    Outcome Exit Unit × App Area Explorer :=
  match key.code with
  | .esc => (.ok (), cleanupEncryption lib app)
  | .tab => (.ok (), encryptionTab app)
  | .enter => encryptionEnter lib env app
  | _ => (.ok (), encryptionTyped lib key app)

def cleanupDecryption (app : App Area Explorer) : App Area Explorer :=
  { resetIntentList (resetInputFields lib app) with
    filePath := none
    decryptInputSelection := 0
    currentScreen := .main }

def decryptEnter (env : MenuEnv) (app : App Area Explorer) :
    Outcome Exit Unit × App Area Explorer :=
  let filename := text lib app.filenameInput
  let password := if app.displayPasswordInput then text lib app.passwordInput else []
  if filename = [] ∨ (app.displayPasswordInput ∧ password = []) then (.ok (), app)
  else
    match callDecrypt env filename password app with
    | (.ok _, app) => (.ok (), cleanupDecryption lib app)
    | r => r

def decryptTyped (key : KeyEvent) (app : App Area Explorer) : App Area Explorer :=
  if app.displayPasswordInput && app.decryptInputSelection != 0 then
    { app with passwordInput := lib.input key app.passwordInput }
  else { app with filenameInput := lib.input key app.filenameInput }

def decryptInput (env : MenuEnv) (key : KeyEvent) (app : App Area Explorer) :
    Outcome Exit Unit × App Area Explorer :=
  match key.code with
  | .esc => (.ok (), cleanupDecryption lib app)
  | .tab =>
    if app.displayPasswordInput then
      (.ok (), { app with decryptInputSelection := (app.decryptInputSelection + 1) % 2 })
    else (.ok (), app)
  | .enter => decryptEnter lib env app
  | _ => (.ok (), decryptTyped lib key app)

def handleKey (env : MenuEnv) (key : KeyEvent) (app : App Area Explorer) :
    Outcome Exit Unit × App Area Explorer :=
  match app.currentScreen with
  | .main => mainInput env key app
  | .keyResults => (.ok (), keyResultsInput key app)
  | .encryptFileSelect => fileSelectInput lib key app
  | .encryptionInput => encryptionInput lib env key app
  | .decrypt => decryptInput lib env key app
  | .intentSelection => intentsInput lib env key app

/-- The loop of `run` over the key presses, each with what it finds. -/
def run : List (MenuEnv × KeyEvent) → App Area Explorer → Outcome Exit Unit × App Area Explorer
  | [], app => (.ok (), app)
  | (env, key) :: events, app =>
    match handleKey lib env key app with
    | (.ok _, app) => run events app
    | r => r

end Handlers

end Entmoot

end Fangorn
