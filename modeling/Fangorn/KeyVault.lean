import Fangorn.Lib.Action
import Fangorn.Lib.Scale

/-! The key vaults (`crypto/keyvault.rs`): seeds of sr25519 and Iroh keys in a
password-guarded vault, behind a lock that a panic poisons. -/

namespace Fangorn

open Rust Scale

inductive KeyVaultError where
  | keystore (message : Str)
  | keyNotFound
  | invalidSignature
  | io
  | secretString
  deriving DecidableEq, Repr

/-- `store_bytes` and `get` of `rust_vault::Vault`, with a name, the password of
the vault and that of the entry. Reading changes the vault as well. -/
structure VaultLib (V : Type) where
  storeBytes : Str → Bytes → Str → Str → V → Bool × V
  get : Str → Str → Str → V → Option Bytes × V

/-- What a vault stands for: bytes under names, each with its own password,
and all behind the password of the vault. -/
structure VaultMap where
  password : Str
  entries : Str → Option (Str × Bytes)

namespace VaultMap

def read (name vaultPassword filePassword : Str) (m : VaultMap) : Option Bytes :=
  if vaultPassword = m.password then
    match m.entries name with
    | some (password, bytes) => if filePassword = password then some bytes else none
    | none => none
  else none

def write (name : Str) (bytes : Bytes) (vaultPassword filePassword : Str) (m : VaultMap) :
    Bool × VaultMap :=
  if vaultPassword = m.password then
    (true, { m with entries := Function.update m.entries name (some (filePassword, bytes)) })
  else (false, m)

variable {name other vaultPassword filePassword : Str} {bytes : Bytes} {m m' : VaultMap}

variable (name filePassword bytes) in
theorem write_fst (h : vaultPassword = m.password) :
    (m.write name bytes vaultPassword filePassword).1 = true := by
  rw [write, if_pos h]

@[simp] theorem write_password :
    (m.write name bytes vaultPassword filePassword).2.password = m.password := by
  unfold write
  split_ifs <;> rfl

theorem read_write_self (h : vaultPassword = m.password) :
    (m.write name bytes vaultPassword filePassword).2.read name vaultPassword filePassword =
      some bytes := by
  rw [write, if_pos h]
  simp [read, h]

theorem write_entries_of_ne (h : other ≠ name) :
    (m.write name bytes vaultPassword filePassword).2.entries other = m.entries other := by
  unfold write
  split_ifs
  · exact Function.update_of_ne h ..
  · rfl

end VaultMap

/-- The vault is a map, as far as `view` shows it. -/
structure VaultLib.Implements {V : Type} (L : VaultLib V) (view : V → VaultMap) : Prop where
  storeBytes : ∀ name bytes vaultPassword filePassword v,
    Prod.map id view (L.storeBytes name bytes vaultPassword filePassword v) =
      (view v).write name bytes vaultPassword filePassword
  get : ∀ name vaultPassword filePassword v,
    Prod.map id view (L.get name vaultPassword filePassword v) =
      ((view v).read name vaultPassword filePassword, view v)

def VaultMap.lib : VaultLib VaultMap where
  storeBytes name bytes vaultPassword filePassword m :=
    m.write name bytes vaultPassword filePassword
  get name vaultPassword filePassword m := (m.read name vaultPassword filePassword, m)

theorem VaultMap.lib_implements : VaultMap.lib.Implements id where
  storeBytes _ _ _ _ _ := rfl
  get _ _ _ _ := rfl

/-- `sp_core::sr25519` and `bip39`; what a call draws at random is an argument. -/
structure Sr25519Lib (Pair Public Signature : Type) where
  mnemonic : Arr 32 → Str
  fromPhrase : Str → Option (Pair × Arr 32)
  fromSeedSlice : Bytes → Option Pair
  publicKey : Pair → Public
  sign : Pair → Bytes → Bytes → Signature
  verify : Signature → Bytes → Public → Bool

structure Sr25519Lib.Correct {Pair Public Signature : Type}
    (lib : Sr25519Lib Pair Public Signature) : Prop where
  fromPhrase : ∀ entropy, ∃ pair seed, lib.fromPhrase (lib.mnemonic entropy) = some (pair, seed)
  fromSeedSlice : ∀ phrase pair seed, lib.fromPhrase phrase = some (pair, seed) →
    lib.fromSeedSlice seed.1 = some pair
  verify : ∀ pair message nonce,
    lib.verify (lib.sign pair message nonce) message (lib.publicKey pair) = true

/-- The keys of Iroh, which are signed with deterministically. -/
structure IrohLib (SecretKey Public Signature : Type) where
  generate : Arr 32 → SecretKey
  toBytes : SecretKey → Arr 32
  fromBytes : Arr 32 → SecretKey
  publicKey : SecretKey → Public
  sign : SecretKey → Bytes → Signature
  verify : Public → Bytes → Signature → Bool

structure IrohLib.Correct {SecretKey Public Signature : Type}
    (lib : IrohLib SecretKey Public Signature) : Prop where
  fromBytes : ∀ key, lib.fromBytes (lib.toBytes key) = key
  verify : ∀ key message, lib.verify (lib.publicKey key) message (lib.sign key message) = true

/-- Where the two vaults differ: how a key is made, stored and read back. -/
structure KeyKind (Pair Public Signature : Type) where
  fresh : Arr 32 → Outcome KeyVaultError (Pair × Bytes)
  ofBytes : Bytes → Outcome KeyVaultError Pair
  publicKey : Pair → Public
  sign : Pair → Bytes → Bytes → Signature
  verify : Public → Bytes → Signature → Bool

structure KeyKind.Correct {Pair Public Signature : Type} (kind : KeyKind Pair Public Signature) :
    Prop where
  fresh : ∀ draw, ∃ pair bytes, kind.fresh draw = .ok (pair, bytes) ∧
    kind.ofBytes bytes = .ok pair
  verify : ∀ pair message nonce,
    kind.verify (kind.publicKey pair) message (kind.sign pair message nonce) = true

/-- The fields that `Sr25519KeyVault` and `IrohKeyVault` share. -/
structure KeyVault where
  keyName : Str
  keyPassword : Option Str
  vaultPassword : Option Str
  storingPasswords : Bool

/-- The vault, and which locks are poisoned: each key vault has its own, listed
under its name. -/
structure Vaults (V : Type) where
  vault : V
  poisoned : Str → Bool

namespace KeyVault

def getSecurePassword (_passwordName : Str) : Outcome KeyVaultError Str :=
  .err (.keystore "This function is not yet implemented".toList)

def askedPasswords : Outcome KeyVaultError (Str × Str) := do
  let vaultPassword ← (getSecurePassword "vault_password".toList).unwrap
  let filePassword ← (getSecurePassword "file_password".toList).unwrap
  .ok (vaultPassword, filePassword)

variable {V Pair Public Signature : Type} (L : VaultLib V) (kind : KeyKind Pair Public Signature)
  (kv : KeyVault)

def storedPasswords : Outcome KeyVaultError (Str × Str) := do
  let vaultPassword ← .expect kv.vaultPassword
  let filePassword ← .expect kv.keyPassword
  .ok (vaultPassword, filePassword)

def passwords : Outcome KeyVaultError (Str × Str) :=
  if kv.storingPasswords then kv.storedPasswords else askedPasswords

/-- `store_bytes(..).unwrap()` under the write lock; `locked` is what comes of a
poisoned one. -/
def storeBytes (locked : Outcome KeyVaultError Unit) (bytes : Bytes)
    (vaultPassword filePassword : Str) : Action (Vaults V) KeyVaultError Unit := fun s =>
  if s.poisoned kv.keyName then (locked, s)
  else
    match L.storeBytes kv.keyName bytes vaultPassword filePassword s.vault with
    | (true, vault) => (.ok (), { s with vault := vault })
    | (false, vault) => (.panic, ⟨vault, Function.update s.poisoned kv.keyName true⟩)

/-- `get(..).unwrap()` under the write lock. -/
def getBytes (vaultPassword filePassword : Str) : Action (Vaults V) KeyVaultError Bytes := fun s =>
  if s.poisoned kv.keyName then (.panic, s)
  else
    match L.get kv.keyName vaultPassword filePassword s.vault with
    | (some bytes, vault) => (.ok bytes, { s with vault := vault })
    | (none, vault) => (.panic, ⟨vault, Function.update s.poisoned kv.keyName true⟩)

def generate (passwords : Outcome KeyVaultError (Str × Str)) (locked : Outcome KeyVaultError Unit)
    (draw : Arr 32) : Action (Vaults V) KeyVaultError Public := do
  let (pair, bytes) ← .lift (kind.fresh draw)
  let (vaultPassword, filePassword) ← .lift passwords
  kv.storeBytes L locked bytes vaultPassword filePassword
  pure (kind.publicKey pair)

def openKey : Action (Vaults V) KeyVaultError Pair := do
  let (vaultPassword, filePassword) ← .lift kv.passwords
  let bytes ← kv.getBytes L vaultPassword filePassword
  .lift (kind.ofBytes bytes)

def getPublicKey : Action (Vaults V) KeyVaultError Public := do
  let pair ← kv.openKey L kind
  pure (kind.publicKey pair)

def sign (message nonce : Bytes) : Action (Vaults V) KeyVaultError Signature := do
  let pair ← kv.openKey L kind
  pure (kind.sign pair message nonce)

end KeyVault

namespace Sr25519KeyVault

variable {V Pair Public Signature : Type} (L : VaultLib V) (lib : Sr25519Lib Pair Public Signature)

def new (keyName : Str) : KeyVault := ⟨keyName, none, none, false⟩

def newStoreInfo (vaultPassword keyName keyPassword : Str) : KeyVault :=
  ⟨keyName, some keyPassword, some vaultPassword, true⟩

def kind : KeyKind Pair Public Signature where
  fresh entropy := do
    let (pair, seed) ← .expect (lib.fromPhrase (lib.mnemonic entropy))
    .ok (pair, seed.1)
  ofBytes seedBytes := .expect (lib.fromSeedSlice seedBytes)
  publicKey := lib.publicKey
  sign := lib.sign
  verify publicKey message signature := lib.verify signature message publicKey

def failedToLock : Outcome KeyVaultError Unit := .err (.keystore "Failed to lock vault".toList)

variable (kv : KeyVault)

def generateKeyPrintMnemonic (entropy : Arr 32) : Action (Vaults V) KeyVaultError Public :=
  kv.generate L (kind lib) kv.passwords failedToLock entropy

/-- The passwords are asked for, also where they are stored. -/
def generateKey (entropy : Arr 32) : Action (Vaults V) KeyVaultError Public :=
  kv.generate L (kind lib) KeyVault.askedPasswords failedToLock entropy

def getPublicKey : Action (Vaults V) KeyVaultError Public := kv.getPublicKey L (kind lib)

def sign (message nonce : Bytes) : Action (Vaults V) KeyVaultError Signature :=
  kv.sign L (kind lib) message nonce

def verify : Public → Bytes → Signature → Bool := (kind lib).verify

end Sr25519KeyVault

namespace IrohKeyVault

variable {V SecretKey Public Signature : Type} (L : VaultLib V)
  (lib : IrohLib SecretKey Public Signature)

def keyName (index : Nat) : Str := "iroh_key_idx_".toList ++ Nat.toDigits 10 index

def new (index : Nat) : KeyVault := ⟨keyName index, none, none, false⟩

def newStoreInfo (vaultPassword keyPassword : Str) (index : Nat) : KeyVault :=
  ⟨keyName index, some keyPassword, some vaultPassword, true⟩

/-- `read` into an array of zeros takes what fits in and never fails. -/
def secretBytes (secretKey : Bytes) : Arr 32 :=
  ⟨(secretKey ++ List.replicate 32 0).take 32, by simp⟩

def kind : KeyKind SecretKey Public Signature where
  fresh draw := .ok (lib.generate draw, (lib.toBytes (lib.generate draw)).1)
  ofBytes secretKey := .ok (lib.fromBytes (secretBytes secretKey))
  publicKey := lib.publicKey
  sign secretKey message _ := lib.sign secretKey message
  verify := lib.verify

variable (kv : KeyVault)

def generateKey (draw : Arr 32) : Action (Vaults V) KeyVaultError Public :=
  kv.generate L (kind lib) kv.passwords .panic draw

def getPublicKey : Action (Vaults V) KeyVaultError Public := kv.getPublicKey L (kind lib)

def sign (message nonce : Bytes) : Action (Vaults V) KeyVaultError Signature :=
  kv.sign L (kind lib) message nonce

def verify : Public → Bytes → Signature → Bool := (kind lib).verify

end IrohKeyVault

namespace KeyVault

section Effects

variable {V Pair Public Signature : Type} {L : VaultLib V} {view : V → VaultMap}
  {kind : KeyKind Pair Public Signature} {kv : KeyVault} {s : Vaults V}
  {vaultPassword filePassword : Str}

variable (view kv vaultPassword filePassword s) in
/-- The entry that a call gets to see. -/
def visible : Option Bytes :=
  if s.poisoned kv.keyName then none
  else (view s.vault).read kv.keyName vaultPassword filePassword

theorem visible_congr {s' : Vaults V}
    (hpoisoned : s'.poisoned kv.keyName = s.poisoned kv.keyName)
    (hpassword : (view s'.vault).password = (view s.vault).password)
    (hentry : (view s'.vault).entries kv.keyName = (view s.vault).entries kv.keyName) :
    kv.visible view s' vaultPassword filePassword =
      kv.visible view s vaultPassword filePassword := by
  simp only [visible, VaultMap.read, hpoisoned, hpassword, hentry]

section Reading

variable (hL : L.Implements view)
include hL

variable (kv s vaultPassword filePassword) in
theorem getBytes_cases : (kv.getBytes L vaultPassword filePassword s).1 =
      .expect (kv.visible view s vaultPassword filePassword) ∧
    view (kv.getBytes L vaultPassword filePassword s).2.vault = view s.vault ∧
    (kv.getBytes L vaultPassword filePassword s).2.poisoned =
      if (kv.visible view s vaultPassword filePassword).isSome then s.poisoned
      else Function.update s.poisoned kv.keyName true := by
  unfold getBytes visible
  by_cases hp : s.poisoned kv.keyName = true
  · simp [hp, Outcome.expect]
  · have hget := hL.get kv.keyName vaultPassword filePassword s.vault
    rcases hread : L.get kv.keyName vaultPassword filePassword s.vault with ⟨found, vault⟩
    rw [hread] at hget
    obtain ⟨hfound, hview⟩ := Prod.mk.inj hget
    simp only [hp, Bool.false_eq_true, if_false, ← hfound]
    cases found with
    | none => exact ⟨rfl, hview, rfl⟩
    | some bytes => exact ⟨rfl, hview, rfl⟩

variable (kind s) in
theorem openKey_cases (hpass : kv.passwords = .ok (vaultPassword, filePassword)) :
    (kv.openKey L kind s).1 =
      (Outcome.expect (kv.visible view s vaultPassword filePassword) >>= kind.ofBytes) ∧
    view (kv.openKey L kind s).2.vault = view s.vault ∧
    (kv.openKey L kind s).2.poisoned =
      if (kv.visible view s vaultPassword filePassword).isSome then s.poisoned
      else Function.update s.poisoned kv.keyName true := by
  obtain ⟨hfst, hvault, hpoisoned⟩ := getBytes_cases kv s vaultPassword filePassword hL
  have hopen : kv.openKey L kind s = (kv.getBytes L vaultPassword filePassword >>= fun bytes =>
      Action.lift (kind.ofBytes bytes)) s := by
    rw [openKey, hpass]
    exact Action.bind_of_ok rfl
  have hsnd : (kv.openKey L kind s).2 = (kv.getBytes L vaultPassword filePassword s).2 := by
    rw [hopen]
    exact Action.bind_snd fun _ _ => rfl
  refine ⟨?_, hsnd ▸ hvault, hsnd ▸ hpoisoned⟩
  rw [hopen, Action.bind_fst, hfst]

theorem getPublicKey_fst (hpass : kv.passwords = .ok (vaultPassword, filePassword)) :
    (kv.getPublicKey L kind s).1 =
      ((Outcome.expect (kv.visible view s vaultPassword filePassword) >>= kind.ofBytes) >>=
        fun pair => .ok (kind.publicKey pair)) := by
  rw [← (openKey_cases kind s hL hpass).1]
  exact Action.bind_fst

theorem sign_fst (hpass : kv.passwords = .ok (vaultPassword, filePassword))
    (message nonce : Bytes) : (kv.sign L kind message nonce s).1 =
      ((Outcome.expect (kv.visible view s vaultPassword filePassword) >>= kind.ofBytes) >>=
        fun pair => .ok (kind.sign pair message nonce)) := by
  rw [← (openKey_cases kind s hL hpass).1]
  exact Action.bind_fst

theorem getPublicKey_eq_ok (hpass : kv.passwords = .ok (vaultPassword, filePassword))
    {key : Public} : (kv.getPublicKey L kind s).1 = .ok key ↔
      ∃ bytes pair, kv.visible view s vaultPassword filePassword = some bytes ∧
        kind.ofBytes bytes = .ok pair ∧ kind.publicKey pair = key := by
  rw [getPublicKey_fst hL hpass]
  simp only [Outcome.bind_eq_ok, Outcome.expect_eq_ok, Outcome.ok.injEq]
  constructor
  · intro h
    obtain ⟨pair, ⟨bytes, hbytes, hpair⟩, hkey⟩ := h
    exact ⟨bytes, pair, hbytes, hpair, hkey⟩
  · intro h
    obtain ⟨bytes, pair, hbytes, hpair, hkey⟩ := h
    exact ⟨pair, ⟨bytes, hbytes, hpair⟩, hkey⟩

theorem visible_openKey (hpass : kv.passwords = .ok (vaultPassword, filePassword)) {bytes : Bytes}
    (h : kv.visible view s vaultPassword filePassword = some bytes) :
    kv.visible view (kv.openKey L kind s).2 vaultPassword filePassword = some bytes := by
  obtain ⟨-, hvault, hpoisoned⟩ := openKey_cases kind s hL hpass
  rw [h] at hpoisoned
  rw [← h]
  simp only [visible, hvault, hpoisoned, Option.isSome_some, if_true]

theorem sign_verified (hkind : kind.Correct)
    (hpass : kv.passwords = .ok (vaultPassword, filePassword)) {key : Public}
    (h : (kv.getPublicKey L kind s).1 = .ok key) (message nonce : Bytes) :
    ∃ signature, (kv.sign L kind message nonce (kv.getPublicKey L kind s).2).1 = .ok signature ∧
      kind.verify key message signature = true := by
  obtain ⟨bytes, pair, hbytes, hpair, rfl⟩ := (getPublicKey_eq_ok hL hpass).mp h
  have hsnd : (kv.getPublicKey L kind s).2 = (kv.openKey L kind s).2 :=
    Action.bind_snd fun _ _ => rfl
  refine ⟨kind.sign pair message nonce, ?_, hkind.verify pair message nonce⟩
  rw [hsnd, sign_fst hL hpass, visible_openKey hL hpass hbytes]
  simp [Outcome.expect, hpair]

variable (filePassword) in
theorem storeBytes_of_free (locked : Outcome KeyVaultError Unit) (bytes : Bytes)
    (hvault : vaultPassword = (view s.vault).password) (hfree : s.poisoned kv.keyName = false) :
    (kv.storeBytes L locked bytes vaultPassword filePassword s).1 = .ok () ∧
    view (kv.storeBytes L locked bytes vaultPassword filePassword s).2.vault =
      ((view s.vault).write kv.keyName bytes vaultPassword filePassword).2 ∧
    (kv.storeBytes L locked bytes vaultPassword filePassword s).2.poisoned = s.poisoned := by
  have hstore := hL.storeBytes kv.keyName bytes vaultPassword filePassword s.vault
  have haccepted := VaultMap.write_fst kv.keyName filePassword bytes hvault
  rcases hwrite : L.storeBytes kv.keyName bytes vaultPassword filePassword s.vault with
    ⟨stored, vault⟩
  rw [hwrite] at hstore
  obtain rfl : stored = true := (congrArg Prod.fst hstore).trans haccepted
  simp only [storeBytes, hfree, hwrite]
  exact ⟨rfl, congrArg Prod.snd hstore, rfl⟩

end Reading

theorem storeBytes_of_poisoned {locked : Outcome KeyVaultError Unit} {bytes : Bytes}
    (h : s.poisoned kv.keyName = true) :
    kv.storeBytes L locked bytes vaultPassword filePassword s = (locked, s) := by
  simp only [storeBytes, h, if_true]

section Generating

variable {passwords : Outcome KeyVaultError (Str × Str)} {locked : Outcome KeyVaultError Unit}
  {draw : Arr 32} {pair : Pair} {bytes : Bytes}

variable (kv) in
theorem generate_of_fresh (hfresh : kind.fresh draw = .ok (pair, bytes))
    (hpass : passwords = .ok (vaultPassword, filePassword)) :
    kv.generate L kind passwords locked draw s =
      (kv.storeBytes L locked bytes vaultPassword filePassword >>= fun _ =>
        Action.lift (.ok (kind.publicKey pair))) s := by
  rw [generate, hfresh, hpass]
  exact (Action.bind_of_ok rfl).trans (Action.bind_of_ok rfl)

variable (locked) in
/-- A generation stores the key that it returns. -/
theorem generate_of_free (hL : L.Implements view) (hfresh : kind.fresh draw = .ok (pair, bytes))
    (hpass : passwords = .ok (vaultPassword, filePassword))
    (hvault : vaultPassword = (view s.vault).password) (hfree : s.poisoned kv.keyName = false) :
    (kv.generate L kind passwords locked draw s).1 = .ok (kind.publicKey pair) ∧
    view (kv.generate L kind passwords locked draw s).2.vault =
      ((view s.vault).write kv.keyName bytes vaultPassword filePassword).2 ∧
    (kv.generate L kind passwords locked draw s).2.poisoned = s.poisoned := by
  obtain ⟨hfst, hview, hpoisoned⟩ :=
    storeBytes_of_free filePassword hL locked bytes hvault hfree
  rw [generate_of_fresh kv hfresh hpass]
  have hsnd : ((kv.storeBytes L locked bytes vaultPassword filePassword >>= fun _ =>
      Action.lift (.ok (kind.publicKey pair))) s).2 =
        (kv.storeBytes L locked bytes vaultPassword filePassword s).2 :=
    Action.bind_snd fun _ _ => rfl
  refine ⟨?_, hsnd ▸ hview, hsnd ▸ hpoisoned⟩
  rw [Action.bind_fst, hfst]
  rfl

variable (L) in
theorem generate_of_poisoned (hfresh : kind.fresh draw = .ok (pair, bytes))
    (hpass : passwords = .ok (vaultPassword, filePassword)) (hlocked : ∀ u, locked ≠ .ok u)
    (h : s.poisoned kv.keyName = true) :
    (∀ key, (kv.generate L kind passwords locked draw s).1 ≠ .ok key) ∧
      (kv.generate L kind passwords locked draw s).2 = s := by
  have hstore : kv.storeBytes L locked bytes vaultPassword filePassword s = (locked, s) :=
    storeBytes_of_poisoned h
  rw [generate_of_fresh kv hfresh hpass]
  cases locked with
  | ok u => exact absurd rfl (hlocked u)
  | err e =>
    rw [Action.bind_of_err hstore]
    exact ⟨nofun, rfl⟩
  | panic =>
    rw [Action.bind_of_panic hstore]
    exact ⟨nofun, rfl⟩

variable (L kv s) in
theorem generate_of_asked (hfresh : kind.fresh draw = .ok (pair, bytes)) :
    kv.generate L kind askedPasswords locked draw s = (.panic, s) := by
  rw [generate, hfresh]
  exact (Action.bind_of_ok rfl).trans (Action.bind_of_panic rfl)

end Generating

end Effects

end KeyVault

namespace Sr25519KeyVault

variable {Pair Public Signature : Type} {lib : Sr25519Lib Pair Public Signature}

theorem kind_correct (h : lib.Correct) : (kind lib).Correct where
  fresh draw := by
    obtain ⟨pair, seed, hphrase⟩ := h.fromPhrase draw
    refine ⟨pair, seed.1, ?_, ?_⟩
    · simp [kind, hphrase, Outcome.expect]
    · simp [kind, h.fromSeedSlice _ _ _ hphrase, Outcome.expect]
  verify := h.verify

end Sr25519KeyVault

namespace IrohKeyVault

variable {SecretKey Public Signature : Type} {lib : IrohLib SecretKey Public Signature}

theorem secretBytes_toArray (a : Arr 32) : secretBytes a.1 = a := by
  apply Subtype.ext
  exact List.take_left' a.2

theorem kind_correct (h : lib.Correct) : (kind lib).Correct where
  fresh draw := by
    refine ⟨_, _, rfl, ?_⟩
    simp [kind, secretBytes_toArray, h.fromBytes]
  verify key message _ := h.verify key message

end IrohKeyVault

end Fangorn
