import Fangorn.GeneratedKeys
import Fangorn.SteVault

/-! The commands of `roots` (`roots/src/main.rs`). Each is a process of its own,
which opens a keystore, makes a call on one of its key vaults, and prints what
comes of it. -/

namespace Fangorn

open Rust Scale

structure RootsLib (W H : Type) (Signature : VaultKind → Type) extends KeystoreLib W H where
  toHex : Bytes → Str
  fromHex : Str → Option Bytes
  signatureBytes : ∀ k, Signature k → Bytes
  signatureOfBytes : ∀ k, Bytes → Option (Signature k)

structure RootsLib.Correct {W H Dir : Type} {Signature : VaultKind → Type} [DecidableEq Dir]
    (L : RootsLib W H Signature) (view : KeystoreView W H Dir) : Prop where
  keystore : L.toKeystoreLib.Implements view
  fromHex : ∀ bytes, L.fromHex (L.toHex bytes) = some bytes
  signatureOfBytes : ∀ k signature,
    L.signatureOfBytes k (L.signatureBytes k signature) = some signature

namespace Roots

inductive StoreType where
  | polkadot
  | fangorn
  deriving DecidableEq, Repr

structure KeyArgs where
  keystoreDir : Str
  keyName : Str
  vaultPswd : Str
  keyPassword : Str
  storeType : StoreType
  index : Option Nat

inductive Command where
  | keygen (args : KeyArgs) (printMnemonic : Bool) (draw : Arr 32)
  | inspect (args : KeyArgs)
  | sign (args : KeyArgs) (nonce : UInt32) (draw : Bytes)
  | verify (args : KeyArgs) (signatureHex : Str) (nonce : UInt32)

inductive Printed (Public : VaultKind → Type) where
  | generated {k : VaultKind} (publicKey : Public k)
  | read {k : VaultKind} (publicKey : Public k)
  | produced (nonce : UInt32) (sigHex : Str)
  | verified (result : Bool)

def messageBytes (nonce : UInt32) : Bytes := leBytes 4 nonce.toNat

namespace KeyArgs

/-- Keys for Fangorn go by their index, and nothing reads the name given for them. -/
def info (args : KeyArgs) : StoreInfo :=
  match args.storeType with
  | .polkadot => .sr25519 args.vaultPswd args.keyName args.keyPassword
  | .fangorn => .iroh args.vaultPswd args.keyPassword (args.index.getD 0)

@[simp] theorem info_vaultPassword (args : KeyArgs) : args.info.vaultPassword = args.vaultPswd := by
  rcases args with ⟨_, _, _, _, storeType, _⟩
  cases storeType <;> rfl

@[simp] theorem info_keyPassword (args : KeyArgs) : args.info.keyPassword = args.keyPassword := by
  rcases args with ⟨_, _, _, _, storeType, _⟩
  cases storeType <;> rfl

theorem passwords (args : KeyArgs) :
    args.info.keyVault.passwords = .ok (args.vaultPswd, args.keyPassword) := by
  rw [args.info.passwords_keyVault, info_vaultPassword, info_keyPassword]

end KeyArgs

section Definitions

variable {W H : Type} {Pair Public Signature : VaultKind → Type}

section Vault

variable {V : Type} (L : VaultLib V)
  (sr25519 : Sr25519Lib (Pair .sr25519) (Public .sr25519) (Signature .sr25519))
  (iroh : IrohLib (Pair .iroh) (Public .iroh) (Signature .iroh))

def generateKey : ∀ k, Bool → Arr 32 → KeyVault → Action (Vaults V) KeyVaultError (Public k)
  | .sr25519, true, draw, kv => Sr25519KeyVault.generateKeyPrintMnemonic L sr25519 kv draw
  | .sr25519, false, draw, kv => Sr25519KeyVault.generateKey L sr25519 kv draw
  | .iroh, _, draw, kv => IrohKeyVault.generateKey L iroh kv draw

/-- `generate_key` of the one kind asks for passwords, and never gets them. -/
def asks : VaultKind → Bool → Bool
  | .sr25519, printMnemonic => !printMnemonic
  | .iroh, _ => false

end Vault

variable (L : RootsLib W H Signature)
  (sr25519 : Sr25519Lib (Pair .sr25519) (Public .sr25519) (Signature .sr25519))
  (iroh : IrohLib (Pair .iroh) (Public .iroh) (Signature .iroh))

/-- The call of a process that has just made its key vault. -/
def onVault {α : Type} (vault : H) (kv : KeyVault)
    (call : Action (Vaults (H × W)) KeyVaultError α) : Action W KeyVaultError α := fun w =>
  let (result, _, w) := (Locked.new vault).run kv (unwrapped call) w
  (result, w)

def exec : Command → Action W KeyVaultError (Printed Public)
  | .keygen args printMnemonic draw => do
    let vault ← Keystores.opening (L.openOrCreate args.keystoreDir args.vaultPswd)
    let publicKey ← onVault vault args.info.keyVault
      (generateKey L.toVaultLib sr25519 iroh args.info.kind printMnemonic draw args.info.keyVault)
    pure (.generated publicKey)
  | .inspect args => do
    let vault ← Keystores.opening (L.openVault args.keystoreDir args.vaultPswd)
    let publicKey ← onVault vault args.info.keyVault
      (GeneratedKeys.getPublicKey L.toVaultLib sr25519 iroh args.info.kind args.info.keyVault)
    pure (.read publicKey)
  | .sign args nonce draw => do
    let vault ← Keystores.opening (L.openVault args.keystoreDir args.vaultPswd)
    let signature ← onVault vault args.info.keyVault (GeneratedKeys.sign L.toVaultLib sr25519 iroh
      args.info.kind args.info.keyVault (messageBytes nonce) draw)
    pure (.produced nonce (L.toHex (L.signatureBytes args.info.kind signature)))
  | .verify args signatureHex nonce => do
    let vault ← Keystores.opening (L.openVault args.keystoreDir args.vaultPswd)
    let publicKey ← onVault vault args.info.keyVault
      (GeneratedKeys.getPublicKey L.toVaultLib sr25519 iroh args.info.kind args.info.keyVault)
    let sigVec ← .lift (.expect (L.fromHex signatureHex))
    let sig ← .lift (.expect (L.signatureOfBytes args.info.kind sigVec))
    pure (.verified (GeneratedKeys.verify sr25519 iroh args.info.kind publicKey
      (messageBytes nonce) sig))

end Definitions

section Effects

variable {W H Dir : Type} {Pair Public Signature : VaultKind → Type} [DecidableEq Dir]
  {L : RootsLib W H Signature}
  {sr25519 : Sr25519Lib (Pair .sr25519) (Public .sr25519) (Signature .sr25519)}
  {iroh : IrohLib (Pair .iroh) (Public .iroh) (Signature .iroh)}
  {view : KeystoreView W H Dir} {w w' : W} {vault : H} {m : VaultMap} {args : KeyArgs}
  {draw : Arr 32} {printMnemonic : Bool} {α β : Type} {lock' : Locked H} {kv : KeyVault}
  {call : Action (Vaults (H × W)) KeyVaultError α}

theorem onVault_of_ok {a : α} (hcall : (Locked.new vault).run kv call w = (.ok a, lock', w')) :
    onVault vault kv call w = (.ok a, w') := by
  rw [onVault, Locked.run_unwrapped, hcall]
  rfl

theorem onVault_of_panic (hcall : (Locked.new vault).run kv call w = (.panic, lock', w')) :
    onVault vault kv call w = (.panic, w') := by
  rw [onVault, Locked.run_unwrapped, hcall]
  rfl

section Reading

variable (hL : L.Correct view)
include hL

theorem read_of_entry (hm : view.maps w (view.resolve args.keystoreDir) = some m)
    (hpassword : m.password = args.vaultPswd) {bytes : Bytes}
    (hentry : m.entries args.info.keyName = some (args.keyPassword, bytes))
    {pair : Pair args.info.kind}
    (hbytes : (GeneratedKeys.kindOf sr25519 iroh args.info.kind).ofBytes bytes = .ok pair)
    (f : Pair args.info.kind → α) (g : α → Action W KeyVaultError β) :
    ∃ w', (Keystores.opening (L.openVault args.keystoreDir args.vaultPswd) >>= fun vault =>
        onVault vault args.info.keyVault (args.info.keyVault.openKey L.toVaultLib
          (GeneratedKeys.kindOf sr25519 iroh args.info.kind) >>= fun pair => pure (f pair)) >>= g)
        w = g (f pair) w' ∧
      view.maps w' = view.maps w := by
  rcases Keystores.openVault_cases args.keystoreDir args.vaultPswd w hL.keystore with
    ⟨vault, w₁, hopen, hdir, hmaps⟩ | ⟨-, -, -, hwrong⟩
  · have hfound : some bytes = if (Locked.new vault).poisoned then none
        else (view.maps w₁ (view.dirOf (Locked.new vault).vault)).bind fun m =>
          m.read args.info.keyVault.keyName args.vaultPswd args.keyPassword := by
      rw [StoreInfo.keyName] at hentry
      simp [Locked.new, hmaps, hdir, hm, VaultMap.read, hpassword, hentry]
    obtain ⟨lock', w₂, hcall, -, -, hmaps₂⟩ := Locked.openKey
      (GeneratedKeys.kindOf sr25519 iroh args.info.kind) args.info.keyVault hL.keystore
      args.passwords hfound
    have hpair : Outcome.expect (some bytes) >>=
        (GeneratedKeys.kindOf sr25519 iroh args.info.kind).ofBytes = .ok pair := hbytes
    rw [hpair] at hcall
    have hrun : (Locked.new vault).run args.info.keyVault (args.info.keyVault.openKey L.toVaultLib
        (GeneratedKeys.kindOf sr25519 iroh args.info.kind) >>= fun pair => pure (f pair)) w₁ =
          (.ok (f pair), lock', w₂) := by
      rw [Locked.run_map, hcall]
      rfl
    refine ⟨w₂, ?_, hmaps₂.trans hmaps⟩
    exact (Action.bind_of_ok hopen).trans (Action.bind_of_ok (onVault_of_ok hrun))
  · refine absurd ?_ hwrong
    rw [Keystores.passwords, hm, ← hpassword]
    rfl

variable (w args sr25519 iroh) in
theorem maps_read (f : Pair args.info.kind → α) {g : α → Action W KeyVaultError β}
    (hg : ∀ a t, (g a t).2 = t) :
    view.maps ((Keystores.opening (L.openVault args.keystoreDir args.vaultPswd) >>= fun vault =>
        onVault vault args.info.keyVault (args.info.keyVault.openKey L.toVaultLib
          (GeneratedKeys.kindOf sr25519 iroh args.info.kind) >>= fun pair => pure (f pair)) >>= g)
        w).2 = view.maps w := by
  rcases Keystores.openVault_cases args.keystoreDir args.vaultPswd w hL.keystore with
    ⟨vault, w₁, hopen, -, hmaps⟩ | ⟨w₁, hopen, hmaps, -⟩
  · rw [Action.bind_of_ok hopen, Action.bind_snd hg, onVault, Locked.run_unwrapped,
      Locked.run_map, ← hmaps]
    exact Locked.maps_openKey _ args.info.keyVault (Locked.new vault) w₁ hL.keystore
  · rw [Action.bind_of_panic hopen, hmaps]

end Reading

section Generating

variable (sr25519 iroh printMnemonic draw) in
theorem generateKey_eq {V : Type} (L : VaultLib V) (k : VaultKind) (kv : KeyVault) : ∃ locked,
    generateKey L sr25519 iroh k printMnemonic draw kv =
      kv.generate L (GeneratedKeys.kindOf sr25519 iroh k)
        (if asks k printMnemonic then KeyVault.askedPasswords else kv.passwords) locked draw := by
  cases k with
  | sr25519 => cases printMnemonic <;> exact ⟨_, rfl⟩
  | iroh => exact ⟨_, rfl⟩

variable (sr25519 iroh args printMnemonic draw) in
/-- On a vault with this password the key is stored, and elsewhere the process
panics and has stored nothing. -/
theorem generateKey_cases (hL : L.Correct view) (hm : view.maps w (view.dirOf vault) = some m)
    {pair : Pair args.info.kind} {bytes : Bytes}
    (hfresh : (GeneratedKeys.kindOf sr25519 iroh args.info.kind).fresh draw = .ok (pair, bytes)) :
    (asks args.info.kind printMnemonic = false ∧ args.vaultPswd = m.password ∧ ∃ w',
      onVault vault args.info.keyVault (generateKey L.toVaultLib sr25519 iroh args.info.kind
        printMnemonic draw args.info.keyVault) w =
          (.ok ((GeneratedKeys.kindOf sr25519 iroh args.info.kind).publicKey pair), w') ∧
      view.maps w' = Function.update (view.maps w) (view.dirOf vault)
        (some (m.write args.info.keyName bytes args.vaultPswd args.keyPassword).2)) ∨
    (asks args.info.kind printMnemonic = true ∨ args.vaultPswd ≠ m.password) ∧ ∃ w',
      onVault vault args.info.keyVault (generateKey L.toVaultLib sr25519 iroh args.info.kind
        printMnemonic draw args.info.keyVault) w = (.panic, w') ∧
      view.maps w' = view.maps w := by
  obtain ⟨locked, hgenerate⟩ := generateKey_eq sr25519 iroh draw printMnemonic L.toVaultLib
    args.info.kind args.info.keyVault
  rw [hgenerate]
  cases hasks : asks args.info.kind printMnemonic with
  | true =>
    have hcall : args.info.keyVault.generate L.toVaultLib
        (GeneratedKeys.kindOf sr25519 iroh args.info.kind) KeyVault.askedPasswords locked draw
        ⟨(vault, w), fun _ => false⟩ = (.panic, ⟨(vault, w), fun _ => false⟩) :=
      KeyVault.generate_of_asked L.toVaultLib args.info.keyVault _ hfresh
    have hrun : (Locked.new vault).run args.info.keyVault (args.info.keyVault.generate L.toVaultLib
        (GeneratedKeys.kindOf sr25519 iroh args.info.kind) KeyVault.askedPasswords locked draw) w =
          (.panic, ⟨vault, false⟩, w) := by
      simp only [Locked.run, Locked.new, hcall]
    rw [if_pos rfl]
    exact Or.inr ⟨Or.inl rfl, w, onVault_of_panic hrun, rfl⟩
  | false =>
    rw [if_neg Bool.false_ne_true]
    have hlock : view.maps w (view.dirOf (Locked.new vault).vault) = some m := hm
    obtain ⟨lock', w', hrun, -, -, hmaps⟩ := Locked.generate
      (GeneratedKeys.kindOf sr25519 iroh args.info.kind) args.info.keyVault locked hL.keystore
      hfresh args.passwords hlock rfl
    by_cases hvault : args.vaultPswd = m.password
    · rw [if_pos hvault] at hrun
      exact Or.inl ⟨rfl, hvault, w', onVault_of_ok hrun, hmaps⟩
    · rw [if_neg hvault] at hrun
      refine Or.inr ⟨Or.inr hvault, w', onVault_of_panic hrun, ?_⟩
      rw [hmaps, VaultMap.write, if_neg hvault]
      exact Function.update_eq_self_iff.mpr hm.symm

variable (w printMnemonic draw) in
/-- `keygen` leaves the key that it prints, or does no more than to open the
keystore. -/
theorem keygen_cases (hL : L.Correct view) (hsr25519 : sr25519.Correct) (hiroh : iroh.Correct)
    {before : Dir → Option VaultMap} (hbefore : before =
      Keystores.opened (view.resolve args.keystoreDir) args.vaultPswd (view.maps w)) :
    (asks args.info.kind printMnemonic = false ∧ ∃ pair bytes m w',
      before (view.resolve args.keystoreDir) = some m ∧ m.password = args.vaultPswd ∧
      (GeneratedKeys.kindOf sr25519 iroh args.info.kind).fresh draw = .ok (pair, bytes) ∧
      (GeneratedKeys.kindOf sr25519 iroh args.info.kind).ofBytes bytes = .ok pair ∧
      exec L sr25519 iroh (.keygen args printMnemonic draw) w =
        (.ok (.generated ((GeneratedKeys.kindOf sr25519 iroh args.info.kind).publicKey pair)),
          w') ∧
      view.maps w' = Function.update before (view.resolve args.keystoreDir)
        (some (m.write args.info.keyName bytes args.vaultPswd args.keyPassword).2)) ∨
    (asks args.info.kind printMnemonic = true ∨
      Keystores.passwords before (view.resolve args.keystoreDir) ≠ some args.vaultPswd) ∧
      ∃ w', exec L sr25519 iroh (.keygen args printMnemonic draw) w = (.panic, w') ∧
        view.maps w' = before := by
  obtain ⟨pair, bytes, hfresh, hbytes⟩ :=
    (GeneratedKeys.kindOf_correct hsr25519 hiroh args.info.kind).fresh draw
  rcases Keystores.openOrCreate_cases args.keystoreDir args.vaultPswd w hL.keystore with
    ⟨vault, w₁, hopen, hdir, hmaps⟩ | ⟨w₁, hopen, hmaps, hsame, hwrong⟩
  · rw [← hbefore] at hmaps
    obtain ⟨m, hm⟩ :=
      Keystores.opened_self (view.resolve args.keystoreDir) args.vaultPswd (view.maps w)
    rw [← hbefore] at hm
    have hm₁ : view.maps w₁ (view.dirOf vault) = some m := by
      rw [hmaps, hdir]
      exact hm
    rcases generateKey_cases sr25519 iroh args draw printMnemonic hL hm₁ hfresh with
      ⟨hasks, hvault, w₂, hcall, hafter⟩ | ⟨hfails, w₂, hcall, hafter⟩
    · refine Or.inl ⟨hasks, pair, bytes, m, w₂, hm, hvault.symm, hfresh, hbytes,
        (Action.bind_of_ok hopen).trans (Action.bind_of_ok hcall), ?_⟩
      rw [hafter, hmaps, hdir]
    · refine Or.inr ⟨hfails.imp_right fun hvault hno => ?_, w₂, (Action.bind_of_ok hopen).trans
        (Action.bind_of_panic hcall), hafter.trans hmaps⟩
      rw [Keystores.passwords, hm] at hno
      exact hvault (Option.some.inj hno).symm
  · rw [hsame] at hbefore
    rw [hbefore]
    exact Or.inr ⟨Or.inr hwrong, w₁, Action.bind_of_panic hopen, hmaps⟩

end Generating

variable (L sr25519 iroh w args) in
/-- The commands know this key under these options: they print it, sign with it
and verify against it. -/
structure Serves (publicKey : Public args.info.kind) : Prop where
  inspected : (exec L sr25519 iroh (.inspect args) w).1 = .ok (.read publicKey)
  signed : ∀ nonce draw, ∃ signature,
    (exec L sr25519 iroh (.sign args nonce draw) w).1 =
      .ok (.produced nonce (L.toHex (L.signatureBytes args.info.kind signature))) ∧
    GeneratedKeys.verify sr25519 iroh args.info.kind publicKey (messageBytes nonce)
      signature = true
  verified : ∀ signatureHex nonce,
    (exec L sr25519 iroh (.verify args signatureHex nonce) w).1 =
      (Outcome.expect ((L.fromHex signatureHex).bind (L.signatureOfBytes args.info.kind)) >>=
        fun sig => .ok (.verified (GeneratedKeys.verify sr25519 iroh args.info.kind publicKey
          (messageBytes nonce) sig)))

omit [DecidableEq Dir] in
variable (L) in
theorem verified_of_text (k : VaultKind) (signatureHex : Str) (f : Signature k → Bool)
    (t : W) :
    (Action.lift (.expect (L.fromHex signatureHex)) >>= fun sigVec =>
      Action.lift (.expect (L.signatureOfBytes k sigVec)) >>= fun sig =>
        (pure (.verified (f sig)) : Action W KeyVaultError (Printed Public))) t =
      (Outcome.expect ((L.fromHex signatureHex).bind (L.signatureOfBytes k)) >>= fun sig =>
        .ok (.verified (f sig)), t) := by
  rcases hhex : L.fromHex signatureHex with - | sigVec
  · rfl
  · rw [Option.bind_some]
    rcases hsig : L.signatureOfBytes k sigVec with - | sig
    · refine (Action.bind_of_ok rfl).trans (Action.bind_of_panic ?_)
      rw [hsig]
      rfl
    · refine (Action.bind_of_ok rfl).trans ?_
      rw [hsig]
      rfl

theorem serves_of_entry (hL : L.Correct view) (hsr25519 : sr25519.Correct) (hiroh : iroh.Correct)
    (hm : view.maps w (view.resolve args.keystoreDir) = some m)
    (hpassword : m.password = args.vaultPswd) {bytes : Bytes}
    (hentry : m.entries args.info.keyName = some (args.keyPassword, bytes))
    {pair : Pair args.info.kind}
    (hbytes : (GeneratedKeys.kindOf sr25519 iroh args.info.kind).ofBytes bytes = .ok pair) :
    Serves L sr25519 iroh w args
      ((GeneratedKeys.kindOf sr25519 iroh args.info.kind).publicKey pair) where
  inspected := by
    obtain ⟨w', hread, -⟩ := read_of_entry hL hm hpassword hentry hbytes
      (GeneratedKeys.kindOf sr25519 iroh args.info.kind).publicKey fun publicKey =>
        pure (Printed.read publicKey)
    rw [exec, GeneratedKeys.getPublicKey_eq]
    exact congrArg Prod.fst hread
  signed := by
    intro nonce draw
    obtain ⟨w', hread, -⟩ := read_of_entry hL hm hpassword hentry hbytes
      (fun pair => (GeneratedKeys.kindOf sr25519 iroh args.info.kind).sign pair
        (messageBytes nonce) draw) fun signature =>
          pure (Printed.produced nonce (L.toHex (L.signatureBytes args.info.kind signature)) :
            Printed Public)
    refine ⟨(GeneratedKeys.kindOf sr25519 iroh args.info.kind).sign pair (messageBytes nonce)
      draw, ?_, ?_⟩
    · rw [exec, GeneratedKeys.sign_eq]
      exact congrArg Prod.fst hread
    · rw [GeneratedKeys.verify_eq]
      exact (GeneratedKeys.kindOf_correct hsr25519 hiroh args.info.kind).verify pair _ draw
  verified := by
    intro signatureHex nonce
    obtain ⟨w', hread, -⟩ := read_of_entry hL hm hpassword hentry hbytes
      (GeneratedKeys.kindOf sr25519 iroh args.info.kind).publicKey fun publicKey =>
        Action.lift (.expect (L.fromHex signatureHex)) >>= fun sigVec =>
          Action.lift (.expect (L.signatureOfBytes args.info.kind sigVec)) >>= fun sig =>
            pure (Printed.verified (GeneratedKeys.verify sr25519 iroh args.info.kind publicKey
              (messageBytes nonce) sig) : Printed Public)
    rw [exec, GeneratedKeys.getPublicKey_eq]
    refine (congrArg Prod.fst hread).trans ?_
    rw [verified_of_text]

theorem maps_exec (hL : L.Correct view) {c : Command}
    (hc : ∀ args printMnemonic draw, c ≠ .keygen args printMnemonic draw) :
    view.maps (exec L sr25519 iroh c w).2 = view.maps w := by
  cases c with
  | keygen args printMnemonic draw => exact absurd rfl (hc args printMnemonic draw)
  | inspect args =>
    rw [exec, GeneratedKeys.getPublicKey_eq]
    exact maps_read sr25519 iroh w args hL _ fun _ _ => rfl
  | sign args nonce draw =>
    rw [exec, GeneratedKeys.sign_eq]
    exact maps_read sr25519 iroh w args hL _ fun _ _ => rfl
  | verify args signatureHex nonce =>
    rw [exec, GeneratedKeys.getPublicKey_eq]
    refine maps_read sr25519 iroh w args hL _ fun publicKey t => ?_
    rw [verified_of_text]

end Effects

end Roots

end Fangorn
