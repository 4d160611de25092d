import Fangorn.Lib.Custody
import Fangorn.RootsCommands

/-! The accounts that sign transactions (`PolkadotSigner` in
`backend/substrate.rs`), and who else is at their keystores: the commands of
`roots` that make the keys, other backends, and the nodes that start there. A
signer reads its account once, and its key from the vault each time. -/

namespace Fangorn

open Rust Scale

structure SubstrateVaultConfig extends VaultConfig where
  substrateName : Str
  substratePswd : Option Str

structure PolkadotSigner (H Public : Type) where
  accountId : Public
  sr25519Vault : KeyVault
  lock : Locked H

section Signers

variable {W H : Type} {Pair Public Signature : VaultKind → Type} (L : KeystoreLib W H)
  (sr25519 : Sr25519Lib (Pair .sr25519) (Public .sr25519) (Signature .sr25519))

def PolkadotSigner.new (vault : H) (sr25519Vault : KeyVault) :
    Action W KeyVaultError (PolkadotSigner H (Public .sr25519)) := fun w =>
  let (publicKey, lock, w) := (Locked.new vault).run sr25519Vault
    (unwrapped (Sr25519KeyVault.getPublicKey L.toVaultLib sr25519 sr25519Vault)) w
  (publicKey >>= fun accountId => .ok ⟨accountId, sr25519Vault, lock⟩, w)

def PolkadotSigner.sign (signer : PolkadotSigner H (Public .sr25519))
    (signerPayload draw : Bytes) (w : W) :
    Outcome KeyVaultError (Signature .sr25519) × Locked H × W :=
  signer.lock.run signer.sr25519Vault
    (unwrapped (Sr25519KeyVault.sign L.toVaultLib sr25519 signer.sr25519Vault signerPayload draw)) w

/-- `new` when it is connected: its signer. -/
def SubstrateBackend.new (vaultConfig : SubstrateVaultConfig) :
    Action W KeyVaultError (PolkadotSigner H (Public .sr25519)) := do
  let vaultPswd ← .lift (.expect vaultConfig.vaultPswd)
  let vault ← Keystores.opening (L.openOrCreate vaultConfig.vaultDir vaultPswd)
  let substratePswd ← .lift (.expect vaultConfig.substratePswd)
  let sr25519Vault :=
    Sr25519KeyVault.newStoreInfo vaultPswd vaultConfig.substrateName substratePswd
  PolkadotSigner.new L sr25519 vault sr25519Vault

end Signers

namespace SigningAccounts

inductive Event (Id : Type) where
  | roots (command : Roots.Command)
  | build (config : VaultConfig) (index : Nat) (irohDraw steDraw : Arr 32) (rest : Bool)
  | backend (id : Id) (vaultConfig : SubstrateVaultConfig)
  | transaction (id : Id) (signerPayload draw : Bytes)

inductive Answer (Public Signature : VaultKind → Type) where
  | printed (text : Roots.Printed Public)
  | built (publicKey : Public .iroh)
  | connected (accountId : Public .sr25519)
  | signed (accountId : Public .sr25519) (signature : Signature .sr25519)

structure State (W H Id Public : Type) where
  keystores : W
  signers : Id → Option (PolkadotSigner H Public)

section Definitions

variable {W H Dir Id Crs SecretKey PublicKey Ciphertext Share : Type}
  {Pair Public Signature : VaultKind → Type} [DecidableEq Dir] [DecidableEq Id]
  (L : RootsLib W H Signature) (ste : SteLib Crs SecretKey PublicKey Ciphertext Share)
  (sr25519 : Sr25519Lib (Pair .sr25519) (Public .sr25519) (Signature .sr25519))
  (iroh : IrohLib (Pair .iroh) (Public .iroh) (Signature .iroh))

/-- There is no answer of a backend that does not run. One that is made again
has stopped, also when it fails. -/
def exec (s : State W H Id (Public .sr25519)) :
    Event Id → Option (Outcome KeyVaultError (Answer Public Signature)) ×
      State W H Id (Public .sr25519)
  | .roots command =>
    let (printed, keystores) := Roots.exec L sr25519 iroh command s.keystores
    (some (printed >>= fun text => .ok (.printed text)), { s with keystores := keystores })
  | .build config index irohDraw steDraw rest =>
    let (built, keystores) :=
      Node.build L.toKeystoreLib ste iroh config index irohDraw steDraw rest s.keystores
    (some (built >>= fun (_, _, publicKey) => .ok (.built publicKey)),
      { s with keystores := keystores })
  | .backend id vaultConfig =>
    match SubstrateBackend.new L.toKeystoreLib sr25519 vaultConfig s.keystores with
    | (.ok signer, keystores) =>
      (some (.ok (.connected signer.accountId)),
        ⟨keystores, Function.update s.signers id (some signer)⟩)
    | (.err e, keystores) => (some (.err e), ⟨keystores, Function.update s.signers id none⟩)
    | (.panic, keystores) => (some .panic, ⟨keystores, Function.update s.signers id none⟩)
  | .transaction id signerPayload draw =>
    match s.signers id with
    | some signer =>
      let (signature, lock, keystores) :=
        signer.sign L.toKeystoreLib sr25519 signerPayload draw s.keystores
      (some (signature >>= fun signature => .ok (.signed signer.accountId signature)),
        ⟨keystores, Function.update s.signers id (some { signer with lock := lock })⟩)
    | none => (none, s)

def run (s : State W H Id (Public .sr25519)) (events : List (Event Id)) :
    State W H Id (Public .sr25519) :=
  events.foldl (fun s event => (exec L ste sr25519 iroh s event).2) s

def start (keystores : W) : State W H Id (Public .sr25519) := ⟨keystores, fun _ => none⟩

variable (resolve : Str → Dir)

/-- What an event leaves under a name, in a keystore with this password. -/
def stores (dir : Dir) (vaultPassword name : Str) : Event Id → Option (Str × Bytes)
  | .roots (.keygen args printMnemonic draw) =>
    if resolve args.keystoreDir = dir ∧ args.vaultPswd = vaultPassword ∧
        args.info.keyName = name ∧ Roots.asks args.info.kind printMnemonic = false then
      match (GeneratedKeys.kindOf sr25519 iroh args.info.kind).fresh draw with
      | .ok (_, bytes) => some (args.keyPassword, bytes)
      | _ => none
    else none
  | .build config index irohDraw steDraw _ =>
    match config.vaultPswd, config.irohKeyPswd, config.steKeyPswd with
    | some vaultPswd, some irohPassword, some stePassword =>
      if resolve config.vaultDir = dir ∧ vaultPswd = vaultPassword then
        if name = SteKeyVault.keyName index then
          (ste.serializeCompressed (ste.new steDraw index)).map fun bytes => (stePassword, bytes)
        else if name = IrohKeyVault.keyName index then
          some (irohPassword, (iroh.toBytes (iroh.generate irohDraw)).1)
        else none
      else none
    | _, _, _ => none
  | _ => none

end Definitions

section Entries

variable {W H Dir Id Crs SecretKey PublicKey Ciphertext Share : Type}
  {Pair Public Signature : VaultKind → Type} [DecidableEq Dir] [DecidableEq Id]
  {L : RootsLib W H Signature} {ste : SteLib Crs SecretKey PublicKey Ciphertext Share}
  {sr25519 : Sr25519Lib (Pair .sr25519) (Public .sr25519) (Signature .sr25519)}
  {iroh : IrohLib (Pair .iroh) (Public .iroh) (Signature .iroh)}
  {view : KeystoreView W H Dir} {s : State W H Id (Public .sr25519)} {w : W}
  {dir : Dir} {m : VaultMap} {name : Str}

variable (view name) in
/-- After an event, a keystore holds what the event left, or else what it held. -/
def Leaves (dir : Dir) (m : VaultMap) (left : Option (Str × Bytes)) (w : W) : Prop :=
  ∃ m', view.maps w dir = some m' ∧ m'.password = m.password ∧
    m'.entries name = left.or (m.entries name)

omit [DecidableEq Dir] in
theorem leaves_same (hm : view.maps w dir = some m) :
    Leaves view name dir m none w :=
  ⟨m, hm, rfl, rfl⟩

theorem leaves_elsewhere {before : Dir → Option VaultMap} {other : Dir} {m' : Option VaultMap}
    (hm : before dir = some m) (hother : other ≠ dir)
    (hmaps : view.maps w = Function.update before other m') :
    Leaves view name dir m none w := by
  refine leaves_same ?_
  rw [hmaps, Function.update_of_ne (Ne.symm hother), hm]

theorem entries_write {other vaultPassword filePassword : Str} {bytes : Bytes}
    (h : vaultPassword = m.password) :
    (m.write other bytes vaultPassword filePassword).2.entries name =
      if other = name then some (filePassword, bytes) else m.entries name := by
  by_cases hname : other = name
  · subst hname
    rw [if_pos rfl, VaultMap.write, if_pos h]
    exact Function.update_self ..
  · rw [if_neg hname, VaultMap.write_entries_of_ne (Ne.symm hname)]

omit [DecidableEq Id] in
variable (Id) in
theorem leaves_keygen (hL : L.Correct view) (hsr25519 : sr25519.Correct) (hiroh : iroh.Correct)
    (hm : view.maps w dir = some m) (args : Roots.KeyArgs) (printMnemonic : Bool)
    (draw : Arr 32) : Leaves view name dir m
      (stores ste sr25519 iroh view.resolve dir m.password name
        (.roots (.keygen args printMnemonic draw) : Event Id))
      (Roots.exec L sr25519 iroh (.keygen args printMnemonic draw) w).2 := by
  have hbefore := Keystores.opened_of_some (view.resolve args.keystoreDir) args.vaultPswd hm
  rcases Roots.keygen_cases w draw printMnemonic hL hsr25519 hiroh rfl with
    ⟨hasks, pair, bytes, m₀, w', hm₀, hpassword, hfresh, -, hexec, hmaps⟩ |
      ⟨hfails, w', hexec, hmaps⟩
  · rw [hexec]
    by_cases hdir : view.resolve args.keystoreDir = dir
    · subst hdir
      obtain rfl := Option.some.inj (hbefore.symm.trans hm₀)
      refine ⟨_, (congrFun hmaps _).trans (Function.update_self ..), VaultMap.write_password, ?_⟩
      rw [entries_write hpassword.symm, stores, hfresh]
      by_cases hname : args.info.keyName = name
      · simp [hname, hpassword, hasks]
      · simp [hname]
    · have hnone : stores ste sr25519 iroh view.resolve dir m.password name
          (.roots (.keygen args printMnemonic draw) : Event Id) = none := by
        rw [stores, if_neg fun h => hdir h.1]
      rw [hnone]
      exact leaves_elsewhere hbefore hdir hmaps
  · have hnone : stores ste sr25519 iroh view.resolve dir m.password name
        (.roots (.keygen args printMnemonic draw) : Event Id) = none := by
      rw [stores, if_neg]
      intro h
      obtain ⟨rfl, hpassword, -, hasks⟩ := h
      rcases hfails with hyes | hwrong
      · rw [hasks] at hyes
        cases hyes
      · refine hwrong ?_
        rw [Keystores.passwords, hbefore, hpassword]
        rfl
    rw [hexec, hnone]
    exact leaves_same (hmaps ▸ hbefore)

omit [DecidableEq Id] in
variable (Id iroh) in
theorem stores_of_refused {before : Dir → Option VaultMap} (hm : before dir = some m)
    {config : VaultConfig}
    (hrefused : Node.admitted view.resolve (Keystores.passwords before) config = none) (index : Nat)
    (irohDraw steDraw : Arr 32) (rest : Bool) :
    stores ste sr25519 iroh view.resolve dir m.password name (.build config index irohDraw steDraw rest : Event Id) = none := by
  rcases hvault : config.vaultPswd with - | vaultPswd
  · simp [stores, hvault]
  rcases hirohPswd : config.irohKeyPswd with - | irohPassword
  · simp [stores, hvault, hirohPswd]
  rcases hstePswd : config.steKeyPswd with - | stePassword
  · simp [stores, hvault, hirohPswd, hstePswd]
  rw [stores, hvault, hirohPswd, hstePswd]
  refine if_neg fun h => ?_
  obtain ⟨rfl, rfl⟩ := h
  rw [Node.admitted, hvault, hirohPswd, hstePswd] at hrefused
  simp [Keystores.passwords, hm] at hrefused

omit [DecidableEq Id] in
variable (Id) in
theorem leaves_build (hL : L.Correct view) (hste : ste.Correct) (hiroh : iroh.Correct)
    (hm : view.maps w dir = some m) (config : VaultConfig) (index : Nat)
    (irohDraw steDraw : Arr 32) (rest : Bool) : Leaves view name dir m
      (stores ste sr25519 iroh view.resolve dir m.password name
        (.build config index irohDraw steDraw rest : Event Id))
      (Node.build L.toKeystoreLib ste iroh config index irohDraw steDraw rest w).2 := by
  have hbefore := Keystores.opened_of_some (view.resolve (Node.vaultOf config).1)
    (Node.vaultOf config).2 hm
  generalize hopened : Keystores.opened (view.resolve (Node.vaultOf config).1)
    (Node.vaultOf config).2 (view.maps w) = before at hbefore
  rcases hadmitted : Node.admitted view.resolve (Keystores.passwords before) config with
    - | ⟨vaultPassword, irohPassword, stePassword⟩
  · obtain ⟨w', hbuild, hmaps⟩ := Node.build_of_refused ste iroh index irohDraw steDraw rest
      hL.keystore hopened.symm hadmitted
    rw [hbuild, stores_of_refused Id iroh hbefore hadmitted]
    exact leaves_same (hmaps ▸ hbefore)
  · obtain ⟨hvault, hirohPswd, hstePswd, -⟩ := Node.admitted_eq_some hadmitted
    obtain ⟨m₀, steBytes, nv, w', hm₀, hpassword, -, hbuild, hserialize, -, hmaps⟩ :=
      Node.build_of_admitted index irohDraw steDraw rest hL.keystore hste hiroh hopened.symm
        hadmitted
    rw [hbuild, stores, hvault, hirohPswd, hstePswd]
    dsimp only
    by_cases hdir : view.resolve config.vaultDir = dir
    · subst hdir
      obtain rfl := Option.some.inj (hbefore.symm.trans hm₀)
      rw [if_pos ⟨rfl, hpassword.symm⟩, hserialize]
      refine ⟨_, (congrFun hmaps _).trans (Function.update_self ..), Node.started_password, ?_⟩
      rw [Node.started, entries_write (by rw [VaultMap.write_password, hpassword]),
        entries_write hpassword.symm]
      by_cases hsteName : name = SteKeyVault.keyName index
      · simp [hsteName]
      · by_cases hirohName : name = IrohKeyVault.keyName index
        · subst hirohName
          simp [hsteName, Ne.symm hsteName]
        · simp [hsteName, hirohName, Ne.symm hsteName, Ne.symm hirohName]
    · rw [if_neg fun h => hdir h.1]
      exact leaves_elsewhere hbefore hdir hmaps

end Entries

section Signing

variable {W H Dir Id Crs SecretKey PublicKey Ciphertext Share : Type}
  {Pair Public Signature : VaultKind → Type} [DecidableEq Dir] [DecidableEq Id]
  {L : RootsLib W H Signature} {ste : SteLib Crs SecretKey PublicKey Ciphertext Share}
  {sr25519 : Sr25519Lib (Pair .sr25519) (Public .sr25519) (Signature .sr25519)}
  {iroh : IrohLib (Pair .iroh) (Public .iroh) (Signature .iroh)}
  {view : KeystoreView W H Dir} {s : State W H Id (Public .sr25519)} {w : W}
  {dir : Dir} {m : VaultMap} {vaultPassword name keyPassword : Str}

theorem read_eq_some {bytes : Bytes} : m.read name vaultPassword keyPassword = some bytes ↔
    m.password = vaultPassword ∧ m.entries name = some (keyPassword, bytes) := by
  unfold VaultMap.read
  by_cases hpassword : vaultPassword = m.password
  · rw [if_pos hpassword]
    rcases hentry : m.entries name with - | ⟨password, bytes'⟩
    · simp
    · by_cases hkey : keyPassword = password
      · simp [hkey, hpassword]
      · simp [hkey, Ne.symm hkey]
  · simp [hpassword, Ne.symm hpassword]

theorem bind_expect_some {α β : Type} (a : α) (f : α → Action W KeyVaultError β) (t : W) :
    (Action.lift (.expect (some a)) >>= f) t = f a t := Action.bind_of_ok rfl

variable (sr25519 vaultPassword name keyPassword) in
/-- A call of a signer reads the seed under its name, and locks the vault where
there is none to read. -/
theorem openKey_seed {β : Type} (hL : L.Correct view) {lock : Locked H} (f : Pair .sr25519 → β)
    (hm : view.maps w (view.dirOf lock.vault) = some m) {found : Option Bytes} (hfound : found =
      if lock.poisoned then none else m.read name vaultPassword keyPassword) :
    ∃ lock' w', lock.run (Sr25519KeyVault.newStoreInfo vaultPassword name keyPassword)
        (unwrapped ((Sr25519KeyVault.newStoreInfo vaultPassword name keyPassword).openKey
          L.toVaultLib (Sr25519KeyVault.kind sr25519) >>= fun pair => pure (f pair))) w =
        ((Outcome.expect found >>= fun seedBytes =>
          Outcome.expect (sr25519.fromSeedSlice seedBytes)) >>= fun pair => .ok (f pair),
          lock', w') ∧
      view.dirOf lock'.vault = view.dirOf lock.vault ∧ lock'.poisoned = found.isNone ∧
      view.maps w' = view.maps w := by
  have hbytes : found = if lock.poisoned then none else
      (view.maps w (view.dirOf lock.vault)).bind fun m =>
        m.read name vaultPassword keyPassword := by
    rw [hm]
    exact hfound
  obtain ⟨lock', w', hcall, hdir, hlocked, hmaps⟩ := Locked.openKey (Sr25519KeyVault.kind sr25519)
    (Sr25519KeyVault.newStoreInfo vaultPassword name keyPassword) hL.keystore rfl hbytes
  refine ⟨lock', w', ?_, hdir, hlocked, hmaps⟩
  rw [Locked.run_unwrapped, Locked.run_map, hcall]
  rcases found with - | seedBytes
  · rfl
  · rcases hpair : sr25519.fromSeedSlice seedBytes with - | pair
    · simp [Sr25519KeyVault.kind, Outcome.expect, hpair, Outcome.unwrap]
    · simp [Sr25519KeyVault.kind, Outcome.expect, hpair, Outcome.unwrap]

variable (sr25519 vaultPassword name keyPassword) in
theorem signer_new (hL : L.Correct view) {vault : H}
    (hm : view.maps w (view.dirOf vault) = some m) :
    ∃ lock w', PolkadotSigner.new L.toKeystoreLib sr25519 vault
        (Sr25519KeyVault.newStoreInfo vaultPassword name keyPassword) w =
        ((Outcome.expect (m.read name vaultPassword keyPassword) >>= fun seedBytes =>
          Outcome.expect (sr25519.fromSeedSlice seedBytes)) >>= fun pair =>
            .ok ⟨sr25519.publicKey pair,
              Sr25519KeyVault.newStoreInfo vaultPassword name keyPassword, lock⟩, w') ∧
      view.dirOf lock.vault = view.dirOf vault ∧
      lock.poisoned = (m.read name vaultPassword keyPassword).isNone ∧
      view.maps w' = view.maps w := by
  have hlock : view.maps w (view.dirOf (Locked.new vault).vault) = some m := hm
  obtain ⟨lock, w', hcall, hdir, hlocked, hmaps⟩ := openKey_seed sr25519 vaultPassword name
    keyPassword hL sr25519.publicKey hlock (if_neg Bool.false_ne_true).symm
  refine ⟨lock, w', ?_, hdir, hlocked, hmaps⟩
  have hnew : PolkadotSigner.new L.toKeystoreLib sr25519 vault
      (Sr25519KeyVault.newStoreInfo vaultPassword name keyPassword) w = _ :=
    congrArg (fun called : Outcome KeyVaultError (Public .sr25519) × Locked H × W =>
      (called.1 >>= fun accountId => Outcome.ok (PolkadotSigner.mk accountId
        (Sr25519KeyVault.newStoreInfo vaultPassword name keyPassword) called.2.1), called.2.2))
      hcall
  rw [hnew]
  rcases m.read name vaultPassword keyPassword with - | seedBytes
  · rfl
  · rcases hpair : sr25519.fromSeedSlice seedBytes with - | pair
    · simp [Outcome.expect, hpair]
    · simp [Outcome.expect, hpair]

/-- A backend that starts has read its account under its passwords. -/
theorem new_of_ok (hL : L.Correct view) {vaultConfig : SubstrateVaultConfig}
    {signer : PolkadotSigner H (Public .sr25519)} {w' : W}
    (h : SubstrateBackend.new L.toKeystoreLib sr25519 vaultConfig w = (.ok signer, w')) :
    ∃ m keyPassword seedBytes pair, vaultConfig.vaultPswd = some m.password ∧
      vaultConfig.substratePswd = some keyPassword ∧
      view.maps w' (view.resolve vaultConfig.vaultDir) = some m ∧
      m.entries vaultConfig.substrateName = some (keyPassword, seedBytes) ∧
      sr25519.fromSeedSlice seedBytes = some pair ∧
      ∃ lock, signer = ⟨sr25519.publicKey pair,
          Sr25519KeyVault.newStoreInfo m.password vaultConfig.substrateName keyPassword, lock⟩ ∧
        view.dirOf lock.vault = view.resolve vaultConfig.vaultDir ∧ lock.poisoned = false := by
  unfold SubstrateBackend.new at h
  rcases hvault : vaultConfig.vaultPswd with - | vaultPassword
  · rw [hvault] at h
    cases congrArg Prod.fst h
  rw [hvault, bind_expect_some] at h
  rcases Keystores.openOrCreate_cases vaultConfig.vaultDir vaultPassword w hL.keystore with
    ⟨vault, w₁, hopen, hdir, hmaps⟩ | ⟨w₁, hopen, -, -, -⟩
  · rw [Action.bind_of_ok hopen] at h
    rcases hpswd : vaultConfig.substratePswd with - | keyPassword
    · rw [hpswd] at h
      cases congrArg Prod.fst h
    rw [hpswd, bind_expect_some] at h
    obtain ⟨m, hm⟩ := Keystores.opened_self (view.resolve vaultConfig.vaultDir) vaultPassword
      (view.maps w)
    rw [← hmaps] at hm
    obtain ⟨lock, w₂, hnew, hlockDir, hlocked, hsame⟩ := signer_new sr25519 vaultPassword
      vaultConfig.substrateName keyPassword hL (hdir.symm ▸ hm)
    rw [h, Prod.mk.injEq] at hnew
    obtain ⟨hfst, rfl⟩ := hnew
    obtain ⟨pair, hread, hsigner⟩ := Outcome.bind_eq_ok.mp hfst.symm
    obtain ⟨seedBytes, hseed, hpair⟩ := Outcome.bind_eq_ok.mp hread
    rw [Outcome.expect_eq_ok] at hseed hpair
    rw [hseed] at hlocked
    obtain ⟨rfl, hentry⟩ := read_eq_some.mp hseed
    exact ⟨m, keyPassword, seedBytes, pair, rfl, rfl, (congrFun hsame _).trans hm, hentry, hpair,
      lock, (Outcome.ok.inj hsigner).symm, hlockDir.trans hdir, hlocked⟩
  · rw [Action.bind_of_panic hopen] at h
    cases congrArg Prod.fst h

/-- It starts where such a key lies. -/
theorem new_of_entry (hL : L.Correct view) {vaultConfig : SubstrateVaultConfig}
    {seedBytes : Bytes} {pair : Pair .sr25519}
    (hm : view.maps w (view.resolve vaultConfig.vaultDir) = some m)
    (hvault : vaultConfig.vaultPswd = some m.password)
    (hpswd : vaultConfig.substratePswd = some keyPassword)
    (hentry : m.entries vaultConfig.substrateName = some (keyPassword, seedBytes))
    (hpair : sr25519.fromSeedSlice seedBytes = some pair) :
    ∃ signer w', SubstrateBackend.new L.toKeystoreLib sr25519 vaultConfig w =
        (.ok signer, w') ∧ signer.accountId = sr25519.publicKey pair := by
  rcases Keystores.openOrCreate_cases vaultConfig.vaultDir m.password w hL.keystore with
    ⟨vault, w₁, hopen, hdir, hmaps⟩ | ⟨-, -, -, -, hwrong⟩
  · have hm₁ : view.maps w₁ (view.dirOf vault) = some m := by
      rw [hmaps, hdir]
      exact Keystores.opened_of_some _ _ hm
    obtain ⟨lock, w₂, hnew, -⟩ :=
      signer_new sr25519 m.password vaultConfig.substrateName keyPassword hL hm₁
    have hseed : m.read vaultConfig.substrateName m.password keyPassword = some seedBytes :=
      read_eq_some.mpr ⟨rfl, hentry⟩
    rw [hseed] at hnew
    simp only [Outcome.expect, Outcome.ok_bind, hpair] at hnew
    refine ⟨⟨sr25519.publicKey pair, Sr25519KeyVault.newStoreInfo m.password
      vaultConfig.substrateName keyPassword, lock⟩, w₂, ?_, rfl⟩
    rw [SubstrateBackend.new, hvault, hpswd, bind_expect_some, Action.bind_of_ok hopen,
      bind_expect_some, hnew]
  · refine absurd ?_ hwrong
    rw [Keystores.passwords, hm]
    rfl

variable (sr25519 name) in
theorem leaves_new (hL : L.Correct view) (vaultConfig : SubstrateVaultConfig)
    (hm : view.maps w dir = some m) :
    Leaves view name dir m none
      (SubstrateBackend.new L.toKeystoreLib sr25519 vaultConfig w).2 := by
  refine leaves_same ?_
  unfold SubstrateBackend.new
  rcases vaultConfig.vaultPswd with - | vaultPassword
  · exact hm
  rw [bind_expect_some]
  rcases Keystores.openOrCreate_cases vaultConfig.vaultDir vaultPassword w hL.keystore with
    ⟨vault, w₁, hopen, hdir, hmaps⟩ | ⟨w₁, hopen, hmaps, -, -⟩
  · have hm₁ : view.maps w₁ dir = some m := by
      rw [hmaps]
      exact Keystores.opened_of_some _ _ hm
    rw [Action.bind_of_ok hopen]
    rcases vaultConfig.substratePswd with - | keyPassword
    · exact hm₁
    rw [bind_expect_some]
    obtain ⟨m', hm'⟩ := Keystores.opened_self (view.resolve vaultConfig.vaultDir) vaultPassword
      (view.maps w)
    rw [← hmaps, ← hdir] at hm'
    obtain ⟨lock, w₂, hnew, -, -, hsame⟩ :=
      signer_new sr25519 vaultPassword vaultConfig.substrateName keyPassword hL hm'
    rw [hnew, hsame]
    exact hm₁
  · rw [Action.bind_of_panic hopen, hmaps]
    exact hm

end Signing

end SigningAccounts

end Fangorn
