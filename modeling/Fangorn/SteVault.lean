import Fangorn.Keystores

/-! The key vault of the threshold scheme, and what `Node::build` does in the
keystores: each start of a node generates both of its keys, under names that
come from its index. -/

namespace Fangorn

open Rust Scale

/-- The keys of `silent_threshold_encryption` and their compressed form. -/
structure SteLib (Crs SecretKey PublicKey Ciphertext Share : Type) where
  new : Arr 32 → Nat → SecretKey
  serializeCompressed : SecretKey → Option Bytes
  deserializeCompressed : Bytes → Option SecretKey
  getPk : SecretKey → Crs → PublicKey
  partialDecryption : SecretKey → Ciphertext → Share

structure SteLib.Correct {Crs SecretKey PublicKey Ciphertext Share : Type}
    (lib : SteLib Crs SecretKey PublicKey Ciphertext Share) : Prop where
  deserialize : ∀ sk, ∃ skBytes, lib.serializeCompressed sk = some skBytes ∧
    lib.deserializeCompressed skBytes = some sk

structure SteKeyVault where
  keys : KeyVault
  index : Nat

namespace SteKeyVault

variable {V Crs SecretKey PublicKey Ciphertext Share : Type} (L : VaultLib V)
  (lib : SteLib Crs SecretKey PublicKey Ciphertext Share)

def keyName (index : Nat) : Str := "ste_key_idx_".toList ++ Nat.toDigits 10 index

def new (index : Nat) : SteKeyVault := ⟨⟨keyName index, none, none, false⟩, index⟩

def newStoreInfo (vaultPassword keyPassword : Str) (index : Nat) : SteKeyVault :=
  ⟨⟨keyName index, some keyPassword, some vaultPassword, true⟩, index⟩

/-- These keys do not sign, and their public keys need a CRS. -/
def kind (index : Nat) : KeyKind SecretKey Unit Unit where
  fresh draw := do
    let sk := lib.new draw index
    let skBytes ← .expect (lib.serializeCompressed sk)
    .ok (sk, skBytes)
  ofBytes skBytes := .expect (lib.deserializeCompressed skBytes)
  publicKey _ := ()
  sign _ _ _ := ()
  verify _ _ _ := true

variable (kv : SteKeyVault)

def generateKey (draw : Arr 32) : Action (Vaults V) KeyVaultError Unit :=
  kv.keys.generate L (kind lib kv.index) kv.keys.passwords .panic draw

def getPk (crs : Crs) : Action (Vaults V) KeyVaultError PublicKey := do
  let sk ← kv.keys.openKey L (kind lib kv.index)
  pure (lib.getPk sk crs)

def partialDecryption (ciphertext : Ciphertext) : Action (Vaults V) KeyVaultError Share := do
  let sk ← kv.keys.openKey L (kind lib kv.index)
  pure (lib.partialDecryption sk ciphertext)

end SteKeyVault

def IrohKeyVault.getSecretKey {V SecretKey Public Signature : Type} (L : VaultLib V)
    (lib : IrohLib SecretKey Public Signature) (kv : KeyVault) :
    Action (Vaults V) KeyVaultError SecretKey :=
  kv.openKey L (kind lib)

structure VaultConfig where
  vaultDir : Str
  vaultPswd : Option Str
  irohKeyPswd : Option Str
  steKeyPswd : Option Str

/-- The key vaults of a node, each with a vault of its own behind a lock. -/
structure NodeVaults (H : Type) where
  irohVault : KeyVault
  irohLock : Locked H
  steVault : SteKeyVault
  steLock : Locked H

namespace Node

variable {W H Crs SecretKey PublicKey Ciphertext Share IrohSecret IrohPublic IrohSignature : Type}
  (L : KeystoreLib W H) (ste : SteLib Crs SecretKey PublicKey Ciphertext Share)
  (iroh : IrohLib IrohSecret IrohPublic IrohSignature)

def createVaults (config : VaultConfig) (index : Nat) : Action W KeyVaultError (NodeVaults H) :=
  match config.vaultPswd with
  | some vaultPswd => do
    let vault ← Keystores.opening (L.openOrCreate config.vaultDir vaultPswd)
    let irohPassword ← .lift (.expect config.irohKeyPswd)
    let irohVault := IrohKeyVault.newStoreInfo vaultPswd irohPassword index
    let stePassword ← .lift (.expect config.steKeyPswd)
    let steVault := SteKeyVault.newStoreInfo vaultPswd stePassword index
    pure ⟨irohVault, .new (L.clone vault), steVault, .new vault⟩
  | none => do
    let vault ← Keystores.opening
      (L.openOrCreate "tmp/keystore".toList "vault_password".toList)
    pure ⟨IrohKeyVault.new index, .new (L.clone vault), SteKeyVault.new index, .new vault⟩

section Calls

variable {α : Type}

def onIroh (call : KeyVault → Action (Vaults (H × W)) KeyVaultError α) :
    Action (NodeVaults H × W) KeyVaultError α := fun s =>
  let (result, lock, w) := s.1.irohLock.run s.1.irohVault (call s.1.irohVault) s.2
  (result, { s.1 with irohLock := lock }, w)

def onSte (call : SteKeyVault → Action (Vaults (H × W)) KeyVaultError α) :
    Action (NodeVaults H × W) KeyVaultError α := fun s =>
  let (result, lock, w) := s.1.steLock.run s.1.steVault.keys (call s.1.steVault) s.2
  (result, { s.1 with steLock := lock }, w)

end Calls

/-- The keys that `build` generates, and the key that the endpoint runs with. -/
def startKeys (irohDraw steDraw : Arr 32) :
    Action (NodeVaults H × W) KeyVaultError (IrohSecret × IrohPublic) := do
  let _ ← unwrapped (onIroh fun kv => IrohKeyVault.generateKey L.toVaultLib iroh kv irohDraw)
  let _ ← unwrapped (onSte fun kv => kv.generateKey L.toVaultLib ste steDraw)
  let secretKey ← unwrapped (onIroh (IrohKeyVault.getSecretKey L.toVaultLib iroh))
  let publicKey ← unwrapped (onIroh (IrohKeyVault.getPublicKey L.toVaultLib iroh))
  pure (secretKey, publicKey)

/-- `rest` is whether what comes behind the keys goes through: the discovery, the
endpoint, the documents and the file of the public key. -/
def build (config : VaultConfig) (index : Nat) (irohDraw steDraw : Arr 32) (rest : Bool) :
    Action W KeyVaultError (NodeVaults H × IrohSecret × IrohPublic) := fun w =>
  match unwrapped (createVaults L config index) w with
  | (.ok nv, w) =>
    let (keys, nv, w) := startKeys L ste iroh irohDraw steDraw (nv, w)
    (keys >>= fun keys => if rest then .ok (nv, keys) else .panic, w)
  | (.err e, w) => (.err e, w)
  | (.panic, w) => (.panic, w)

/-- Nothing is read from the vault while the node has no config. -/
def getPk (config : Option Crs) (steVault : SteKeyVault) :
    Action (Vaults (H × W)) KeyVaultError (Option PublicKey) :=
  match config with
  | some crs => do
    let pk ← unwrapped (steVault.getPk L.toVaultLib ste crs)
    pure (some pk)
  | none => pure none

end Node

namespace SteKeyVault

variable {Crs SecretKey PublicKey Ciphertext Share : Type}
  {lib : SteLib Crs SecretKey PublicKey Ciphertext Share}

theorem kind_fresh (hlib : lib.Correct) (draw : Arr 32) (index : Nat) :
    ∃ skBytes, lib.serializeCompressed (lib.new draw index) = some skBytes ∧
      (kind lib index).fresh draw = .ok (lib.new draw index, skBytes) ∧
      lib.deserializeCompressed skBytes = some (lib.new draw index) := by
  obtain ⟨skBytes, hserialize, hdeserialize⟩ := hlib.deserialize (lib.new draw index)
  refine ⟨skBytes, hserialize, ?_, hdeserialize⟩
  simp [kind, hserialize, Outcome.expect]

theorem toDigits_injective : Function.Injective (Nat.toDigits 10) := by
  intro i j h
  have hi := Nat.ofDigitChars_toDigits (b := 10) (n := i) (by omega) (by omega)
  rw [h] at hi
  exact hi.symm.trans (Nat.ofDigitChars_toDigits (by omega) (by omega))

theorem keyName_injective : Function.Injective keyName := fun _ _ h =>
  toDigits_injective (List.append_cancel_left h)

theorem stem_ne {i j : Str} : "ste_key_idx_".toList ++ i ≠ "iroh_key_idx_".toList ++ j := by
  intro h
  simp at h

theorem keyName_ne (i j : Nat) : keyName i ≠ IrohKeyVault.keyName j := stem_ne

end SteKeyVault

namespace Node

variable {W H Dir Crs SecretKey PublicKey Ciphertext Share IrohSecret IrohPublic
  IrohSignature : Type} {L : KeystoreLib W H} {view : KeystoreView W H Dir}
  {ste : SteLib Crs SecretKey PublicKey Ciphertext Share}
  {iroh : IrohLib IrohSecret IrohPublic IrohSignature}
  {index : Nat} {irohDraw steDraw : Arr 32} {vaultPassword irohPassword stePassword : Str}
  {nv : NodeVaults H} {w w' : W}

/-- The map after a start: both keys are in it. -/
def started (index : Nat) (irohBytes steBytes : Bytes)
    (vaultPassword irohPassword stePassword : Str) (m : VaultMap) : VaultMap :=
  ((m.write (IrohKeyVault.keyName index) irohBytes vaultPassword irohPassword).2.write
    (SteKeyVault.keyName index) steBytes vaultPassword stePassword).2

section Started

variable {irohBytes steBytes : Bytes} {m : VaultMap}

theorem started_password :
    (started index irohBytes steBytes vaultPassword irohPassword stePassword m).password =
      m.password := by
  rw [started, VaultMap.write_password, VaultMap.write_password]

theorem started_entry (hvault : vaultPassword = m.password) :
    (started index irohBytes steBytes vaultPassword irohPassword stePassword m).entries
      (SteKeyVault.keyName index) = some (stePassword, steBytes) := by
  rw [started, VaultMap.write, if_pos (by rw [VaultMap.write_password]; exact hvault)]
  exact Function.update_self ..

theorem started_of_ne {i : Nat} (hi : i ≠ index) :
    (started index irohBytes steBytes vaultPassword irohPassword stePassword m).entries
      (SteKeyVault.keyName i) = m.entries (SteKeyVault.keyName i) := by
  have hname : SteKeyVault.keyName i ≠ SteKeyVault.keyName index :=
    SteKeyVault.keyName_injective.ne hi
  rw [started, VaultMap.write_entries_of_ne hname,
    VaultMap.write_entries_of_ne (SteKeyVault.keyName_ne i index)]

end Started

section Calls

variable {α : Type} {lock' : Locked H}

theorem onIroh_of_ok {call : KeyVault → Action (Vaults (H × W)) KeyVaultError α} {a : α}
    (h : nv.irohLock.run nv.irohVault (call nv.irohVault) w = (.ok a, lock', w')) :
    unwrapped (onIroh call) (nv, w) = (.ok a, { nv with irohLock := lock' }, w') := by
  rw [unwrapped_of_ok]
  rw [onIroh, h]

theorem onIroh_of_panic {call : KeyVault → Action (Vaults (H × W)) KeyVaultError α}
    (h : nv.irohLock.run nv.irohVault (call nv.irohVault) w = (.panic, lock', w')) :
    unwrapped (onIroh call) (nv, w) = (.panic, { nv with irohLock := lock' }, w') := by
  rw [unwrapped, onIroh, h]
  rfl

theorem onSte_of_ok {call : SteKeyVault → Action (Vaults (H × W)) KeyVaultError α} {a : α}
    (h : nv.steLock.run nv.steVault.keys (call nv.steVault) w = (.ok a, lock', w')) :
    unwrapped (onSte call) (nv, w) = (.ok a, { nv with steLock := lock' }, w') := by
  rw [unwrapped_of_ok]
  rw [onSte, h]

end Calls

section Starting

variable [DecidableEq Dir]

/-- The vaults of a node that has its passwords, new on a directory. -/
structure Fresh (view : KeystoreView W H Dir) (index : Nat)
    (vaultPassword irohPassword stePassword : Str) (dir : Dir) (nv : NodeVaults H) : Prop where
  irohVault : nv.irohVault = IrohKeyVault.newStoreInfo vaultPassword irohPassword index
  steVault : nv.steVault = SteKeyVault.newStoreInfo vaultPassword stePassword index
  irohDir : view.dirOf nv.irohLock.vault = dir
  steDir : view.dirOf nv.steLock.vault = dir
  irohFree : nv.irohLock.poisoned = false
  steFree : nv.steLock.poisoned = false

variable {dir : Dir} {m : VaultMap}

theorem started_iroh_read (irohBytes steBytes : Bytes) :
    (started index irohBytes steBytes m.password irohPassword stePassword m).read
      (IrohKeyVault.keyName index) m.password irohPassword = some irohBytes := by
  have hentry : (started index irohBytes steBytes m.password irohPassword stePassword m).entries
      (IrohKeyVault.keyName index) = some (irohPassword, irohBytes) := by
    rw [started, VaultMap.write_entries_of_ne (SteKeyVault.keyName_ne index index).symm,
      VaultMap.write, if_pos rfl]
    exact Function.update_self ..
  simp [VaultMap.read, started_password, hentry]

variable (iroh irohDraw steDraw) in
theorem generateKeys_of_admitted (hL : L.Implements view) (hste : ste.Correct)
    (hnv : Fresh view index m.password irohPassword stePassword dir nv)
    (hm : view.maps w dir = some m) :
    ∃ publicKey steBytes irohLock steLock w₁ w₂,
      nv.irohLock.run nv.irohVault
        (IrohKeyVault.generateKey L.toVaultLib iroh nv.irohVault irohDraw) w =
          (.ok publicKey, irohLock, w₁) ∧
      nv.steLock.run nv.steVault.keys (nv.steVault.generateKey L.toVaultLib ste steDraw) w₁ =
        (.ok (), steLock, w₂) ∧
      Fresh view index m.password irohPassword stePassword dir
        { nv with irohLock := irohLock, steLock := steLock } ∧
      ste.serializeCompressed (ste.new steDraw index) = some steBytes ∧
      ste.deserializeCompressed steBytes = some (ste.new steDraw index) ∧
      view.maps w₂ = Function.update (view.maps w) dir
        (some (started index (iroh.toBytes (iroh.generate irohDraw)).1 steBytes m.password
          irohPassword stePassword m)) := by
  obtain ⟨steBytes, hserialize, hsteFresh, hsteBytes⟩ := SteKeyVault.kind_fresh hste steDraw index
  have hirohFresh : (IrohKeyVault.kind iroh).fresh irohDraw =
      .ok (iroh.generate irohDraw, (iroh.toBytes (iroh.generate irohDraw)).1) := rfl
  obtain ⟨irohVault, irohLock, steVault, steLock⟩ := nv
  obtain ⟨rfl, rfl, hirohDir, hsteDir, hirohFree, hsteFree⟩ := hnv
  obtain ⟨irohLock₁, w₁, hcall₁, hdir₁, hfree₁, hmaps₁⟩ := Locked.generate
    (IrohKeyVault.kind iroh) (IrohKeyVault.newStoreInfo m.password irohPassword index) .panic hL
    hirohFresh rfl (hirohDir ▸ hm) hirohFree
  rw [if_pos rfl] at hcall₁
  rw [hirohDir] at hmaps₁
  have hm₁ : view.maps w₁ dir = some (m.write (IrohKeyVault.keyName index)
      (iroh.toBytes (iroh.generate irohDraw)).1 m.password irohPassword).2 := by
    rw [hmaps₁]
    exact Function.update_self ..
  obtain ⟨steLock₂, w₂, hcall₂, hdir₂, hfree₂, hmaps₂⟩ := Locked.generate
    (SteKeyVault.kind ste index) (SteKeyVault.newStoreInfo m.password stePassword index).keys .panic
    hL hsteFresh rfl (hsteDir ▸ hm₁) hsteFree
  rw [if_pos VaultMap.write_password.symm] at hcall₂
  rw [hsteDir, hmaps₁, Function.update_idem] at hmaps₂
  exact ⟨_, steBytes, irohLock₁, steLock₂, w₁, w₂, hcall₁, hcall₂,
    ⟨rfl, rfl, hdir₁.trans hirohDir, hdir₂.trans hsteDir, hfree₁ rfl,
      hfree₂ VaultMap.write_password.symm⟩, hserialize, hsteBytes, hmaps₂⟩

theorem irohKey_of_started (hL : L.Implements view) (hiroh : iroh.Correct)
    (hnv : Fresh view index m.password irohPassword stePassword dir nv) {steBytes : Bytes}
    (hm : view.maps w dir = some (started index (iroh.toBytes (iroh.generate irohDraw)).1 steBytes
      m.password irohPassword stePassword m)) :
    ∃ lock w', nv.irohLock.run nv.irohVault
        (nv.irohVault.openKey L.toVaultLib (IrohKeyVault.kind iroh)) w =
          (.ok (iroh.generate irohDraw), lock, w') ∧
      Fresh view index m.password irohPassword stePassword dir { nv with irohLock := lock } ∧
      view.maps w' = view.maps w := by
  obtain ⟨irohVault, irohLock, steVault, steLock⟩ := nv
  obtain ⟨rfl, rfl, rfl, hsteDir, hirohFree, hsteFree⟩ := hnv
  have hfound : some (iroh.toBytes (iroh.generate irohDraw)).1 =
      if irohLock.poisoned then none else (view.maps w (view.dirOf irohLock.vault)).bind fun m' =>
        m'.read (IrohKeyVault.keyName index) m.password irohPassword := by
    have hfree : irohLock.poisoned = false := hirohFree
    rw [hfree, hm, Option.bind_some, started_iroh_read]
    rfl
  obtain ⟨lock, w', hcall, hdir, hlocked, hmaps⟩ := Locked.openKey (IrohKeyVault.kind iroh)
    (IrohKeyVault.newStoreInfo m.password irohPassword index) hL rfl hfound
  have hopened : (Outcome.expect (some (iroh.toBytes (iroh.generate irohDraw)).1) >>=
      (IrohKeyVault.kind iroh).ofBytes : Outcome KeyVaultError IrohSecret) =
        .ok (iroh.generate irohDraw) := by
    simp [IrohKeyVault.kind, IrohKeyVault.secretBytes_toArray, hiroh.fromBytes, Outcome.expect]
  rw [hopened] at hcall
  exact ⟨lock, w', hcall, ⟨rfl, rfl, hdir, hsteDir, hlocked, hsteFree⟩, hmaps⟩

variable (irohDraw steDraw) in
theorem startKeys_of_admitted (hL : L.Implements view) (hste : ste.Correct) (hiroh : iroh.Correct)
    (hnv : Fresh view index m.password irohPassword stePassword dir nv)
    (hm : view.maps w dir = some m) :
    ∃ steBytes nv' w', startKeys L ste iroh irohDraw steDraw (nv, w) =
        (.ok (iroh.generate irohDraw, iroh.publicKey (iroh.generate irohDraw)), nv', w') ∧
      Fresh view index m.password irohPassword stePassword dir nv' ∧
      ste.serializeCompressed (ste.new steDraw index) = some steBytes ∧
      ste.deserializeCompressed steBytes = some (ste.new steDraw index) ∧
      view.maps w' = Function.update (view.maps w) dir
        (some (started index (iroh.toBytes (iroh.generate irohDraw)).1 steBytes m.password
          irohPassword stePassword m)) := by
  obtain ⟨publicKey, steBytes, irohLock₁, steLock, w₁, w₂, hcall₁, hcall₂, hnv₂, hserialize,
    hbytes, hmaps₂⟩ := generateKeys_of_admitted iroh irohDraw steDraw hL hste hnv hm
  have hm₂ : view.maps w₂ dir = some (started index (iroh.toBytes (iroh.generate irohDraw)).1
      steBytes m.password irohPassword stePassword m) := by
    rw [hmaps₂]
    exact Function.update_self ..
  obtain ⟨irohLock₃, w₃, hcall₃, hnv₃, hmaps₃⟩ := irohKey_of_started hL hiroh hnv₂ hm₂
  obtain ⟨irohLock₄, w₄, hcall₄, hnv₄, hmaps₄⟩ :=
    irohKey_of_started hL hiroh hnv₃ ((congrFun hmaps₃ dir).trans hm₂)
  have hcall₅ : irohLock₃.run nv.irohVault
      (IrohKeyVault.getPublicKey L.toVaultLib iroh nv.irohVault) w₃ =
        (.ok (iroh.publicKey (iroh.generate irohDraw)), irohLock₄, w₄) := by
    refine (Locked.run_map _).trans ?_
    rw [hcall₄]
    rfl
  refine ⟨steBytes, _, w₄, ?_, hnv₄, hserialize, hbytes, hmaps₄.trans (hmaps₃.trans hmaps₂)⟩
  rw [startKeys]
  refine (Action.bind_of_ok (onIroh_of_ok hcall₁)).trans ?_
  refine (Action.bind_of_ok (onSte_of_ok hcall₂)).trans ?_
  refine (Action.bind_of_ok (onIroh_of_ok hcall₃)).trans ?_
  exact Action.bind_of_ok (onIroh_of_ok hcall₅)

variable (L ste iroh irohDraw steDraw w nv) in
theorem startKeys_of_interactive (hnv : nv.irohVault = IrohKeyVault.new index) :
    ∃ nv', startKeys L ste iroh irohDraw steDraw (nv, w) = (.panic, nv', w) := by
  have hcall : nv.irohLock.run nv.irohVault
      (IrohKeyVault.generateKey L.toVaultLib iroh nv.irohVault irohDraw) w =
        (.panic, nv.irohLock, w) := by
    rw [hnv]
    rfl
  exact ⟨_, Action.bind_of_panic (onIroh_of_panic hcall)⟩

variable (ste iroh irohDraw steDraw nv) in
theorem startKeys_of_wrong (hL : L.Implements view)
    (hnv : nv.irohVault = IrohKeyVault.newStoreInfo vaultPassword irohPassword index)
    (hdir : view.dirOf nv.irohLock.vault = dir) (hfree : nv.irohLock.poisoned = false)
    (hm : view.maps w dir = some m) (hwrong : vaultPassword ≠ m.password) :
    ∃ nv' w', startKeys L ste iroh irohDraw steDraw (nv, w) = (.panic, nv', w') ∧
      view.maps w' = view.maps w := by
  have hfresh : (IrohKeyVault.kind iroh).fresh irohDraw =
      .ok (iroh.generate irohDraw, (iroh.toBytes (iroh.generate irohDraw)).1) := rfl
  have hpass : nv.irohVault.passwords = .ok (vaultPassword, irohPassword) := by
    rw [hnv]
    rfl
  obtain ⟨lock', w', hcall, -, -, hmaps⟩ := Locked.generate (IrohKeyVault.kind iroh) nv.irohVault
    .panic hL hfresh hpass (hdir ▸ hm) hfree
  rw [if_neg hwrong] at hcall
  refine ⟨_, w', Action.bind_of_panic (onIroh_of_panic hcall), ?_⟩
  rw [hmaps, VaultMap.write, if_neg hwrong, hdir, ← hm]
  exact Function.update_eq_self ..

end Starting

section Building

variable [DecidableEq Dir] {dir : Dir} {config : VaultConfig} {m : VaultMap} {rest : Bool}

theorem build_of_uncreated (hcreate : createVaults L config index w = (.panic, w')) :
    build L ste iroh config index irohDraw steDraw rest w = (.panic, w') := by
  have hpanic := unwrapped_of_panic (congrArg Prod.fst hcreate)
  rw [hcreate] at hpanic
  rw [build, hpanic]

theorem build_of_created {keys : Outcome KeyVaultError (IrohSecret × IrohPublic)}
    {nv' : NodeVaults H} {w'' : W} (hcreate : createVaults L config index w = (.ok nv, w'))
    (hstart : startKeys L ste iroh irohDraw steDraw (nv, w') = (keys, nv', w'')) :
    build L ste iroh config index irohDraw steDraw rest w =
      (keys >>= fun keys => if rest then .ok (nv', keys) else .panic, w'') := by
  rw [build, unwrapped_of_ok hcreate]
  simp only [hstart]

/-- The passwords of a start that goes through, for the vault passwords of the
directories. -/
def admitted (resolve : Str → Dir) (passwords : Dir → Option Str) (config : VaultConfig) :
    Option (Str × Str × Str) :=
  match config.vaultPswd, config.irohKeyPswd, config.steKeyPswd with
  | some vaultPassword, some irohPassword, some stePassword =>
    if passwords (resolve config.vaultDir) = some vaultPassword then
      some (vaultPassword, irohPassword, stePassword)
    else none
  | _, _, _ => none

/-- The vault that a start opens, and with which password. -/
def vaultOf (config : VaultConfig) : Str × Str :=
  match config.vaultPswd with
  | some vaultPassword => (config.vaultDir, vaultPassword)
  | none => ("tmp/keystore".toList, "vault_password".toList)

omit [DecidableEq Dir] in
theorem admitted_eq_some {resolve : Str → Dir} {passwords : Dir → Option Str}
    (h : admitted resolve passwords config = some (vaultPassword, irohPassword, stePassword)) :
    config.vaultPswd = some vaultPassword ∧ config.irohKeyPswd = some irohPassword ∧
      config.steKeyPswd = some stePassword ∧
      passwords (resolve config.vaultDir) = some vaultPassword := by
  unfold admitted at h
  split at h
  · rename_i hvault hiroh hste
    split_ifs at h with hpassword
    cases h
    exact ⟨hvault, hiroh, hste, hpassword⟩
  · cases h

/-- What `create_vaults` makes of an opened vault. -/
def vaultsOn (L : KeystoreLib W H) (config : VaultConfig) (index : Nat) (vault : H) :
    Outcome KeyVaultError (NodeVaults H) :=
  match config.vaultPswd, config.irohKeyPswd, config.steKeyPswd with
  | none, _, _ => .ok ⟨IrohKeyVault.new index, .new (L.clone vault), SteKeyVault.new index,
      .new vault⟩
  | some vaultPassword, some irohPassword, some stePassword =>
    .ok ⟨IrohKeyVault.newStoreInfo vaultPassword irohPassword index, .new (L.clone vault),
      SteKeyVault.newStoreInfo vaultPassword stePassword index, .new vault⟩
  | some _, _, _ => .panic

omit [DecidableEq Dir] in
variable (index) in
theorem createVaults_of_ok {vault : H} (hopen : Keystores.opening
    (L.openOrCreate (vaultOf config).1 (vaultOf config).2) w = (.ok vault, w')) :
    createVaults L config index w = (vaultsOn L config index vault, w') := by
  rcases hvault : config.vaultPswd with - | vaultPassword
  · simp only [vaultOf, hvault] at hopen
    simp only [createVaults, vaultsOn, hvault]
    exact Action.bind_of_ok hopen
  · simp only [vaultOf, hvault] at hopen
    simp only [createVaults, vaultsOn, hvault]
    refine (Action.bind_of_ok hopen).trans ?_
    rcases config.irohKeyPswd with - | irohPassword
    · rfl
    · rcases config.steKeyPswd with - | stePassword
      · rfl
      · rfl

omit [DecidableEq Dir] in
variable (index) in
theorem createVaults_of_panic (hopen : Keystores.opening
    (L.openOrCreate (vaultOf config).1 (vaultOf config).2) w = (.panic, w')) :
    createVaults L config index w = (.panic, w') := by
  rcases hvault : config.vaultPswd with - | vaultPassword
  · simp only [vaultOf, hvault] at hopen
    simp only [createVaults, hvault]
    exact Action.bind_of_panic hopen
  · simp only [vaultOf, hvault] at hopen
    simp only [createVaults, hvault]
    exact Action.bind_of_panic hopen

variable (index irohDraw steDraw rest) in
theorem build_of_admitted (hL : L.Implements view) (hste : ste.Correct) (hiroh : iroh.Correct)
    {before : Dir → Option VaultMap} (hbefore : before =
      Keystores.opened (view.resolve (vaultOf config).1) (vaultOf config).2 (view.maps w))
    (h : admitted view.resolve (Keystores.passwords before) config =
      some (vaultPassword, irohPassword, stePassword)) :
    ∃ m steBytes nv w',
      before (view.resolve config.vaultDir) = some m ∧ m.password = vaultPassword ∧
      Fresh view index vaultPassword irohPassword stePassword (view.resolve config.vaultDir) nv ∧
      build L ste iroh config index irohDraw steDraw rest w =
        (if rest then .ok (nv, iroh.generate irohDraw, iroh.publicKey (iroh.generate irohDraw))
          else .panic, w') ∧
      ste.serializeCompressed (ste.new steDraw index) = some steBytes ∧
      ste.deserializeCompressed steBytes = some (ste.new steDraw index) ∧
      view.maps w' = Function.update before (view.resolve config.vaultDir)
        (some (started index (iroh.toBytes (iroh.generate irohDraw)).1 steBytes vaultPassword
          irohPassword stePassword m)) := by
  obtain ⟨hvaultPswd, hirohPswd, hstePswd, hpassword⟩ := admitted_eq_some h
  have hvaultOf : vaultOf config = (config.vaultDir, vaultPassword) := by
    rw [vaultOf, hvaultPswd]
  obtain ⟨m, hm, rfl⟩ := Option.map_eq_some_iff.mp hpassword
  rcases Keystores.openOrCreate_cases (vaultOf config).1 (vaultOf config).2 w hL with
    ⟨vault, w₁, hopen, hdir, hmaps⟩ | ⟨-, -, -, hsame, hwrong⟩
  · rw [← hbefore] at hmaps
    rw [hvaultOf] at hdir
    have hcreate := createVaults_of_ok index hopen
    rw [vaultsOn, hvaultPswd, hirohPswd, hstePswd] at hcreate
    have hnv : Fresh view index m.password irohPassword stePassword
        (view.resolve config.vaultDir) ⟨IrohKeyVault.newStoreInfo m.password irohPassword index,
          .new (L.clone vault), SteKeyVault.newStoreInfo m.password stePassword index,
          .new vault⟩ :=
      ⟨rfl, rfl, (hL.clone vault).trans hdir, hdir, rfl, rfl⟩
    obtain ⟨steBytes, nv', w₂, hstart, hnv', hserialize, hbytes, hafter⟩ :=
      startKeys_of_admitted irohDraw steDraw hL hste hiroh hnv (hmaps ▸ hm)
    refine ⟨m, steBytes, nv', w₂, hm, rfl, hnv', ?_, hserialize, hbytes, ?_⟩
    · rw [build_of_created hcreate hstart]
      rfl
    · rw [hafter, hmaps]
  · rw [hvaultOf] at hsame hwrong hbefore
    rw [hbefore, hsame] at hpassword
    exact absurd hpassword hwrong

variable (ste iroh index irohDraw steDraw rest) in
theorem build_of_refused (hL : L.Implements view) {before : Dir → Option VaultMap}
    (hbefore : before =
      Keystores.opened (view.resolve (vaultOf config).1) (vaultOf config).2 (view.maps w))
    (h : admitted view.resolve (Keystores.passwords before) config = none) :
    ∃ w', build L ste iroh config index irohDraw steDraw rest w = (.panic, w') ∧
      view.maps w' = before := by
  rcases Keystores.openOrCreate_cases (vaultOf config).1 (vaultOf config).2 w hL with
    ⟨vault, w₁, hopen, hdir, hmaps⟩ | ⟨w₁, hopen, hmaps, hsame, -⟩
  · rw [← hbefore] at hmaps
    have hcreate := createVaults_of_ok index hopen
    -- the start fails behind the opened vault, which it leaves as it is
    have hfails {nv nv' : NodeVaults H} {w₂ : W} (hok : vaultsOn L config index vault = .ok nv)
        (hstart : startKeys L ste iroh irohDraw steDraw (nv, w₁) = (.panic, nv', w₂))
        (hafter : view.maps w₂ = view.maps w₁) :
        ∃ w', build L ste iroh config index irohDraw steDraw rest w = (.panic, w') ∧
          view.maps w' = before :=
      ⟨w₂, build_of_created (hok ▸ hcreate) hstart, hafter.trans hmaps⟩
    rcases hvaultPswd : config.vaultPswd with - | vaultPassword
    · have hok : vaultsOn L config index vault = .ok ⟨IrohKeyVault.new index,
          .new (L.clone vault), SteKeyVault.new index, .new vault⟩ := by
        rw [vaultsOn, hvaultPswd]
      obtain ⟨nv', hstart⟩ := startKeys_of_interactive L ste iroh irohDraw steDraw
        ⟨IrohKeyVault.new index, .new (L.clone vault), SteKeyVault.new index, .new vault⟩ w₁ rfl
      exact hfails hok hstart rfl
    · rcases hirohPswd : config.irohKeyPswd with - | irohPassword
      · refine ⟨w₁, build_of_uncreated ?_, hmaps⟩
        rw [hcreate, vaultsOn, hvaultPswd, hirohPswd]
      · rcases hstePswd : config.steKeyPswd with - | stePassword
        · refine ⟨w₁, build_of_uncreated ?_, hmaps⟩
          rw [hcreate, vaultsOn, hvaultPswd, hirohPswd, hstePswd]
        · have hok : vaultsOn L config index vault =
              .ok ⟨IrohKeyVault.newStoreInfo vaultPassword irohPassword index,
                .new (L.clone vault), SteKeyVault.newStoreInfo vaultPassword stePassword index,
                .new vault⟩ := by
            rw [vaultsOn, hvaultPswd, hirohPswd, hstePswd]
          simp only [vaultOf, hvaultPswd] at hbefore hdir
          obtain ⟨m, hm⟩ := Keystores.opened_self (view.resolve config.vaultDir) vaultPassword
            (view.maps w)
          rw [← hbefore] at hm
          have hwrong : vaultPassword ≠ m.password := by
            rintro rfl
            rw [admitted, hvaultPswd, hirohPswd, hstePswd] at h
            simp [Keystores.passwords, hm] at h
          obtain ⟨nv', w₂, hstart, hafter⟩ := startKeys_of_wrong ste iroh irohDraw steDraw
            ⟨IrohKeyVault.newStoreInfo vaultPassword irohPassword index, .new (L.clone vault),
              SteKeyVault.newStoreInfo vaultPassword stePassword index, .new vault⟩ hL rfl
            ((hL.clone vault).trans hdir) rfl (hmaps ▸ hm) hwrong
          exact hfails hok hstart hafter
  · refine ⟨w₁, build_of_uncreated (createVaults_of_panic index hopen), ?_⟩
    rw [hbefore, hsame, hmaps]

end Building

end Node

end Fangorn
