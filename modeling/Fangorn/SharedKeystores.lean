import Fangorn.GeneratedKeys
import Fangorn.Lib.Custody
import Fangorn.SteVault

/-! Nodes on keystores that they share. A node that starts with an index
overwrites the keys of whoever runs with this index in the same keystore, and
does not tell them: their hints stay as published, and their shares are made
with what the vault holds by then. -/

namespace Fangorn

open Rust Scale

namespace SharedKeystores

/-- A node starts (again), answers for its public key, or makes a share. -/
inductive Call (NodeId Crs Ciphertext : Type) where
  | build (node : NodeId) (config : VaultConfig) (index : Nat) (irohDraw steDraw : Arr 32)
      (rest : Bool)
  | getPk (node : NodeId) (config : Option Crs)
  | partialDecryption (node : NodeId) (ciphertext : Ciphertext)

inductive Reply (IrohSecret IrohPublic PublicKey Share : Type) where
  | built (secretKey : IrohSecret) (publicKey : IrohPublic)
  | pk (pk : Option PublicKey)
  | share (share : Share)

structure State (W H NodeId : Type) where
  keystores : W
  nodes : NodeId → Option (NodeVaults H)

/-- What is to be known of the keystores and nodes: the passwords of the vaults,
and the keys of the latest starts behind their passwords. -/
structure Ledger (Dir NodeId SecretKey : Type) where
  passwords : Dir → Option Str
  custody : Custody.State NodeId (Dir × Nat) Str SecretKey

section Definitions

variable {W H Dir NodeId Crs SecretKey PublicKey Ciphertext Share IrohSecret IrohPublic
  IrohSignature : Type} [DecidableEq Dir] [DecidableEq NodeId] (L : KeystoreLib W H)
  (ste : SteLib Crs SecretKey PublicKey Ciphertext Share)
  (iroh : IrohLib IrohSecret IrohPublic IrohSignature) (view : KeystoreView W H Dir)

/-- There is no answer of a node that does not run. -/
def State.onNode {α : Type} (s : State W H NodeId) (node : NodeId)
    (call : SteKeyVault → Action (Vaults (H × W)) KeyVaultError α) :
    Option (Outcome KeyVaultError α) × State W H NodeId :=
  match s.nodes node with
  | some nv =>
    let (result, nv, keystores) := Node.onSte call (nv, s.keystores)
    (some result, ⟨keystores, Function.update s.nodes node (some nv)⟩)
  | none => (none, s)

/-- A node that is started again has stopped, also when it fails to start. -/
def exec (s : State W H NodeId) : Call NodeId Crs Ciphertext →
    Option (Outcome KeyVaultError (Reply IrohSecret IrohPublic PublicKey Share)) ×
      State W H NodeId
  | .build node config index irohDraw steDraw rest =>
    match Node.build L ste iroh config index irohDraw steDraw rest s.keystores with
    | (.ok (nv, secretKey, publicKey), keystores) =>
      (some (.ok (.built secretKey publicKey)),
        ⟨keystores, Function.update s.nodes node (some nv)⟩)
    | (.err e, keystores) => (some (.err e), ⟨keystores, Function.update s.nodes node none⟩)
    | (.panic, keystores) => (some .panic, ⟨keystores, Function.update s.nodes node none⟩)
  | .getPk node config => s.onNode node fun kv => do
    let pk ← Node.getPk L ste config kv
    pure (.pk pk)
  | .partialDecryption node ciphertext => s.onNode node fun kv => do
    let share ← unwrapped (kv.partialDecryption L.toVaultLib ste ciphertext)
    pure (.share share)

def run (s : State W H NodeId) (calls : List (Call NodeId Crs Ciphertext)) : State W H NodeId :=
  calls.foldl (fun s call => (exec L ste iroh s call).2) s

def openedPasswords (dir : Dir) (password : Str) (passwords : Dir → Option Str) :
    Dir → Option Str :=
  match passwords dir with
  | some _ => passwords
  | none => Function.update passwords dir (some password)

def said {α : Type} (f : SecretKey → α) :
    Custody.Answer SecretKey → Option (Outcome KeyVaultError α)
  | .stranger => none
  | .refused => some .panic
  | .served sk => some (.ok (f sk))

/-- A start that fails behind its keys has left them. -/
def Ledger.exec (resolve : Str → Dir) (l : Ledger Dir NodeId SecretKey) :
    Call NodeId Crs Ciphertext →
      Option (Outcome KeyVaultError (Reply IrohSecret IrohPublic PublicKey Share)) ×
        Ledger Dir NodeId SecretKey
  | .build node config index irohDraw steDraw rest =>
    let passwords := openedPasswords (resolve (Node.vaultOf config).1) (Node.vaultOf config).2
      l.passwords
    match Node.admitted resolve passwords config with
    | some (_, _, stePassword) =>
      let custody := Custody.exec l.custody
        (.deposit node (resolve config.vaultDir, index) stePassword (ste.new steDraw index))
      if rest then
        (some (.ok (.built (iroh.generate irohDraw) (iroh.publicKey (iroh.generate irohDraw)))),
          ⟨passwords, custody⟩)
      else (some .panic, ⟨passwords, Custody.exec custody (.leave node)⟩)
    | none => (some .panic, ⟨passwords, Custody.exec l.custody (.leave node)⟩)
  | .getPk node (some crs) =>
    (said (fun sk => .pk (some (ste.getPk sk crs))) (Custody.answer l.custody node),
      { l with custody := Custody.exec l.custody (.call node) })
  | .getPk node none => ((l.custody.standing node).map fun _ => .ok (.pk none), l)
  | .partialDecryption node ciphertext =>
    (said (fun sk => .share (ste.partialDecryption sk ciphertext)) (Custody.answer l.custody node),
      { l with custody := Custody.exec l.custody (.call node) })

def Ledger.run (resolve : Str → Dir) (l : Ledger Dir NodeId SecretKey)
    (calls : List (Call NodeId Crs Ciphertext)) : Ledger Dir NodeId SecretKey :=
  calls.foldl (fun l call => (l.exec ste iroh resolve call).2) l

def start (keystores : W) : State W H NodeId := ⟨keystores, fun _ => none⟩

def Ledger.start (passwords : Dir → Option Str) : Ledger Dir NodeId SecretKey :=
  ⟨passwords, fun _ => none, fun _ => none⟩

def standingOf (nv : NodeVaults H) : Custody.Standing (Dir × Nat) Str :=
  if nv.steLock.poisoned then .barred
  else .tenant (view.dirOf nv.steLock.vault, nv.steVault.index)
    (nv.steVault.keys.keyPassword.getD [])

/-- A node knows the password of its vault, where its start left a key. -/
def Fits (l : Ledger Dir NodeId SecretKey) (nv : NodeVaults H) : Prop :=
  ∃ vaultPassword stePassword,
    nv.steVault = SteKeyVault.newStoreInfo vaultPassword stePassword nv.steVault.index ∧
    l.passwords (view.dirOf nv.steLock.vault) = some vaultPassword ∧
    ∃ entry, l.custody.kept (view.dirOf nv.steLock.vault, nv.steVault.index) = some entry

structure Tracks (maps : Dir → Option VaultMap) (nodes : NodeId → Option (NodeVaults H))
    (l : Ledger Dir NodeId SecretKey) : Prop where
  passwords : Keystores.passwords maps = l.passwords
  kept : ∀ dir index stePassword sk, l.custody.kept (dir, index) = some (stePassword, sk) →
    ∃ m skBytes, maps dir = some m ∧
      m.entries (SteKeyVault.keyName index) = some (stePassword, skBytes) ∧
      ste.deserializeCompressed skBytes = some sk
  standing : ∀ node, l.custody.standing node = (nodes node).map (standingOf view)
  fits : ∀ node nv, nodes node = some nv → Fits view l nv

end Definitions

section Steps

variable {W H Dir NodeId Crs SecretKey PublicKey Ciphertext Share IrohSecret IrohPublic
  IrohSignature : Type} [DecidableEq Dir] [DecidableEq NodeId] {L : KeystoreLib W H}
  {ste : SteLib Crs SecretKey PublicKey Ciphertext Share}
  {iroh : IrohLib IrohSecret IrohPublic IrohSignature} {view : KeystoreView W H Dir}
  {s : State W H NodeId} {l : Ledger Dir NodeId SecretKey} {node : NodeId}
  {nv : NodeVaults H} {maps : Dir → Option VaultMap} {nodes : NodeId → Option (NodeVaults H)}
  {α : Type}

variable (L ste) in
/-- The call opens the key and does no more than to put it to use. -/
def Uses (kv : SteKeyVault) (f : SecretKey → α)
    (call : Action (Vaults (H × W)) KeyVaultError α) : Prop :=
  ∀ (lock lock' : Locked H) w w',
    (∀ sk, lock.run kv.keys (kv.keys.openKey L.toVaultLib (SteKeyVault.kind ste kv.index)) w =
      (.ok sk, lock', w') → lock.run kv.keys call w = (.ok (f sk), lock', w')) ∧
    (lock.run kv.keys (kv.keys.openKey L.toVaultLib (SteKeyVault.kind ste kv.index)) w =
      (.panic, lock', w') → lock.run kv.keys call w = (.panic, lock', w'))

section Using

variable {β : Type} {kv : SteKeyVault} {f : SecretKey → α}
  {call : Action (Vaults (H × W)) KeyVaultError α}

theorem uses_openKey : Uses L ste kv id
    (kv.keys.openKey L.toVaultLib (SteKeyVault.kind ste kv.index)) :=
  fun _ _ _ _ => ⟨fun _ hopen => hopen, fun hopen => hopen⟩

theorem Uses.unwrapped (h : Uses L ste kv f call) : Uses L ste kv f (unwrapped call) := by
  intro lock lock' w w'
  obtain ⟨hok, hpanic⟩ := h lock lock' w w'
  refine ⟨fun sk hopen => ?_, fun hopen => ?_⟩
  · rw [Locked.run_unwrapped, hok sk hopen]
    rfl
  · rw [Locked.run_unwrapped, hpanic hopen]
    rfl

theorem Uses.map (h : Uses L ste kv f call) (g : α → β) :
    Uses L ste kv (fun sk => g (f sk)) (call >>= fun a => pure (g a)) := by
  intro lock lock' w w'
  obtain ⟨hok, hpanic⟩ := h lock lock' w w'
  refine ⟨fun sk hopen => ?_, fun hopen => ?_⟩
  · rw [Locked.run_map, hok sk hopen]
    rfl
  · rw [Locked.run_map, hpanic hopen]
    rfl

end Using

variable (L ste view s l node nv) in
def Opens (result : Outcome KeyVaultError SecretKey) : Prop :=
  ∃ lock keystores, nv.steLock.run nv.steVault.keys
      (nv.steVault.keys.openKey L.toVaultLib (SteKeyVault.kind ste nv.steVault.index))
      s.keystores = (result, lock, keystores) ∧
    view.dirOf lock.vault = view.dirOf nv.steLock.vault ∧
    view.maps keystores = view.maps s.keystores ∧
    ∀ n, (Custody.exec l.custody (.call node)).standing n =
      (Function.update s.nodes node (some { nv with steLock := lock }) n).map (standingOf view)

theorem Tracks.opens (h : Tracks ste view (view.maps s.keystores) s.nodes l)
    (hL : L.Implements view) (hnode : s.nodes node = some nv) {vaultPassword stePassword : Str}
    (hpass : nv.steVault.keys.passwords = .ok (vaultPassword, stePassword))
    {found : Option Bytes} (hfound : found = if nv.steLock.poisoned then none else
      (view.maps s.keystores (view.dirOf nv.steLock.vault)).bind fun m =>
        m.read nv.steVault.keys.keyName vaultPassword stePassword)
    (hstanding : (Custody.exec l.custody (.call node)).standing =
      Function.update l.custody.standing node
        (some (if found.isSome then standingOf view nv else .barred))) :
    Opens L ste view s l node nv
      (Outcome.expect found >>= (SteKeyVault.kind ste nv.steVault.index).ofBytes) := by
  obtain ⟨lock, keystores, hopen, hdir, hlocked, hmaps⟩ := Locked.openKey
    (SteKeyVault.kind ste nv.steVault.index) nv.steVault.keys hL hpass hfound
  refine ⟨lock, keystores, hopen, hdir, hmaps, fun n => ?_⟩
  rw [hstanding]
  by_cases hn : n = node
  · subst hn
    rw [Function.update_self, Function.update_self]
    cases found with
    | none =>
      have hbarred : lock.poisoned = true := hlocked
      simp [standingOf, hbarred]
    | some bytes =>
      have hfree : nv.steLock.poisoned = false := by
        by_contra hpoisoned
        rw [Bool.not_eq_false] at hpoisoned
        simp [hpoisoned] at hfound
      have hstays : lock.poisoned = false := hlocked
      simp [standingOf, hfree, hstays, hdir]
  · rw [Function.update_of_ne hn, Function.update_of_ne hn, h.standing n]

/-- What a node is served is what the vault lets it open. -/
theorem Tracks.openKey (h : Tracks ste view (view.maps s.keystores) s.nodes l)
    (hL : L.Implements view) (hnode : s.nodes node = some nv) :
    (∃ sk, Custody.answer l.custody node = .served sk ∧ Opens L ste view s l node nv (.ok sk)) ∨
      Custody.answer l.custody node = .refused ∧ Opens L ste view s l node nv .panic := by
  obtain ⟨vaultPassword, stePassword, hkv, hvault, ⟨password, sk⟩, hkept⟩ := h.fits node nv hnode
  obtain ⟨m, skBytes, hm, hentry, hbytes⟩ := h.kept _ _ _ _ hkept
  have hstanding : l.custody.standing node = some (standingOf view nv) := by
    rw [h.standing node, hnode]
    rfl
  have hpass : nv.steVault.keys.passwords = .ok (vaultPassword, stePassword) := by
    rw [hkv]
    rfl
  have hname : nv.steVault.keys.keyName = SteKeyVault.keyName nv.steVault.index := by
    rw [hkv]
    rfl
  have hkeyPassword : nv.steVault.keys.keyPassword = some stePassword := by
    rw [hkv]
    rfl
  have hpassword : vaultPassword = m.password := by
    rw [← h.passwords, Keystores.passwords, hm] at hvault
    exact (Option.some.inj hvault).symm
  have hrefused (hanswer : Custody.answer l.custody node = .refused) :
      (Custody.exec l.custody (.call node)).standing =
        Function.update l.custody.standing node (some .barred) := by
    rw [Custody.exec_call_of_refused hanswer]
  by_cases hp : nv.steLock.poisoned = true
  · rw [standingOf, if_pos hp] at hstanding
    have hanswer : Custody.answer l.custody node = .refused := Custody.answer_of_barred hstanding
    exact Or.inr ⟨hanswer, h.opens hL hnode hpass (if_pos hp).symm (hrefused hanswer)⟩
  · have hread : ((view.maps s.keystores (view.dirOf nv.steLock.vault)).bind fun m =>
        m.read nv.steVault.keys.keyName vaultPassword stePassword) =
          if stePassword = password then some skBytes else none := by
      rw [hm, hname]
      simp only [Option.bind_some, VaultMap.read, hpassword, hentry, if_true]
    have htenant := hstanding
    rw [standingOf, if_neg hp, hkeyPassword, Option.getD_some] at htenant
    have hanswer := Custody.answer_of_tenant htenant hkept
    by_cases hk : stePassword = password
    · rw [if_pos hk] at hanswer hread
      have hserved : (Custody.exec l.custody (.call node)).standing =
          Function.update l.custody.standing node (some (standingOf view nv)) := by
        rw [Custody.exec_call_of_served hanswer, ← hstanding]
        exact (Function.update_eq_self ..).symm
      have hopens := h.opens hL hnode hpass ((if_neg hp).trans hread).symm hserved
      have hpair : Outcome.expect (some skBytes) >>=
          (SteKeyVault.kind ste nv.steVault.index).ofBytes = .ok sk := by
        simp [SteKeyVault.kind, hbytes, Outcome.expect]
      rw [hpair] at hopens
      exact Or.inl ⟨sk, hanswer, hopens⟩
    · rw [if_neg hk] at hanswer hread
      exact Or.inr ⟨hanswer,
        h.opens hL hnode hpass ((if_neg hp).trans hread).symm (hrefused hanswer)⟩

theorem Tracks.reopened (h : Tracks ste view maps nodes l) (hnode : nodes node = some nv)
    {lock : Locked H} (hdir : view.dirOf lock.vault = view.dirOf nv.steLock.vault)
    (hstanding : ∀ n, (Custody.exec l.custody (.call node)).standing n =
      (Function.update nodes node (some { nv with steLock := lock }) n).map (standingOf view)) :
    Tracks ste view maps (Function.update nodes node (some { nv with steLock := lock }))
      { l with custody := Custody.exec l.custody (.call node) } where
  passwords := h.passwords
  kept := by
    intro dir index stePassword sk hkept
    rw [Custody.kept_call] at hkept
    exact h.kept dir index stePassword sk hkept
  standing := hstanding
  fits := by
    intro n nv' hn
    rw [Fits, Custody.kept_call]
    by_cases hne : n = node
    · subst hne
      simp only [Function.update_self, Option.some.injEq] at hn
      subst hn
      simp only [hdir]
      exact h.fits n nv hnode
    · simp only [Function.update_of_ne hne] at hn
      exact h.fits n nv' hn

theorem Tracks.call (h : Tracks ste view (view.maps s.keystores) s.nodes l)
    (hL : L.Implements view) {f : SecretKey → α}
    {call : SteKeyVault → Action (Vaults (H × W)) KeyVaultError α}
    (huses : ∀ kv, Uses L ste kv f (call kv)) :
    (s.onNode node call).1 = said f (Custody.answer l.custody node) ∧
      Tracks ste view (view.maps (s.onNode node call).2.keystores) (s.onNode node call).2.nodes
        { l with custody := Custody.exec l.custody (.call node) } := by
  rcases hnode : s.nodes node with - | nv
  · have hstanding : l.custody.standing node = none := by
      rw [h.standing node, hnode]
      rfl
    have hanswer : Custody.answer l.custody node = .stranger := by
      rw [Custody.answer, hstanding]
    have hsame : Custody.exec l.custody (.call node) = l.custody := by
      simp only [Custody.exec, hanswer]
    have hon : s.onNode node call = (none, s) := by
      rw [State.onNode, hnode]
    rw [hon, hanswer, hsame]
    exact ⟨rfl, h⟩
  · have hon {result : Outcome KeyVaultError α} {lock : Locked H} {w : W}
        (hcall : nv.steLock.run nv.steVault.keys (call nv.steVault) s.keystores =
          (result, lock, w)) : s.onNode node call =
        (some result, ⟨w, Function.update s.nodes node (some { nv with steLock := lock })⟩) := by
      simp only [State.onNode, Node.onSte, hnode, hcall]
    rcases h.openKey hL hnode with ⟨sk, hanswer, hopens⟩ | ⟨hanswer, hopens⟩
    · obtain ⟨lock, keystores, hopen, hdir, hmaps, hstanding⟩ := hopens
      rw [hon ((huses nv.steVault _ _ _ _).1 sk hopen), hanswer]
      refine ⟨rfl, ?_⟩
      simp only [hmaps]
      exact h.reopened hnode hdir hstanding
    · obtain ⟨lock, keystores, hopen, hdir, hmaps, hstanding⟩ := hopens
      rw [hon ((huses nv.steVault _ _ _ _).2 hopen), hanswer]
      refine ⟨rfl, ?_⟩
      simp only [hmaps]
      exact h.reopened hnode hdir hstanding

variable {dir : Dir} {password : Str}

theorem passwords_opened (m : Dir → Option VaultMap) :
    Keystores.passwords (Keystores.opened dir password m) =
      openedPasswords dir password (Keystores.passwords m) := by
  rcases hm : m dir with - | n
  · have hpassword : Keystores.passwords m dir = none := by
      rw [Keystores.passwords, hm]
      rfl
    rw [Keystores.opened, hm, openedPasswords, hpassword]
    funext d
    by_cases hd : d = dir
    · subst hd
      simp [Keystores.passwords]
    · simp [Keystores.passwords, Function.update_of_ne hd]
  · have hpassword : Keystores.passwords m dir = some n.password := by
      rw [Keystores.passwords, hm]
      rfl
    rw [Keystores.opened, hm, openedPasswords, hpassword]

theorem openedPasswords_of_some {passwords : Dir → Option Str} {d : Dir} {password' : Str}
    (h : passwords d = some password') :
    openedPasswords dir password passwords d = some password' := by
  rcases hp : passwords dir with - | p
  · have hne : d ≠ dir := by
      rintro rfl
      rw [h] at hp
      cases hp
    rw [openedPasswords, hp]
    exact (Function.update_of_ne hne ..).trans h
  · rw [openedPasswords, hp]
    exact h

theorem passwords_update {m : Dir → Option VaultMap} {n n' : VaultMap} (h : m dir = some n)
    (hpassword : n'.password = n.password) :
    Keystores.passwords (Function.update m dir (some n')) = Keystores.passwords m := by
  funext d
  by_cases hd : d = dir
  · subst hd
    simp [Keystores.passwords, h, hpassword]
  · simp [Keystores.passwords, Function.update_of_ne hd]

omit [DecidableEq NodeId] in
variable (dir password) in
theorem Tracks.opened (h : Tracks ste view maps nodes l) :
    Tracks ste view (Keystores.opened dir password maps) nodes
      { l with passwords := openedPasswords dir password l.passwords } where
  passwords := by
    rw [passwords_opened, h.passwords]
  kept := by
    intro d i k sk hk
    obtain ⟨m, skBytes, hm, hentry, hbytes⟩ := h.kept d i k sk hk
    exact ⟨m, skBytes, Keystores.opened_of_some dir password hm, hentry, hbytes⟩
  standing := h.standing
  fits := by
    intro n nv hn
    obtain ⟨vaultPassword, stePassword, hkv, hvault, hentry⟩ := h.fits n nv hn
    exact ⟨vaultPassword, stePassword, hkv, openedPasswords_of_some hvault, hentry⟩

variable (node) in
theorem Tracks.leave (h : Tracks ste view maps nodes l) :
    Tracks ste view maps (Function.update nodes node none)
      { l with custody := Custody.exec l.custody (.leave node) } where
  passwords := h.passwords
  kept := h.kept
  standing := by
    intro n
    by_cases hn : n = node
    · subst hn
      simp [Custody.exec]
    · simp only [Custody.exec, Function.update_of_ne hn]
      exact h.standing n
  fits := by
    intro n nv hnode
    by_cases hn : n = node
    · subst hn
      simp at hnode
    · simp only [Function.update_of_ne hn] at hnode
      exact h.fits n nv hnode

variable (node) in
theorem Tracks.deposit (h : Tracks ste view maps nodes l) {index : Nat} {m : VaultMap}
    {vaultPassword irohPassword stePassword : Str} (irohBytes : Bytes) {steBytes : Bytes}
    {sk : SecretKey}
    (hm : maps dir = some m) (hpassword : m.password = vaultPassword)
    (hnv : Node.Fresh view index vaultPassword irohPassword stePassword dir nv)
    (hbytes : ste.deserializeCompressed steBytes = some sk) :
    Tracks ste view (Function.update maps dir (some (Node.started index irohBytes steBytes
        vaultPassword irohPassword stePassword m)))
      (Function.update nodes node (some nv))
      { l with custody := Custody.exec l.custody (.deposit node (dir, index) stePassword sk) } where
  passwords := by
    rw [passwords_update hm Node.started_password, h.passwords]
  kept := by
    intro d i k sk' hk
    by_cases hplace : (d, i) = (dir, index)
    · obtain ⟨rfl, rfl⟩ := Prod.mk.inj hplace
      simp only [Custody.exec, Function.update_self, Option.some.injEq, Prod.mk.injEq] at hk
      obtain ⟨rfl, rfl⟩ := hk
      exact ⟨_, steBytes, Function.update_self .., Node.started_entry hpassword.symm, hbytes⟩
    · simp only [Custody.exec, Function.update_of_ne hplace] at hk
      obtain ⟨n, skBytes, hn, hentry, hsk⟩ := h.kept d i k sk' hk
      by_cases hd : d = dir
      · subst hd
        obtain rfl := Option.some.inj (hm.symm.trans hn)
        have hi : i ≠ index := fun hi => hplace (by rw [hi])
        exact ⟨_, skBytes, Function.update_self .., (Node.started_of_ne hi).trans hentry, hsk⟩
      · exact ⟨n, skBytes, (Function.update_of_ne hd ..).trans hn, hentry, hsk⟩
  standing := by
    intro n
    by_cases hn : n = node
    · subst hn
      simp [Custody.exec, standingOf, hnv.steVault, hnv.steDir, hnv.steFree,
        SteKeyVault.newStoreInfo]
    · simp only [Custody.exec, Function.update_of_ne hn]
      exact h.standing n
  fits := by
    intro n nv' hnode
    by_cases hn : n = node
    · subst hn
      simp only [Function.update_self, Option.some.injEq] at hnode
      subst hnode
      have hindex : nv.steVault.index = index := by
        rw [hnv.steVault]
        rfl
      refine ⟨vaultPassword, stePassword, ?_, ?_, (stePassword, sk), ?_⟩
      · rw [hindex]
        exact hnv.steVault
      · rw [hnv.steDir, ← h.passwords, Keystores.passwords, hm, ← hpassword]
        rfl
      · rw [hnv.steDir, hindex]
        exact Function.update_self ..
    · simp only [Function.update_of_ne hn] at hnode
      obtain ⟨vaultPassword', stePassword', hkv, hvault, hentry⟩ := h.fits n nv' hnode
      refine ⟨vaultPassword', stePassword', hkv, hvault, ?_⟩
      by_cases hplace : (view.dirOf nv'.steLock.vault, nv'.steVault.index) = (dir, index)
      · rw [hplace]
        exact ⟨_, Function.update_self ..⟩
      · simp only [Custody.exec, Function.update_of_ne hplace]
        exact hentry

variable {config : VaultConfig} {index : Nat} {irohDraw steDraw : Arr 32} {rest : Bool}

theorem Tracks.build (h : Tracks ste view (view.maps s.keystores) s.nodes l)
    (hL : L.Implements view) (hste : ste.Correct) (hiroh : iroh.Correct) :
    (exec L ste iroh s (.build node config index irohDraw steDraw rest)).1 =
        (l.exec ste iroh view.resolve (.build node config index irohDraw steDraw rest)).1 ∧
      Tracks ste view
        (view.maps (exec L ste iroh s (.build node config index irohDraw steDraw rest)).2.keystores)
        (exec L ste iroh s (.build node config index irohDraw steDraw rest)).2.nodes
        (l.exec ste iroh view.resolve (.build node config index irohDraw steDraw rest)).2 := by
  have hopened := h.opened (view.resolve (Node.vaultOf config).1) (Node.vaultOf config).2
  generalize hbefore : Keystores.opened (view.resolve (Node.vaultOf config).1)
    (Node.vaultOf config).2 (view.maps s.keystores) = before at hopened
  rcases hadmitted : Node.admitted view.resolve (Keystores.passwords before) config with
    - | ⟨vaultPassword, irohPassword, stePassword⟩
  · obtain ⟨keystores, hbuild, hmaps⟩ := Node.build_of_refused ste iroh index irohDraw steDraw rest
      hL hbefore.symm hadmitted
    rw [hopened.passwords] at hadmitted
    simp only [exec, hbuild, Ledger.exec, hadmitted, hmaps]
    exact ⟨trivial, hopened.leave node⟩
  · obtain ⟨m, steBytes, nv, keystores, hm, hpassword, hnv, hbuild, -, hbytes, hmaps⟩ :=
      Node.build_of_admitted index irohDraw steDraw rest hL hste hiroh hbefore.symm hadmitted
    rw [hopened.passwords] at hadmitted
    have hdeposit := hopened.deposit node (iroh.toBytes (iroh.generate irohDraw)).1 hm hpassword
      hnv hbytes
    cases rest with
    | true =>
      simp only [exec, hbuild, Ledger.exec, hadmitted, hmaps, if_true]
      exact ⟨trivial, hdeposit⟩
    | false =>
      have hleave := hdeposit.leave node
      rw [Function.update_idem] at hleave
      simp only [exec, hbuild, Ledger.exec, hadmitted, hmaps, Bool.false_eq_true, if_false]
      exact ⟨trivial, hleave⟩

theorem Tracks.exec (h : Tracks ste view (view.maps s.keystores) s.nodes l)
    (hL : L.Implements view) (hste : ste.Correct) (hiroh : iroh.Correct)
    (call : Call NodeId Crs Ciphertext) :
    (exec L ste iroh s call).1 = (l.exec ste iroh view.resolve call).1 ∧
      Tracks ste view (view.maps (exec L ste iroh s call).2.keystores)
        (exec L ste iroh s call).2.nodes (l.exec ste iroh view.resolve call).2 := by
  cases call with
  | build node config index irohDraw steDraw rest => exact h.build hL hste hiroh
  | getPk node config =>
    cases config with
    | none =>
      rcases hnode : s.nodes node with - | nv
      · have hstanding : l.custody.standing node = none := by
          rw [h.standing node, hnode]
          rfl
        simp only [SharedKeystores.exec, State.onNode, hnode, Ledger.exec, hstanding]
        exact ⟨rfl, h⟩
      · have hstanding : l.custody.standing node = some (standingOf view nv) := by
          rw [h.standing node, hnode]
          rfl
        have hsame : s.onNode node (fun kv => Node.getPk L ste none kv >>= fun pk =>
            pure (Reply.pk pk : Reply IrohSecret IrohPublic PublicKey Share)) =
              (some (.ok (.pk none)), s) := by
          rw [State.onNode, hnode]
          have hnodes : Function.update s.nodes node (some nv) = s.nodes := by
            rw [← hnode]
            exact Function.update_eq_self ..
          refine Prod.ext rfl ?_
          exact congrArg (State.mk s.keystores) hnodes
        simp only [SharedKeystores.exec, Ledger.exec, hstanding]
        rw [hsame]
        exact ⟨rfl, h⟩
    | some crs =>
      have huses (kv : SteKeyVault) : Uses L ste kv (fun sk => Reply.pk (some (ste.getPk sk crs)))
          (Node.getPk L ste (some crs) kv >>= fun pk =>
            pure (Reply.pk pk : Reply IrohSecret IrohPublic PublicKey Share)) :=
        ((uses_openKey.map fun sk => ste.getPk sk crs).unwrapped.map some).map Reply.pk
      exact h.call hL huses
  | partialDecryption node ciphertext =>
    have huses (kv : SteKeyVault) :
        Uses L ste kv (fun sk => Reply.share (ste.partialDecryption sk ciphertext))
          (unwrapped (kv.partialDecryption L.toVaultLib ste ciphertext) >>= fun share =>
            pure (Reply.share share : Reply IrohSecret IrohPublic PublicKey Share)) :=
      (uses_openKey.map fun sk => ste.partialDecryption sk ciphertext).unwrapped.map Reply.share
    exact h.call hL huses

omit [DecidableEq Dir] [DecidableEq NodeId] in
theorem tracks_start (keystores : W) :
    Tracks ste view (view.maps (start keystores : State W H NodeId).keystores)
      (start keystores : State W H NodeId).nodes
      (Ledger.start (Keystores.passwords (view.maps keystores))) where
  passwords := rfl
  kept _ _ _ _ h := by cases h
  standing _ := rfl
  fits _ _ h := by cases h

theorem run_concat (calls : List (Call NodeId Crs Ciphertext)) (call : Call NodeId Crs Ciphertext) :
    run L ste iroh s (calls ++ [call]) = (exec L ste iroh (run L ste iroh s calls) call).2 :=
  List.foldl_concat ..

theorem Ledger.run_concat (resolve : Str → Dir) (calls : List (Call NodeId Crs Ciphertext))
    (call : Call NodeId Crs Ciphertext) : l.run ste iroh resolve (calls ++ [call]) =
      ((l.run ste iroh resolve calls).exec ste iroh resolve call).2 :=
  List.foldl_concat ..

theorem Tracks.run (h : Tracks ste view (view.maps s.keystores) s.nodes l)
    (hL : L.Implements view) (hste : ste.Correct) (hiroh : iroh.Correct)
    (calls : List (Call NodeId Crs Ciphertext)) :
    Tracks ste view (view.maps (run L ste iroh s calls).keystores) (run L ste iroh s calls).nodes
      (l.run ste iroh view.resolve calls) := by
  induction calls using List.reverseRecOn with
  | nil => exact h
  | append_singleton calls call ih =>
    rw [SharedKeystores.run_concat, Ledger.run_concat]
    exact (ih.exec hL hste hiroh call).2

end Steps

section Results

variable {W H Dir NodeId Crs SecretKey PublicKey Ciphertext Share IrohSecret IrohPublic
  IrohSignature : Type} [DecidableEq Dir] [DecidableEq NodeId] (L : KeystoreLib W H)
  (ste : SteLib Crs SecretKey PublicKey Ciphertext Share)
  (iroh : IrohLib IrohSecret IrohPublic IrohSignature)

/-- The nodes answer as the ledger has it, in every run on any keystores. -/
theorem answers_as_ledger {view : KeystoreView W H Dir} (hL : L.Implements view)
    (hste : ste.Correct) (hiroh : iroh.Correct) (keystores : W)
    (calls : List (Call NodeId Crs Ciphertext)) (call : Call NodeId Crs Ciphertext) :
    (exec L ste iroh (run L ste iroh (start keystores) calls) call).1 =
      (((Ledger.start (Keystores.passwords (view.maps keystores))).run ste iroh view.resolve
        calls).exec ste iroh view.resolve call).1 :=
  (((tracks_start keystores).run hL hste hiroh calls).exec hL hste hiroh call).1

end Results

section Restart

def sampleSte : SteLib Unit (Arr 32) (Arr 32) Bytes (Arr 32 × Bytes) where
  new draw _ := draw
  serializeCompressed sk := some sk.1
  deserializeCompressed := Arr.ofBytes? 32
  getPk sk _ := sk
  partialDecryption sk ciphertext := (sk, ciphertext)

theorem sampleSte_correct : sampleSte.Correct where
  deserialize sk := ⟨sk.1, rfl, Arr.ofBytes?_eq_some.mpr rfl⟩

def sampleConfig (stePassword : Str) : VaultConfig :=
  ⟨"tmp/keystore".toList, some "vault_password".toList, some "iroh".toList, some stePassword⟩

def sampleStarts (stePassword : Str) : List (Call Nat Unit Bytes) :=
  [.build 0 (sampleConfig "ste".toList) 2 (beArr 32 0) (beArr 32 1) true,
    .build 1 (sampleConfig stePassword) 2 (beArr 32 2) (beArr 32 3) true]

/-- The first one shares with the key of the second. -/
theorem answers_as_ledger_restart :
    (exec sampleKeystore sampleSte GeneratedKeys.sampleIroh
      (run sampleKeystore sampleSte GeneratedKeys.sampleIroh (start fun _ => none)
        (sampleStarts "ste".toList)) (.partialDecryption 0 [7])).1 =
      some (.ok (.share (beArr 32 3, [7]))) :=
  (answers_as_ledger sampleKeystore sampleSte GeneratedKeys.sampleIroh sampleKeystore_implements
    sampleSte_correct GeneratedKeys.sampleIroh_correct (fun _ => none) (sampleStarts "ste".toList)
    (.partialDecryption 0 [7])).trans rfl

end Restart

end SharedKeystores

end Fangorn
