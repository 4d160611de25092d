import Fangorn.Lib.Hex
import Fangorn.SharedKeystores
import Fangorn.SigningAccounts

/-! Runs of everyone at the keystores. For a backend that is up, a name in its
keystore is a place in custody: whoever stores a key there takes it over, and
the backend is the tenant who is served or locked out. -/

namespace Fangorn

open Rust Scale

namespace SigningAccounts

section Definitions

variable {W H Dir Id Crs SecretKey PublicKey Ciphertext Share : Type}
  {Pair Public Signature : VaultKind → Type} [DecidableEq Dir] [DecidableEq Id]
  (L : RootsLib W H Signature) (ste : SteLib Crs SecretKey PublicKey Ciphertext Share)
  (sr25519 : Sr25519Lib (Pair .sr25519) (Public .sr25519) (Signature .sr25519))
  (iroh : IrohLib (Pair .iroh) (Public .iroh) (Signature .iroh))

def transacts (id : Id) : Event Id → Bool
  | .transaction other _ _ => other = id
  | _ => false

def restarts (id : Id) : Event Id → Bool
  | .backend other _ => other = id
  | _ => false

/-- An event in the terms of custody; the backend is `true`, and everyone else
`false`. -/
def deeds (resolve : Str → Dir) (id : Id) (dir : Dir) (vaultPassword name : Str)
    (event : Event Id) : List (Custody.Event Bool Unit Str Bytes) :=
  (stores ste sr25519 iroh resolve dir vaultPassword name event).toList.map
      (fun entry => .deposit false () entry.1 entry.2) ++
    if transacts id event then [.call true] else []

def signedWith (accountId : Public .sr25519) (signerPayload draw : Bytes) :
    Custody.Answer Bytes → Outcome KeyVaultError (Answer Public Signature)
  | .served seedBytes => do
    let pair ← .expect (sr25519.fromSeedSlice seedBytes)
    .ok (.signed accountId (sr25519.sign pair signerPayload draw))
  | _ => .panic

structure Tracks (view : KeystoreView W H Dir) (id : Id) (accountId : Public .sr25519) (dir : Dir)
    (vaultPassword name keyPassword : Str) (s : State W H Id (Public .sr25519))
    (c : Custody.State Bool Unit Str Bytes) : Prop where
  kept : ∃ m entry, view.maps s.keystores dir = some m ∧ m.password = vaultPassword ∧
    m.entries name = some entry ∧ c.kept () = some entry
  standing : ∃ lock, s.signers id = some ⟨accountId,
      Sr25519KeyVault.newStoreInfo vaultPassword name keyPassword, lock⟩ ∧
    view.dirOf lock.vault = dir ∧
    c.standing true = some (if lock.poisoned then .barred else .tenant () keyPassword)

end Definitions

section Steps

variable {W H Dir Id Crs SecretKey PublicKey Ciphertext Share : Type}
  {Pair Public Signature : VaultKind → Type} [DecidableEq Dir] [DecidableEq Id]
  {L : RootsLib W H Signature} {ste : SteLib Crs SecretKey PublicKey Ciphertext Share}
  {sr25519 : Sr25519Lib (Pair .sr25519) (Public .sr25519) (Signature .sr25519)}
  {iroh : IrohLib (Pair .iroh) (Public .iroh) (Signature .iroh)}
  {view : KeystoreView W H Dir} {s : State W H Id (Public .sr25519)} {w : W}
  {dir : Dir} {m : VaultMap} {vaultPassword name keyPassword : Str} {id : Id}
  {accountId : Public .sr25519} {c : Custody.State Bool Unit Str Bytes}

variable (name) in
theorem leaves_exec (hL : L.Correct view) (hste : ste.Correct) (hsr25519 : sr25519.Correct)
    (hiroh : iroh.Correct) (event : Event Id) (hm : view.maps s.keystores dir = some m) :
    Leaves view name dir m (stores ste sr25519 iroh view.resolve dir m.password name event)
      (exec L ste sr25519 iroh s event).2.keystores := by
  cases event with
  | roots command =>
    have hread (hc : ∀ args printMnemonic draw, command ≠ .keygen args printMnemonic draw) :
        Leaves view name dir m none (exec L ste sr25519 iroh s (.roots command)).2.keystores :=
      leaves_same ((congrFun (Roots.maps_exec hL hc) dir).trans hm)
    cases command with
    | keygen args printMnemonic draw =>
      exact leaves_keygen Id hL hsr25519 hiroh hm args printMnemonic draw
    | inspect args => exact hread fun _ _ _ => nofun
    | sign args nonce draw => exact hread fun _ _ _ => nofun
    | verify args signatureHex nonce => exact hread fun _ _ _ => nofun
  | build config index irohDraw steDraw rest =>
    exact leaves_build Id hL hste hiroh hm config index irohDraw steDraw rest
  | backend id vaultConfig =>
    have hnew := leaves_new sr25519 name hL vaultConfig hm
    have hkeystores : (exec L ste sr25519 iroh s (.backend id vaultConfig)).2.keystores =
        (SubstrateBackend.new L.toKeystoreLib sr25519 vaultConfig s.keystores).2 := by
      rcases h : SubstrateBackend.new L.toKeystoreLib sr25519 vaultConfig s.keystores with
        ⟨signer | e | -, keystores⟩ <;> simp only [exec, h]
    rw [hkeystores]
    exact hnew
  | transaction id signerPayload draw =>
    refine leaves_same ?_
    rcases hsigner : s.signers id with - | signer
    · simpa only [exec, hsigner] using hm
    · simp only [exec, hsigner]
      have hsame : view.maps (signer.sign L.toKeystoreLib sr25519 signerPayload draw
          s.keystores).2.2 = view.maps s.keystores := by
        rw [PolkadotSigner.sign, Locked.run_unwrapped, Sr25519KeyVault.sign, KeyVault.sign,
          Locked.run_map]
        exact Locked.maps_openKey _ signer.sr25519Vault signer.lock s.keystores hL.keystore
      exact (congrFun hsame dir).trans hm

omit [DecidableEq Dir] [DecidableEq Id] in
theorem Tracks.left (h : Tracks view id accountId dir vaultPassword name keyPassword s c)
    {s' : State W H Id (Public .sr25519)} {left : Option (Str × Bytes)}
    (hleaves : ∀ m, view.maps s.keystores dir = some m → m.password = vaultPassword →
      Leaves view name dir m left s'.keystores) (hsigner : s'.signers id = s.signers id) :
    Tracks view id accountId dir vaultPassword name keyPassword s'
      (Custody.run c (left.toList.map fun entry => .deposit false () entry.1 entry.2)) := by
  obtain ⟨m, entry, hm, hpassword, hentry, hkept⟩ := h.kept
  obtain ⟨m', hm', hpassword', hentry'⟩ := hleaves m hm hpassword
  obtain ⟨lock, hs, hdir, hstanding⟩ := h.standing
  rw [hentry] at hentry'
  cases left with
  | none =>
    exact ⟨⟨m', entry, hm', hpassword'.trans hpassword, hentry', hkept⟩,
      ⟨lock, hsigner.trans hs, hdir, hstanding⟩⟩
  | some stored =>
    have hstays : Custody.Stays true [.deposit false () stored.1 stored.2] := by
      simp [Custody.Stays]
    have hrun : Custody.run c ((some stored).toList.map fun entry =>
        .deposit false () entry.1 entry.2) =
          Custody.exec c (.deposit false () stored.1 stored.2) := rfl
    rw [hrun]
    exact ⟨⟨m', stored, hm', hpassword'.trans hpassword, hentry', Custody.kept_exec hkept⟩,
      ⟨lock, hsigner.trans hs, hdir,
        (Custody.standing_exec_of_stays hstays nofun).trans hstanding⟩⟩

omit [DecidableEq Dir] [DecidableEq Id] in
theorem answer_of_standing {poisoned : Bool} {entry : Str × Bytes}
    (hpassword : m.password = vaultPassword) (hentry : m.entries name = some entry)
    (hkept : c.kept () = some entry)
    (hstanding : c.standing true =
      some (if poisoned then .barred else .tenant () keyPassword)) :
    Custody.answer c true =
      (if poisoned then none else m.read name vaultPassword keyPassword).elim
        .refused .served := by
  by_cases hlocked : poisoned = true
  · rw [if_pos hlocked] at hstanding ⊢
    exact Custody.answer_of_barred hstanding
  · rw [if_neg hlocked] at hstanding ⊢
    rw [Custody.answer_of_tenant hstanding hkept]
    by_cases hk : keyPassword = entry.1
    · have hread : m.read name vaultPassword keyPassword = some entry.2 :=
        read_eq_some.mpr ⟨hpassword, by rw [hentry, hk]⟩
      rw [if_pos hk, hread]
      rfl
    · have hread : m.read name vaultPassword keyPassword = none := by
        rw [Option.eq_none_iff_forall_ne_some]
        intro bytes hsome
        obtain ⟨-, hentry'⟩ := read_eq_some.mp hsome
        rw [hentry] at hentry'
        cases hentry'
        exact hk rfl
      rw [if_neg hk, hread]
      rfl

theorem Tracks.sign (h : Tracks view id accountId dir vaultPassword name keyPassword s c)
    (hL : L.Correct view) (signerPayload draw : Bytes) :
    (exec L ste sr25519 iroh s (.transaction id signerPayload draw)).1 =
        some (signedWith sr25519 accountId signerPayload draw (Custody.answer c true)) ∧
      Tracks view id accountId dir vaultPassword name keyPassword
        (exec L ste sr25519 iroh s (.transaction id signerPayload draw)).2
        (Custody.exec c (.call true)) := by
  obtain ⟨m, entry, hm, hpassword, hentry, hkept⟩ := h.kept
  obtain ⟨lock, hs, rfl, hstanding⟩ := h.standing
  have hanswer := answer_of_standing hpassword hentry hkept hstanding
  generalize hfound : (if lock.poisoned then none else m.read name vaultPassword keyPassword)
    = found at hanswer
  obtain ⟨lock', keystores, hcall, hdir, hlocked, hmaps⟩ := openKey_seed sr25519 vaultPassword name
    keyPassword hL (sr25519.sign · signerPayload draw) hm hfound.symm
  have hexec : exec L ste sr25519 iroh s (.transaction id signerPayload draw) =
      (some (((Outcome.expect found >>= fun seedBytes =>
          Outcome.expect (sr25519.fromSeedSlice seedBytes)) >>= fun pair =>
            .ok (sr25519.sign pair signerPayload draw)) >>= fun signature =>
              .ok (.signed accountId signature)),
        ⟨keystores, Function.update s.signers id (some ⟨accountId,
          Sr25519KeyVault.newStoreInfo vaultPassword name keyPassword, lock'⟩)⟩) := by
    have hsign : PolkadotSigner.sign L.toKeystoreLib sr25519 ⟨accountId,
        Sr25519KeyVault.newStoreInfo vaultPassword name keyPassword, lock⟩ signerPayload draw
          s.keystores = _ := hcall
    simp only [exec, hs, hsign]
  have htracks (c' : Custody.State Bool Unit Str Bytes) (hkept' : c'.kept = c.kept)
      (hstanding' : c'.standing true = some (if lock'.poisoned then .barred
        else .tenant () keyPassword)) :
      Tracks view id accountId (view.dirOf lock.vault) vaultPassword name keyPassword
        ⟨keystores, Function.update s.signers id (some ⟨accountId,
          Sr25519KeyVault.newStoreInfo vaultPassword name keyPassword, lock'⟩)⟩ c' := by
    refine ⟨⟨m, entry, (congrFun hmaps _).trans hm, hpassword, hentry, ?_⟩,
      ⟨lock', Function.update_self .., hdir, hstanding'⟩⟩
    rw [hkept', hkept]
  rw [hexec, hanswer]
  cases found with
  | none =>
    refine ⟨rfl, ?_⟩
    rw [Custody.exec_call_of_refused hanswer]
    refine htracks _ rfl ?_
    rw [hlocked]
    simp
  | some seedBytes =>
    have hfree : lock.poisoned = false := by
      by_contra hpoisoned
      rw [Bool.not_eq_false] at hpoisoned
      simp [hpoisoned] at hfound
    refine ⟨?_, ?_⟩
    · rcases hpair : sr25519.fromSeedSlice seedBytes with - | pair <;>
        simp [Outcome.expect, hpair, signedWith]
    · rw [Custody.exec_call_of_served hanswer]
      refine htracks c rfl ?_
      rw [hlocked, hstanding, hfree]
      rfl

theorem Tracks.exec (h : Tracks view id accountId dir vaultPassword name keyPassword s c)
    (hL : L.Correct view) (hste : ste.Correct) (hsr25519 : sr25519.Correct) (hiroh : iroh.Correct)
    {event : Event Id} (hevent : restarts id event = false) :
    Tracks view id accountId dir vaultPassword name keyPassword
      (exec L ste sr25519 iroh s event).2
      (Custody.run c (deeds ste sr25519 iroh view.resolve id dir vaultPassword name event)) := by
  -- all but a transaction of its own leave the signer as it is
  have hleft (htransacts : transacts id event = false)
      (hsigner : (SigningAccounts.exec L ste sr25519 iroh s event).2.signers id = s.signers id) :
      Tracks view id accountId dir vaultPassword name keyPassword
        (SigningAccounts.exec L ste sr25519 iroh s event).2
        (Custody.run c (deeds ste sr25519 iroh view.resolve id dir vaultPassword name event)) := by
    rw [deeds, htransacts, if_neg Bool.false_ne_true, List.append_nil]
    exact h.left
      (fun m hm hpassword => hpassword ▸ leaves_exec name hL hste hsr25519 hiroh event hm) hsigner
  cases event with
  | roots command => exact hleft rfl rfl
  | build config index irohDraw steDraw rest => exact hleft rfl rfl
  | backend other vaultConfig =>
    have hother : id ≠ other := by
      rintro rfl
      simp [restarts] at hevent
    refine hleft rfl ?_
    rcases hnew : SubstrateBackend.new L.toKeystoreLib sr25519 vaultConfig s.keystores with
      ⟨signer | e | -, keystores⟩ <;>
        simp only [SigningAccounts.exec, hnew, Function.update_of_ne hother]
  | transaction other signerPayload draw =>
    by_cases hother : other = id
    · subst hother
      rw [deeds, if_pos (by simp [transacts])]
      exact (h.sign hL signerPayload draw).2
    · refine hleft (decide_eq_false hother) ?_
      rcases hsigner : s.signers other with - | signer <;>
        simp only [SigningAccounts.exec, hsigner, Function.update_of_ne (Ne.symm hother)]

theorem run_concat (events : List (Event Id)) (event : Event Id) :
    run L ste sr25519 iroh s (events ++ [event]) =
      (exec L ste sr25519 iroh (run L ste sr25519 iroh s events) event).2 :=
  List.foldl_concat ..

theorem run_cons_after (before after : List (Event Id)) (event : Event Id) :
    run L ste sr25519 iroh s (before ++ event :: after) =
      run L ste sr25519 iroh (exec L ste sr25519 iroh (run L ste sr25519 iroh s before) event).2
        after := by
  rw [run, List.foldl_append]
  rfl

theorem Tracks.run (h : Tracks view id accountId dir vaultPassword name keyPassword s c)
    (hL : L.Correct view) (hste : ste.Correct) (hsr25519 : sr25519.Correct) (hiroh : iroh.Correct)
    {events : List (Event Id)} (hevents : ∀ event ∈ events, restarts id event = false) :
    Tracks view id accountId dir vaultPassword name keyPassword
      (run L ste sr25519 iroh s events)
      (Custody.run c
        (events.flatMap (deeds ste sr25519 iroh view.resolve id dir vaultPassword name))) := by
  induction events using List.reverseRecOn with
  | nil => exact h
  | append_singleton events event ih =>
    have hbefore := ih fun e he => hevents e (List.mem_append_left _ he)
    have hevent : restarts id event = false := hevents event (by simp)
    rw [run_concat, List.flatMap_append, List.flatMap_singleton, Custody.run, List.foldl_append]
    exact hbefore.exec hL hste hsr25519 hiroh hevent

variable (ste sr25519 iroh view dir vaultPassword name id) in
theorem stays_deeds (events : List (Event Id)) :
    Custody.Stays true
      (events.flatMap (deeds ste sr25519 iroh view.resolve id dir vaultPassword name)) := by
  have hdeeds (event : Event Id) {deed : Custody.Event Bool Unit Str Bytes}
      (hdeed : deed ∈ deeds ste sr25519 iroh view.resolve id dir vaultPassword name event) :
      (∃ k v, deed = .deposit false () k v) ∨ deed = .call true := by
    rcases List.mem_append.mp hdeed with hstored | hcall
    · obtain ⟨entry, -, rfl⟩ := List.mem_map.mp hstored
      exact Or.inl ⟨_, _, rfl⟩
    · split_ifs at hcall
      · exact Or.inr (List.mem_singleton.mp hcall)
      · cases hcall
  refine ⟨fun hmem => ?_, fun p k v hmem => ?_⟩
  · obtain ⟨event, -, hdeed⟩ := List.mem_flatMap.mp hmem
    rcases hdeeds event hdeed with ⟨k, v, h⟩ | h <;> cases h
  · obtain ⟨event, -, hdeed⟩ := List.mem_flatMap.mp hmem
    rcases hdeeds event hdeed with ⟨k, v, h⟩ | h <;> cases h

end Steps

section Samples

def sampleRoots :
    RootsLib (Str → Option VaultMap) Str GeneratedKeys.SampleSignature where
  toKeystoreLib := sampleKeystore
  toHex bytes := '0' :: 'x' :: Hex.text bytes
  fromHex
    | '0' :: 'x' :: digits => Hex.decode (asBytes digits)
    | digits => Hex.decode (asBytes digits)
  signatureBytes _ signature := signature.1.1 ++ signature.2
  signatureOfBytes _ bytes :=
    (Arr.ofBytes? 32 (bytes.take 32)).map fun signer => (signer, bytes.drop 32)

theorem sampleRoots_correct : sampleRoots.Correct sampleView where
  keystore := sampleKeystore_implements
  fromHex bytes := by
    have hdigits : Hex.decode (asBytes (Hex.text bytes)) = some bytes := by
      rw [Hex.asBytes_text, Hex.decode_encode]
    exact hdigits
  signatureOfBytes k signature := by
    obtain ⟨signer, message⟩ := signature
    have htake : (signer.1 ++ message).take 32 = signer.1 := List.take_left' signer.2
    have hdrop : (signer.1 ++ message).drop 32 = message := List.drop_left' signer.2
    have hsigner : Arr.ofBytes? 32 signer.1 = some signer := Arr.ofBytes?_eq_some.mpr rfl
    simp only [sampleRoots, htake, hdrop, hsigner, Option.map_some]

def sampleArgs (keyName : Str) : Roots.KeyArgs :=
  ⟨"tmp/keystore".toList, keyName, "vault_password".toList, "key".toList, .polkadot, none⟩

def sampleVaultConfig : SubstrateVaultConfig :=
  ⟨SharedKeystores.sampleConfig "ste".toList, "alice".toList, some "key".toList⟩

def sampleKeygen (keyName : Str) (draw : Nat) : Event Nat :=
  .roots (.keygen (sampleArgs keyName) true (beArr 32 draw))

def sampleRun (events : List (Event Nat)) : State (Str → Option VaultMap) Str Nat (Arr 32) :=
  run sampleRoots SharedKeystores.sampleSte GeneratedKeys.sampleSr25519 GeneratedKeys.sampleIroh
    (start fun _ => none) events

-- the phrase of the key is compared letter by letter
set_option maxRecDepth 20000 in
theorem generated_sample :
    (exec sampleRoots SharedKeystores.sampleSte GeneratedKeys.sampleSr25519
      GeneratedKeys.sampleIroh (sampleRun []) (sampleKeygen "alice".toList 0)).1 =
        some (.ok (.printed (.generated (k := (sampleArgs "alice".toList).info.kind)
          GeneratedKeys.zeroPublic))) := rfl

set_option maxRecDepth 20000 in
theorem connected_sample :
    (exec sampleRoots SharedKeystores.sampleSte GeneratedKeys.sampleSr25519
      GeneratedKeys.sampleIroh (sampleRun [sampleKeygen "alice".toList 0])
      (.backend 0 sampleVaultConfig)).1 = some (.ok (.connected GeneratedKeys.zeroPublic)) := rfl

end Samples

section Results

section Definitions

variable {W H Dir Id Crs SecretKey PublicKey Ciphertext Share : Type}
  {Pair Public Signature : VaultKind → Type} [DecidableEq Dir] [DecidableEq Id]
  (L : RootsLib W H Signature) (ste : SteLib Crs SecretKey PublicKey Ciphertext Share)
  (sr25519 : Sr25519Lib (Pair .sr25519) (Public .sr25519) (Signature .sr25519))
  (iroh : IrohLib (Pair .iroh) (Public .iroh) (Signature .iroh)) (resolve : Str → Dir)

/-- A backend signs, for the account that it has read, with the seed that lies
under its name by then. Once a call has found another password there, it panics
ever after. -/
def Signs (id : Id) (accountId : Public .sr25519) (dir : Dir)
    (vaultPassword name : Str) (first : Str × Bytes) (s : State W H Id (Public .sr25519))
    (events : List (Event Id)) : Prop :=
  ∀ signerPayload draw,
    let past := events.flatMap (deeds ste sr25519 iroh resolve id dir vaultPassword name)
    (exec L ste sr25519 iroh s (.transaction id signerPayload draw)).1 =
        some (signedWith sr25519 accountId signerPayload draw
          (.served (Custody.latest () first past).2)) ∧
      Custody.Opened true () first (past ++ [.call true]) ∨
    (exec L ste sr25519 iroh s (.transaction id signerPayload draw)).1 = some .panic ∧
      ¬ Custody.Opened true () first (past ++ [.call true])

structure SameKey (args : Roots.KeyArgs) (vaultConfig : SubstrateVaultConfig) : Prop where
  polkadot : args.storeType = .polkadot
  vaultDir : resolve vaultConfig.vaultDir = resolve args.keystoreDir
  vaultPswd : vaultConfig.vaultPswd = some args.vaultPswd
  substrateName : vaultConfig.substrateName = args.keyName
  substratePswd : vaultConfig.substratePswd = some args.keyPassword

/-- What a generated key is good for: the commands know it, a backend runs on
its account, and what was signed with it verifies. -/
structure Lasts (args : Roots.KeyArgs) (publicKey : Public args.info.kind)
    (made : State W H Id (Public .sr25519)) (events : List (Event Id)) : Prop where
  serves : Roots.Serves L sr25519 iroh (run L ste sr25519 iroh made events).keystores args publicKey
  account : ∀ id vaultConfig, SameKey resolve args vaultConfig → ∃ accountId,
    (exec L ste sr25519 iroh (run L ste sr25519 iroh made events) (.backend id vaultConfig)).1 =
        some (.ok (.connected accountId)) ∧
      (exec L ste sr25519 iroh (run L ste sr25519 iroh made events) (.roots (.inspect args))).1 =
        some (.ok (.printed (.read accountId)))
  verified : ∀ pre nonce draw sigHex, pre <+: events →
    (exec L ste sr25519 iroh (run L ste sr25519 iroh made pre) (.roots (.sign args nonce draw))).1 =
        some (.ok (.printed (.produced nonce sigHex))) →
      (exec L ste sr25519 iroh (run L ste sr25519 iroh made events)
        (.roots (.verify args sigHex nonce))).1 = some (.ok (.printed (.verified true)))

end Definitions

variable {W H Dir Id Crs SecretKey PublicKey Ciphertext Share : Type}
  {Pair Public Signature : VaultKind → Type} [DecidableEq Dir] [DecidableEq Id]
  {L : RootsLib W H Signature} {ste : SteLib Crs SecretKey PublicKey Ciphertext Share}
  {sr25519 : Sr25519Lib (Pair .sr25519) (Public .sr25519) (Signature .sr25519)}
  {iroh : IrohLib (Pair .iroh) (Public .iroh) (Signature .iroh)} {view : KeystoreView W H Dir}
  {s : State W H Id (Public .sr25519)} {id : Id} {accountId : Public .sr25519}
  {vaultConfig : SubstrateVaultConfig} {dir : Dir} {m : VaultMap} {name : Str}
  {entry : Str × Bytes} {args : Roots.KeyArgs}

theorem connected_of_ok
    (h : (exec L ste sr25519 iroh s (.backend id vaultConfig)).1 =
      some (.ok (.connected accountId))) :
    ∃ signer keystores, SubstrateBackend.new L.toKeystoreLib sr25519 vaultConfig s.keystores =
        (.ok signer, keystores) ∧ signer.accountId = accountId ∧
      (exec L ste sr25519 iroh s (.backend id vaultConfig)).2 =
        ⟨keystores, Function.update s.signers id (some signer)⟩ := by
  rcases hnew : SubstrateBackend.new L.toKeystoreLib sr25519 vaultConfig s.keystores with
    ⟨signer | e | -, keystores⟩
  · simp only [exec, hnew, Option.some.injEq, Outcome.ok.injEq, Answer.connected.injEq] at h
    refine ⟨signer, keystores, rfl, h, ?_⟩
    simp only [exec, hnew]
  · simp [exec, hnew] at h
  · simp [exec, hnew] at h

theorem entry_run (hL : L.Correct view) (hste : ste.Correct) (hsr25519 : sr25519.Correct)
    (hiroh : iroh.Correct) (hm : view.maps s.keystores dir = some m)
    (hentry : m.entries name = some entry) {events : List (Event Id)}
    (hevents : ∀ event ∈ events,
      stores ste sr25519 iroh view.resolve dir m.password name event = none) :
    ∃ m', view.maps (run L ste sr25519 iroh s events).keystores dir = some m' ∧
      m'.password = m.password ∧ m'.entries name = some entry := by
  induction events using List.reverseRecOn with
  | nil => exact ⟨m, hm, rfl, hentry⟩
  | append_singleton events event ih =>
    obtain ⟨m₁, hm₁, hpassword₁, hentry₁⟩ := ih fun e he => hevents e (List.mem_append_left _ he)
    have hnone : stores ste sr25519 iroh view.resolve dir m₁.password name event = none := by
      rw [hpassword₁]
      exact hevents event (by simp)
    obtain ⟨m₂, hm₂, hpassword₂, hentry₂⟩ :=
      leaves_exec name hL hste hsr25519 hiroh event hm₁
    rw [hnone, hentry₁] at hentry₂
    rw [run_concat]
    exact ⟨m₂, hm₂, hpassword₂.trans hpassword₁, hentry₂⟩

theorem printed_exec {command : Roots.Command} {text : Roots.Printed Public} :
    (exec L ste sr25519 iroh s (.roots command)).1 = some (.ok (.printed text)) ↔
      (Roots.exec L sr25519 iroh command s.keystores).1 = .ok text := by
  have hanswer : (exec L ste sr25519 iroh s (.roots command)).1 =
      some ((Roots.exec L sr25519 iroh command s.keystores).1 >>= fun text =>
        .ok (.printed text)) := rfl
  rw [hanswer, Option.some.injEq, Outcome.bind_eq_ok]
  simp

theorem generated_of_ok (hL : L.Correct view) (hsr25519 : sr25519.Correct) (hiroh : iroh.Correct)
    {printMnemonic : Bool} {draw : Arr 32} {publicKey : Public args.info.kind}
    (h : (exec L ste sr25519 iroh s (.roots (.keygen args printMnemonic draw))).1 =
      some (.ok (.printed (.generated publicKey)))) :
    ∃ m bytes pair, m.password = args.vaultPswd ∧
      (GeneratedKeys.kindOf sr25519 iroh args.info.kind).ofBytes bytes = .ok pair ∧
      publicKey = (GeneratedKeys.kindOf sr25519 iroh args.info.kind).publicKey pair ∧
      view.maps (exec L ste sr25519 iroh s (.roots (.keygen args printMnemonic draw))).2.keystores
        (view.resolve args.keystoreDir) = some m ∧
      m.entries args.info.keyName = some (args.keyPassword, bytes) := by
  rcases Roots.keygen_cases s.keystores draw printMnemonic hL hsr25519 hiroh rfl with
    ⟨-, pair, bytes, m, keystores, -, hpassword, -, hbytes, hexec, hmaps⟩ |
      ⟨-, keystores, hexec, -⟩
  · rw [printed_exec, hexec] at h
    simp only [Outcome.ok.injEq, Roots.Printed.generated.injEq, heq_eq_eq, true_and] at h
    have hkeystores : (exec L ste sr25519 iroh s
        (.roots (.keygen args printMnemonic draw))).2.keystores = keystores :=
      congrArg Prod.snd hexec
    refine ⟨_, bytes, pair, ?_, hbytes, h.symm,
      hkeystores ▸ (congrFun hmaps _).trans (Function.update_self ..), ?_⟩
    · rw [VaultMap.write_password, hpassword]
    · rw [entries_write hpassword.symm, if_pos rfl]
  · rw [printed_exec, hexec] at h
    cases h

theorem verified_of_served {later : W} (hL : L.Correct view)
    {publicKey : Public args.info.kind} (h : Roots.Serves L sr25519 iroh w args publicKey)
    (hlater : Roots.Serves L sr25519 iroh later args publicKey) {nonce : UInt32} {draw : Bytes}
    {sigHex : Str} (hsign : (Roots.exec L sr25519 iroh (.sign args nonce draw) w).1 =
      .ok (.produced nonce sigHex)) :
    (Roots.exec L sr25519 iroh (.verify args sigHex nonce) later).1 = .ok (.verified true) := by
  obtain ⟨signature, hproduced, hverifies⟩ := h.signed nonce draw
  have hhex : L.toHex (L.signatureBytes args.info.kind signature) = sigHex := by
    rw [hproduced] at hsign
    simpa using hsign
  rw [hlater.verified sigHex nonce, ← hhex, hL.fromHex, Option.bind_some, hL.signatureOfBytes]
  simp [Outcome.expect, hverifies]

theorem account_of_entry (hL : L.Correct view) (hsr25519 : sr25519.Correct) (hiroh : iroh.Correct)
    (hsame : SameKey view.resolve args vaultConfig)
    (hm : view.maps s.keystores (view.resolve args.keystoreDir) = some m)
    (hpassword : m.password = args.vaultPswd) {bytes : Bytes}
    (hentry : m.entries args.info.keyName = some (args.keyPassword, bytes))
    {pair : Pair args.info.kind}
    (hbytes : (GeneratedKeys.kindOf sr25519 iroh args.info.kind).ofBytes bytes = .ok pair) :
    ∃ accountId, (exec L ste sr25519 iroh s (.backend id vaultConfig)).1 =
        some (.ok (.connected accountId)) ∧
      (exec L ste sr25519 iroh s (.roots (.inspect args))).1 =
        some (.ok (.printed (.read accountId))) := by
  have hinspected :=
    (Roots.serves_of_entry hL hsr25519 hiroh hm hpassword hentry hbytes).inspected
  obtain ⟨hpolkadot, hdir, hvault, hname, hpswd⟩ := hsame
  rcases args with ⟨keystoreDir, keyName, vaultPswd, keyPassword, storeType, index⟩
  obtain rfl : storeType = .polkadot := hpolkadot
  have hpair : sr25519.fromSeedSlice bytes = some pair := Outcome.expect_eq_ok.mp hbytes
  rw [← hdir] at hm
  rw [← hpassword] at hvault
  obtain ⟨signer, keystores, hnew, haccount⟩ := new_of_entry hL hm hvault hpswd
    (hname ▸ hentry) hpair
  refine ⟨sr25519.publicKey pair, ?_, printed_exec.mpr hinspected⟩
  simp only [exec, hnew, haccount]

variable (L) in
/-- A running backend does not learn that its key has been replaced: it goes on
for its old account, with the new key or not at all. -/
theorem transactions_of_run (hL : L.Correct view) (hste : ste.Correct) (hsr25519 : sr25519.Correct)
    (hiroh : iroh.Correct) (keystores : W) (before after : List (Event Id))
    (hconnect : (exec L ste sr25519 iroh (run L ste sr25519 iroh (start keystores) before)
      (.backend id vaultConfig)).1 = some (.ok (.connected accountId)))
    (hafter : ∀ event ∈ after, restarts id event = false) :
    ∃ vaultPassword keyPassword seedBytes pair, vaultConfig.vaultPswd = some vaultPassword ∧
      vaultConfig.substratePswd = some keyPassword ∧
      sr25519.fromSeedSlice seedBytes = some pair ∧ accountId = sr25519.publicKey pair ∧
      Signs L ste sr25519 iroh view.resolve id accountId (view.resolve vaultConfig.vaultDir)
        vaultPassword vaultConfig.substrateName (keyPassword, seedBytes)
        (run L ste sr25519 iroh (start keystores) (before ++ .backend id vaultConfig :: after))
        after := by
  obtain ⟨signer, keystores₁, hnew, rfl, hstate⟩ := connected_of_ok hconnect
  obtain ⟨m, keyPassword, seedBytes, pair, hvault, hpswd, hm, hentry, hpair, lock, rfl, hdir,
    hfree⟩ := new_of_ok hL hnew
  rw [run_cons_after, hstate]
  let c : Custody.State Bool Unit Str Bytes :=
    ⟨fun _ => some (keyPassword, seedBytes), fun _ => some (.tenant () keyPassword)⟩
  have hstart : Tracks view id (sr25519.publicKey pair) (view.resolve vaultConfig.vaultDir)
      m.password vaultConfig.substrateName keyPassword
      ⟨keystores₁, Function.update (run L ste sr25519 iroh (start keystores) before).signers id
        (some ⟨sr25519.publicKey pair,
          Sr25519KeyVault.newStoreInfo m.password vaultConfig.substrateName keyPassword,
          lock⟩)⟩ c :=
    ⟨⟨m, _, hm, rfl, hentry, rfl⟩, ⟨lock, Function.update_self .., hdir, by rw [hfree]; rfl⟩⟩
  have htracks := hstart.run hL hste hsr25519 hiroh hafter
  refine ⟨m.password, keyPassword, seedBytes, pair, hvault, hpswd, hpair, rfl,
    fun signerPayload draw => ?_⟩
  have hstays := stays_deeds ste sr25519 iroh view (view.resolve vaultConfig.vaultDir) m.password
    vaultConfig.substrateName id after
  have hkept : c.kept () = some (keyPassword, seedBytes) := rfl
  have hstanding : c.standing true = some (.tenant () keyPassword) := rfl
  rw [(htracks.sign hL signerPayload draw).1]
  rcases Custody.answer_run_of_tenant hkept hstanding hstays with
    ⟨hserved, hopened⟩ | ⟨hrefused, hclosed⟩
  · rw [hserved]
    exact Or.inl ⟨rfl, hopened⟩
  · rw [hrefused]
    exact Or.inr ⟨rfl, hclosed⟩

theorem transactions_of_run_replaced : ∃ vaultPassword keyPassword seedBytes pair,
    sampleVaultConfig.vaultPswd = some vaultPassword ∧
      sampleVaultConfig.substratePswd = some keyPassword ∧
      GeneratedKeys.sampleSr25519.fromSeedSlice seedBytes = some pair ∧
      GeneratedKeys.zeroPublic = GeneratedKeys.sampleSr25519.publicKey pair ∧
      Signs sampleRoots SharedKeystores.sampleSte GeneratedKeys.sampleSr25519
        GeneratedKeys.sampleIroh sampleView.resolve 0 GeneratedKeys.zeroPublic
        "tmp/keystore".toList vaultPassword "alice".toList (keyPassword, seedBytes)
        (sampleRun ([sampleKeygen "alice".toList 0] ++
          .backend 0 sampleVaultConfig :: [sampleKeygen "alice".toList 1]))
        [sampleKeygen "alice".toList 1] :=
  transactions_of_run sampleRoots sampleRoots_correct SharedKeystores.sampleSte_correct
    GeneratedKeys.sampleSr25519_correct GeneratedKeys.sampleIroh_correct (fun _ => none)
    [sampleKeygen "alice".toList 0] [sampleKeygen "alice".toList 1] connected_sample (by decide)

variable (L) in
/-- A key that `keygen` has printed can be used until another one is stored in
its place: whatever the commands, the nodes and the backends do meanwhile. -/
theorem key_lasts (hL : L.Correct view) (hste : ste.Correct) (hsr25519 : sr25519.Correct)
    (hiroh : iroh.Correct) (keystores : W) (before after : List (Event Id))
    {printMnemonic : Bool} {draw : Arr 32} {publicKey : Public args.info.kind}
    (hmade : (exec L ste sr25519 iroh (run L ste sr25519 iroh (start keystores) before)
      (.roots (.keygen args printMnemonic draw))).1 =
        some (.ok (.printed (.generated publicKey))))
    (hafter : ∀ event ∈ after, stores ste sr25519 iroh view.resolve (view.resolve args.keystoreDir)
      args.vaultPswd args.info.keyName event = none) :
    Lasts L ste sr25519 iroh view.resolve args publicKey
      (run L ste sr25519 iroh (start keystores)
        (before ++ [.roots (.keygen args printMnemonic draw)])) after := by
  rw [run_concat]
  obtain ⟨m, bytes, pair, hpassword, hbytes, rfl, hm, hentry⟩ :=
    generated_of_ok hL hsr25519 hiroh hmade
  generalize (exec L ste sr25519 iroh (run L ste sr25519 iroh (start keystores) before)
    (.roots (.keygen args printMnemonic draw))).2 = made at hm
  rw [← hpassword] at hafter
  have hkey {events : List (Event Id)} (hevents : events <+: after) :
      ∃ m', view.maps (run L ste sr25519 iroh made events).keystores
          (view.resolve args.keystoreDir) = some m' ∧
        m'.password = args.vaultPswd ∧ m'.entries args.info.keyName = some (args.keyPassword, bytes)
      := by
    obtain ⟨m', hm', hpassword', hentry'⟩ := entry_run hL hste hsr25519 hiroh hm hentry
      fun event hevent => hafter event (hevents.subset hevent)
    exact ⟨m', hm', hpassword'.trans hpassword, hentry'⟩
  have hserves {events : List (Event Id)} (hevents : events <+: after) :
      Roots.Serves L sr25519 iroh (run L ste sr25519 iroh made events).keystores args
        ((GeneratedKeys.kindOf sr25519 iroh args.info.kind).publicKey pair) := by
    obtain ⟨m', hm', hpassword', hentry'⟩ := hkey hevents
    exact Roots.serves_of_entry hL hsr25519 hiroh hm' hpassword' hentry' hbytes
  refine ⟨hserves List.prefix_rfl, fun id vaultConfig hsame => ?_, fun pre nonce draw sigHex hpre
    hsign => ?_⟩
  · obtain ⟨m', hm', hpassword', hentry'⟩ := hkey List.prefix_rfl
    exact account_of_entry hL hsr25519 hiroh hsame hm' hpassword' hentry' hbytes
  · exact printed_exec.mpr (verified_of_served hL (hserves hpre) (hserves List.prefix_rfl)
      (printed_exec.mp hsign))

theorem key_lasts_second :
    Lasts sampleRoots SharedKeystores.sampleSte GeneratedKeys.sampleSr25519
      GeneratedKeys.sampleIroh sampleView.resolve (sampleArgs "alice".toList)
      GeneratedKeys.zeroPublic
      (sampleRun ([] ++ [sampleKeygen "alice".toList 0]))
      [.build (SharedKeystores.sampleConfig "ste".toList) 2 (beArr 32 0) (beArr 32 1) true,
        sampleKeygen "bob".toList 1, .backend 0 sampleVaultConfig] :=
  key_lasts sampleRoots sampleRoots_correct SharedKeystores.sampleSte_correct
    GeneratedKeys.sampleSr25519_correct GeneratedKeys.sampleIroh_correct (fun _ => none) []
    [.build (SharedKeystores.sampleConfig "ste".toList) 2 (beArr 32 0) (beArr 32 1) true,
      sampleKeygen "bob".toList 1, .backend 0 sampleVaultConfig] generated_sample
    (by decide)

end Results

end SigningAccounts

end Fangorn
