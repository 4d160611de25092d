import Fangorn.KeyVault

/-! Keystores that several processes are at: directories, and the `Vault` values
of `rust_vault` that are opened on them, each behind the lock of a key vault. -/

namespace Fangorn

open Rust Scale

def unwrapped {σ α : Type} (call : Action σ KeyVaultError α) : Action σ KeyVaultError α :=
  fun s => ((call s).1.unwrap, (call s).2)

/-- `rust_vault`: a `Vault` is a handle `H`, and `W` is what all of them work on. -/
structure KeystoreLib (W H : Type) extends VaultLib (H × W) where
  openOrCreate : Str → Str → W → Option H × W
  openVault : Str → Str → W → Option H × W
  clone : H → H

/-- What handles and files stand for. Paths may name the same directory. -/
structure KeystoreView (W H Dir : Type) where
  resolve : Str → Dir
  dirOf : H → Dir
  maps : W → Dir → Option VaultMap

namespace Keystores

section Opening

variable {Dir : Type} [DecidableEq Dir] {dir : Dir} {password : Str} {n : Dir → Option VaultMap}
  {m : VaultMap}

def opened (dir : Dir) (password : Str) (n : Dir → Option VaultMap) : Dir → Option VaultMap :=
  match n dir with
  | some _ => n
  | none => Function.update n dir (some ⟨password, fun _ => none⟩)

def passwords (n : Dir → Option VaultMap) : Dir → Option Str :=
  fun dir => (n dir).map VaultMap.password

variable (dir password n) in
theorem opened_self : ∃ m, opened dir password n dir = some m := by
  rcases hn : n dir with - | m
  · refine ⟨⟨password, fun _ => none⟩, ?_⟩
    rw [opened, hn]
    exact Function.update_self ..
  · refine ⟨m, ?_⟩
    rw [opened, hn]
    exact hn

variable (dir password) in
theorem opened_of_some {d : Dir} (h : n d = some m) : opened dir password n d = some m := by
  rcases hn : n dir with - | m'
  · have hne : d ≠ dir := by
      rintro rfl
      rw [h] at hn
      cases hn
    rw [opened, hn]
    exact (Function.update_of_ne hne ..).trans h
  · rw [opened, hn]
    exact h

end Opening

end Keystores

/-- Each handle on a directory reads and writes what is stored there by all of
them, and what is stored there stays. -/
structure KeystoreLib.Implements {W H Dir : Type} [DecidableEq Dir] (L : KeystoreLib W H)
    (view : KeystoreView W H Dir) : Prop where
  storeBytes : ∀ name bytes vaultPassword filePassword h w m,
    view.maps w (view.dirOf h) = some m → ∃ h' w',
      L.storeBytes name bytes vaultPassword filePassword (h, w) =
        ((m.write name bytes vaultPassword filePassword).1, h', w') ∧
      view.dirOf h' = view.dirOf h ∧
      view.maps w' = Function.update (view.maps w) (view.dirOf h)
        (some (m.write name bytes vaultPassword filePassword).2)
  get : ∀ name vaultPassword filePassword h w, ∃ h' w',
    L.get name vaultPassword filePassword (h, w) =
      ((view.maps w (view.dirOf h)).bind fun m => m.read name vaultPassword filePassword,
        h', w') ∧
    view.dirOf h' = view.dirOf h ∧ view.maps w' = view.maps w
  clone : ∀ h, view.dirOf (L.clone h) = view.dirOf h
  opened : ∀ path password w h w', L.openOrCreate path password w = (some h, w') →
    view.dirOf h = view.resolve path ∧
      view.maps w' = Keystores.opened (view.resolve path) password (view.maps w)
  refused : ∀ path password w w', L.openOrCreate path password w = (none, w') →
    view.maps w' = view.maps w ∧
      ∃ m, view.maps w (view.resolve path) = some m ∧ m.password ≠ password
  found : ∀ path password w h w', L.openVault path password w = (some h, w') →
    view.dirOf h = view.resolve path ∧ view.maps w' = view.maps w
  missed : ∀ path password w w', L.openVault path password w = (none, w') →
    view.maps w' = view.maps w ∧
      Keystores.passwords (view.maps w) (view.resolve path) ≠ some password

/-- The vault of a key vault, behind its lock. -/
structure Locked (H : Type) where
  vault : H
  poisoned : Bool

namespace Locked

variable {W H α : Type}

def new (vault : H) : Locked H := ⟨vault, false⟩

def run (lock : Locked H) (kv : KeyVault) (call : Action (Vaults (H × W)) KeyVaultError α) (w : W) :
    Outcome KeyVaultError α × Locked H × W :=
  let (result, after) := call ⟨(lock.vault, w), fun _ => lock.poisoned⟩
  (result, ⟨after.vault.1, after.poisoned kv.keyName⟩, after.vault.2)

end Locked

namespace Keystores

section Definitions

variable {W H : Type}

def opening (call : W → Option H × W) : Action W KeyVaultError H :=
  fun w => (.expect (call w).1, (call w).2)

end Definitions

section Opening

variable {W H Dir : Type} [DecidableEq Dir] {L : KeystoreLib W H} {view : KeystoreView W H Dir}

variable (path password : Str) (w : W)

theorem openOrCreate_cases (hL : L.Implements view) :
    (∃ h w', opening (L.openOrCreate path password) w = (.ok h, w') ∧
      view.dirOf h = view.resolve path ∧
      view.maps w' = opened (view.resolve path) password (view.maps w)) ∨
    ∃ w', opening (L.openOrCreate path password) w = (.panic, w') ∧
      view.maps w' = view.maps w ∧
      opened (view.resolve path) password (view.maps w) = view.maps w ∧
      passwords (view.maps w) (view.resolve path) ≠ some password := by
  rcases hopen : L.openOrCreate path password w with ⟨- | h, w'⟩
  · obtain ⟨hmaps, m, hm, hpassword⟩ := hL.refused path password w w' hopen
    refine Or.inr ⟨w', ?_, hmaps, ?_, ?_⟩
    · rw [opening, hopen]
      rfl
    · rw [opened, hm]
    · rw [passwords, hm]
      exact fun heq => hpassword (Option.some.inj heq)
  · obtain ⟨hdir, hmaps⟩ := hL.opened path password w h w' hopen
    refine Or.inl ⟨h, w', ?_, hdir, hmaps⟩
    rw [opening, hopen]
    rfl

theorem openVault_cases (hL : L.Implements view) :
    (∃ h w', opening (L.openVault path password) w = (.ok h, w') ∧
      view.dirOf h = view.resolve path ∧ view.maps w' = view.maps w) ∨
    ∃ w', opening (L.openVault path password) w = (.panic, w') ∧ view.maps w' = view.maps w ∧
      passwords (view.maps w) (view.resolve path) ≠ some password := by
  rcases hopen : L.openVault path password w with ⟨- | h, w'⟩
  · obtain ⟨hmaps, hpassword⟩ := hL.missed path password w w' hopen
    refine Or.inr ⟨w', ?_, hmaps, hpassword⟩
    rw [opening, hopen]
    rfl
  · obtain ⟨hdir, hmaps⟩ := hL.found path password w h w' hopen
    refine Or.inl ⟨h, w', ?_, hdir, hmaps⟩
    rw [opening, hopen]
    rfl

end Opening

end Keystores

namespace Locked

section Calling

variable {W H α β : Type} {lock : Locked H} {kv : KeyVault} {w : W}
  {call : Action (Vaults (H × W)) KeyVaultError α}

theorem run_unwrapped : lock.run kv (unwrapped call) w =
    ((lock.run kv call w).1.unwrap, (lock.run kv call w).2) := rfl

theorem run_map (f : α → β) : lock.run kv (call >>= fun a => pure (f a)) w =
    ((lock.run kv call w).1 >>= fun a => .ok (f a), (lock.run kv call w).2) := by
  have hfst : ((call >>= fun a => pure (f a)) ⟨(lock.vault, w), fun _ => lock.poisoned⟩).1 =
      (call ⟨(lock.vault, w), fun _ => lock.poisoned⟩).1 >>= fun a => .ok (f a) := Action.bind_fst
  have hsnd : ((call >>= fun a => pure (f a)) ⟨(lock.vault, w), fun _ => lock.poisoned⟩).2 =
      (call ⟨(lock.vault, w), fun _ => lock.poisoned⟩).2 := Action.bind_snd fun _ _ => rfl
  simp only [run, hfst, hsnd]

end Calling

section Keys

variable {W H Dir Pair Public Signature : Type} [DecidableEq Dir] {L : KeystoreLib W H}
  {view : KeystoreView W H Dir} (kind : KeyKind Pair Public Signature) (kv : KeyVault)
  {lock : Locked H} {w : W} {m : VaultMap} {vaultPassword filePassword : Str}

/-- A call opens the key that lies under its name and its passwords, and locks
the vault where there is none. -/
theorem openKey (hL : L.Implements view) (hpass : kv.passwords = .ok (vaultPassword, filePassword))
    {found : Option Bytes} (hfound : found =
      if lock.poisoned then none else (view.maps w (view.dirOf lock.vault)).bind fun m =>
        m.read kv.keyName vaultPassword filePassword) :
    ∃ lock' w', lock.run kv (kv.openKey L.toVaultLib kind) w =
        (Outcome.expect found >>= kind.ofBytes, lock', w') ∧
      view.dirOf lock'.vault = view.dirOf lock.vault ∧ lock'.poisoned = found.isNone ∧
      view.maps w' = view.maps w := by
  have hopen (s : Vaults (H × W)) : kv.openKey L.toVaultLib kind s =
      (kv.getBytes L.toVaultLib vaultPassword filePassword >>= fun bytes =>
        Action.lift (kind.ofBytes bytes)) s := by
    rw [KeyVault.openKey, hpass]
    exact Action.bind_of_ok rfl
  by_cases hlocked : lock.poisoned = true
  · rw [if_pos hlocked] at hfound
    subst hfound
    have hget : kv.getBytes L.toVaultLib vaultPassword filePassword
        ⟨(lock.vault, w), fun _ => lock.poisoned⟩ =
          (.panic, ⟨(lock.vault, w), fun _ => lock.poisoned⟩) := if_pos hlocked
    refine ⟨⟨lock.vault, lock.poisoned⟩, w, ?_, rfl, hlocked, rfl⟩
    rw [run, hopen, Action.bind_of_panic hget]
    rfl
  · rw [if_neg hlocked] at hfound
    obtain ⟨h', w', hget, hdir, hmaps⟩ :=
      hL.get kv.keyName vaultPassword filePassword lock.vault w
    rw [← hfound] at hget
    refine ⟨⟨h', found.isNone⟩, w', ?_, hdir, rfl, hmaps⟩
    cases found with
    | none =>
      have hbytes : kv.getBytes L.toVaultLib vaultPassword filePassword
          ⟨(lock.vault, w), fun _ => lock.poisoned⟩ = (.panic, ⟨(h', w'),
            Function.update (fun _ => lock.poisoned) kv.keyName true⟩) := by
        simp only [KeyVault.getBytes, hlocked, hget]
        rfl
      rw [run, hopen, Action.bind_of_panic hbytes]
      simp [Outcome.expect]
    | some bytes =>
      have hbytes : kv.getBytes L.toVaultLib vaultPassword filePassword
          ⟨(lock.vault, w), fun _ => lock.poisoned⟩ =
            (.ok bytes, ⟨(h', w'), fun _ => lock.poisoned⟩) := by
        simp only [KeyVault.getBytes, hlocked, hget]
        rfl
      rw [run, hopen, Action.bind_of_ok hbytes]
      simp [Action.lift, Outcome.expect, hlocked]

variable (lock w) in
theorem maps_openKey (hL : L.Implements view) :
    view.maps (lock.run kv (kv.openKey L.toVaultLib kind) w).2.2 = view.maps w := by
  rcases hpass : kv.passwords with ⟨vaultPassword, filePassword⟩ | e | -
  · have hfound : _ = if lock.poisoned then none else
        (view.maps w (view.dirOf lock.vault)).bind fun m =>
          m.read kv.keyName vaultPassword filePassword := rfl
    obtain ⟨lock', w', hcall, -, -, hmaps⟩ := openKey kind kv hL hpass hfound
    rw [hcall]
    exact hmaps
  · rw [run, KeyVault.openKey, hpass]
    rfl
  · rw [run, KeyVault.openKey, hpass]
    rfl

/-- A generation stores its key under the password of the vault, and no other. -/
theorem generate (locked : Outcome KeyVaultError Unit) (hL : L.Implements view)
    {passwords : Outcome KeyVaultError (Str × Str)} {draw : Arr 32} {pair : Pair} {bytes : Bytes}
    (hfresh : kind.fresh draw = .ok (pair, bytes))
    (hpass : passwords = .ok (vaultPassword, filePassword))
    (hm : view.maps w (view.dirOf lock.vault) = some m) (hfree : lock.poisoned = false) :
    ∃ lock' w', lock.run kv (kv.generate L.toVaultLib kind passwords locked draw) w =
        (if vaultPassword = m.password then .ok (kind.publicKey pair) else .panic, lock', w') ∧
      view.dirOf lock'.vault = view.dirOf lock.vault ∧
      (vaultPassword = m.password → lock'.poisoned = false) ∧
      view.maps w' = Function.update (view.maps w) (view.dirOf lock.vault)
        (some (m.write kv.keyName bytes vaultPassword filePassword).2) := by
  obtain ⟨h', w', hstore, hdir, hmaps⟩ :=
    hL.storeBytes kv.keyName bytes vaultPassword filePassword _ _ m hm
  have hgenerate : kv.generate L.toVaultLib kind passwords locked draw
      ⟨(lock.vault, w), fun _ => lock.poisoned⟩ = _ := KeyVault.generate_of_fresh kv hfresh hpass
  by_cases hvault : vaultPassword = m.password
  · rw [VaultMap.write_fst kv.keyName filePassword bytes hvault] at hstore
    have hcall : kv.storeBytes L.toVaultLib locked bytes vaultPassword filePassword
        ⟨(lock.vault, w), fun _ => lock.poisoned⟩ =
          (.ok (), ⟨(h', w'), fun _ => lock.poisoned⟩) := by
      simp only [KeyVault.storeBytes, hfree, hstore]
      rfl
    rw [Action.bind_of_ok hcall] at hgenerate
    refine ⟨⟨h', false⟩, w', ?_, hdir, fun _ => rfl, hmaps⟩
    rw [run, hgenerate, if_pos hvault, ← hfree]
    rfl
  · have hwrite : (m.write kv.keyName bytes vaultPassword filePassword).1 = false := by
      rw [VaultMap.write, if_neg hvault]
    rw [hwrite] at hstore
    have hcall : kv.storeBytes L.toVaultLib locked bytes vaultPassword filePassword
        ⟨(lock.vault, w), fun _ => lock.poisoned⟩ = (.panic, ⟨(h', w'),
          Function.update (fun _ => lock.poisoned) kv.keyName true⟩) := by
      simp only [KeyVault.storeBytes, hfree, hstore]
      rfl
    rw [Action.bind_of_panic hcall] at hgenerate
    refine ⟨⟨h', true⟩, w', ?_, hdir, fun h => absurd h hvault, hmaps⟩
    simp [run, hgenerate, hvault]

end Keys

end Locked

section Unwrapping

variable {σ α : Type} {call : Action σ KeyVaultError α} {s s' : σ}

theorem unwrapped_of_ok {a : α} (h : call s = (.ok a, s')) :
    unwrapped call s = (.ok a, s') := by
  rw [unwrapped, h]
  rfl

theorem unwrapped_of_panic (h : (call s).1 = .panic) :
    unwrapped call s = (.panic, (call s).2) := by
  rw [unwrapped, h]
  rfl

end Unwrapping

section Sample

def sampleKeystore : KeystoreLib (Str → Option VaultMap) Str where
  storeBytes name bytes vaultPassword filePassword s :=
    match s.2 s.1 with
    | some m =>
      let (stored, m') := m.write name bytes vaultPassword filePassword
      (stored, s.1, Function.update s.2 s.1 (some m'))
    | none => (false, s)
  get name vaultPassword filePassword s :=
    match s.2 s.1 with
    | some m => (m.read name vaultPassword filePassword, s)
    | none => (none, s)
  openOrCreate path password w :=
    match w path with
    | some m => if m.password = password then (some path, w) else (none, w)
    | none => (some path, Function.update w path (some ⟨password, fun _ => none⟩))
  openVault path password w :=
    match w path with
    | some m => if m.password = password then (some path, w) else (none, w)
    | none => (none, w)
  clone := id

def sampleView : KeystoreView (Str → Option VaultMap) Str Str := ⟨id, id, id⟩

theorem sampleKeystore_implements : sampleKeystore.Implements sampleView where
  storeBytes name bytes vaultPassword filePassword h w m hm := by
    have hw : w h = some m := hm
    refine ⟨h, _, ?_, rfl, rfl⟩
    simp only [sampleKeystore, hw]
    rfl
  get name vaultPassword filePassword h w := by
    refine ⟨h, w, ?_, rfl, rfl⟩
    rcases hw : w h with - | m
    · simp only [sampleKeystore, sampleView, id_eq, hw, Option.bind_none]
    · simp only [sampleKeystore, sampleView, id_eq, hw, Option.bind_some]
  clone _ := rfl
  opened path password w h w' hopen := by
    rcases hw : w path with - | m
    · simp only [sampleKeystore, hw, Prod.mk.injEq, Option.some.injEq] at hopen
      obtain ⟨rfl, rfl⟩ := hopen
      refine ⟨rfl, ?_⟩
      simp only [sampleView, Keystores.opened, id_eq, hw]
    · simp only [sampleKeystore, hw] at hopen
      split_ifs at hopen
      · cases hopen
        refine ⟨rfl, ?_⟩
        simp only [sampleView, Keystores.opened, id_eq, hw]
      · cases hopen
  refused path password w w' hopen := by
    rcases hw : w path with - | m
    · simp [sampleKeystore, hw] at hopen
    · simp only [sampleKeystore, hw] at hopen
      split_ifs at hopen with hpassword
      · cases hopen
      · cases hopen
        exact ⟨rfl, m, hw, hpassword⟩
  found path password w h w' hopen := by
    rcases hw : w path with - | m
    · simp [sampleKeystore, hw] at hopen
    · simp only [sampleKeystore, hw] at hopen
      split_ifs at hopen
      · cases hopen
        exact ⟨rfl, rfl⟩
      · cases hopen
  missed path password w w' hopen := by
    rcases hw : w path with - | m
    · simp only [sampleKeystore, hw] at hopen
      cases hopen
      refine ⟨rfl, ?_⟩
      simp [sampleView, Keystores.passwords, hw]
    · simp only [sampleKeystore, hw] at hopen
      split_ifs at hopen with hpassword
      · cases hopen
      · cases hopen
        refine ⟨rfl, ?_⟩
        simp [sampleView, Keystores.passwords, hw, hpassword]

end Sample

end Fangorn
