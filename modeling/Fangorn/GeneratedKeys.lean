import Fangorn.KeyVault

/-! Runs of calls on key vaults of both types that share a vault (as `roots`
makes them, one name for each): what becomes of the keys they generate. -/

namespace Fangorn

open Rust Scale

inductive VaultKind where
  | sr25519
  | iroh
  deriving DecidableEq, Repr

/-- The arguments of `new_store_info`. -/
inductive StoreInfo where
  | sr25519 (vaultPassword keyName keyPassword : Str)
  | iroh (vaultPassword keyPassword : Str) (index : Nat)

namespace StoreInfo

def kind : StoreInfo → VaultKind
  | sr25519 .. => .sr25519
  | iroh .. => .iroh

def keyVault : StoreInfo → KeyVault
  | sr25519 vaultPassword keyName keyPassword =>
    Sr25519KeyVault.newStoreInfo vaultPassword keyName keyPassword
  | iroh vaultPassword keyPassword index =>
    IrohKeyVault.newStoreInfo vaultPassword keyPassword index

def keyName (info : StoreInfo) : Str := info.keyVault.keyName

def vaultPassword : StoreInfo → Str
  | sr25519 vaultPassword _ _ => vaultPassword
  | iroh vaultPassword _ _ => vaultPassword

def keyPassword : StoreInfo → Str
  | sr25519 _ _ keyPassword => keyPassword
  | iroh _ keyPassword _ => keyPassword

theorem passwords_keyVault (info : StoreInfo) :
    info.keyVault.passwords = .ok (info.vaultPassword, info.keyPassword) := by
  cases info <;> rfl

end StoreInfo

/-- The calls on a key vault; just one of the two types prints mnemonics. -/
inductive KeyCall : VaultKind → Type where
  | generateKey {k : VaultKind} (draw : Arr 32) : KeyCall k
  | generateKeyPrintMnemonic (entropy : Arr 32) : KeyCall .sr25519
  | getPublicKey {k : VaultKind} : KeyCall k
  | sign {k : VaultKind} (message nonce : Bytes) : KeyCall k

namespace KeyCall

def generates : ∀ {k : VaultKind}, KeyCall k → Bool
  | _, generateKey _ => true
  | _, generateKeyPrintMnemonic _ => true
  | _, _ => false

/-- `generate_key` of `Sr25519KeyVault`. -/
def asks : ∀ {k : VaultKind}, KeyCall k → Bool
  | .sr25519, generateKey _ => true
  | _, _ => false

end KeyCall

namespace GeneratedKeys

variable {V ι : Type} {Pair Public Signature : VaultKind → Type}

section Definitions

variable (L : VaultLib V)
  (sr25519 : Sr25519Lib (Pair .sr25519) (Public .sr25519) (Signature .sr25519))
  (iroh : IrohLib (Pair .iroh) (Public .iroh) (Signature .iroh))

inductive Answer (Public Signature : VaultKind → Type) (k : VaultKind) where
  | key (publicKey : Public k)
  | signature (signature : Signature k)

def getPublicKey : ∀ k, KeyVault → Action (Vaults V) KeyVaultError (Public k)
  | .sr25519, kv => Sr25519KeyVault.getPublicKey L sr25519 kv
  | .iroh, kv => IrohKeyVault.getPublicKey L iroh kv

def sign : ∀ k, KeyVault → Bytes → Bytes → Action (Vaults V) KeyVaultError (Signature k)
  | .sr25519, kv, message, nonce => Sr25519KeyVault.sign L sr25519 kv message nonce
  | .iroh, kv, message, nonce => IrohKeyVault.sign L iroh kv message nonce

def verify : ∀ k, Public k → Bytes → Signature k → Bool
  | .sr25519 => Sr25519KeyVault.verify sr25519
  | .iroh => IrohKeyVault.verify iroh

def perform (kv : KeyVault) : ∀ {k : VaultKind}, KeyCall k →
    Action (Vaults V) KeyVaultError (Answer Public Signature k)
  | .sr25519, .generateKey draw => do
    let key ← Sr25519KeyVault.generateKey L sr25519 kv draw
    pure (.key key)
  | .iroh, .generateKey draw => do
    let key ← IrohKeyVault.generateKey L iroh kv draw
    pure (.key key)
  | _, .generateKeyPrintMnemonic entropy => do
    let key ← Sr25519KeyVault.generateKeyPrintMnemonic L sr25519 kv entropy
    pure (.key key)
  | k, .getPublicKey => do
    let key ← getPublicKey L sr25519 iroh k kv
    pure (.key key)
  | k, .sign message nonce => do
    let signature ← sign L sr25519 iroh k kv message nonce
    pure (.signature signature)

variable (infos : ι → StoreInfo)

structure Call where
  index : ι
  call : KeyCall (infos index).kind

/-- The vaults, and the key of the latest generation on each of them. -/
structure Session (V : Type) (Public : VaultKind → Type) (infos : ι → StoreInfo) where
  vaults : Vaults V
  latest : ∀ i, Option (Public (infos i).kind)

def start (v : V) : Session V Public infos := ⟨⟨v, fun _ => false⟩, fun _ => none⟩

variable {infos} [DecidableEq ι]

def Session.step (s : Session V Public infos) (c : Call infos) : Session V Public infos :=
  match perform L sr25519 iroh (infos c.index).keyVault c.call s.vaults with
  | (.ok (.key key), vaults) =>
    ⟨vaults, if c.call.generates then Function.update s.latest c.index (some key) else s.latest⟩
  | (_, vaults) => { s with vaults := vaults }

def run (v : V) (calls : List (Call infos)) : Session V Public infos :=
  calls.foldl (Session.step L sr25519 iroh) (start infos v)

def publicKeyOf (s : Session V Public infos) (i : ι) :
    Outcome KeyVaultError (Public (infos i).kind) × Vaults V :=
  getPublicKey L sr25519 iroh (infos i).kind (infos i).keyVault s.vaults

/-- The keys that a run generates can be used in each of its states. -/
structure Usable (v : V) (calls : List (Call infos)) : Prop where
  generated : ∀ pre c, pre ++ [c] <+: calls → c.call.generates = true →
    ∃ key, (perform L sr25519 iroh (infos c.index).keyVault c.call
      (run L sr25519 iroh v pre).vaults).1 = .ok (.key key)
  latest : ∀ pre, pre <+: calls → ∀ i key, (run L sr25519 iroh v pre).latest i = some key →
    (publicKeyOf L sr25519 iroh (run L sr25519 iroh v pre) i).1 = .ok key
  verified : ∀ pre, pre <+: calls → ∀ i key,
    (publicKeyOf L sr25519 iroh (run L sr25519 iroh v pre) i).1 = .ok key → ∀ message nonce,
      ∃ signature, (sign L sr25519 iroh (infos i).kind (infos i).keyVault message nonce
        (publicKeyOf L sr25519 iroh (run L sr25519 iroh v pre) i).2).1 = .ok signature ∧
        verify sr25519 iroh (infos i).kind key message signature = true
  separate : ∀ pre c, pre ++ [c] <+: calls → ∀ i, i ≠ c.index →
    (publicKeyOf L sr25519 iroh (run L sr25519 iroh v (pre ++ [c])) i).1 =
      (publicKeyOf L sr25519 iroh (run L sr25519 iroh v pre) i).1

end Definitions

section Kinds

variable {L : VaultLib V}
  {sr25519 : Sr25519Lib (Pair .sr25519) (Public .sr25519) (Signature .sr25519)}
  {iroh : IrohLib (Pair .iroh) (Public .iroh) (Signature .iroh)}

variable (sr25519 iroh) in
def kindOf : ∀ k, KeyKind (Pair k) (Public k) (Signature k)
  | .sr25519 => Sr25519KeyVault.kind sr25519
  | .iroh => IrohKeyVault.kind iroh

theorem kindOf_correct (hsr25519 : sr25519.Correct) (hiroh : iroh.Correct) (k : VaultKind) :
    (kindOf sr25519 iroh k).Correct := by
  cases k with
  | sr25519 => exact Sr25519KeyVault.kind_correct hsr25519
  | iroh => exact IrohKeyVault.kind_correct hiroh

variable {k : VaultKind} {kv : KeyVault}

theorem getPublicKey_eq :
    getPublicKey L sr25519 iroh k kv = kv.getPublicKey L (kindOf sr25519 iroh k) := by
  cases k <;> rfl

theorem sign_eq (message nonce : Bytes) :
    sign L sr25519 iroh k kv message nonce =
      kv.sign L (kindOf sr25519 iroh k) message nonce := by
  cases k <;> rfl

theorem verify_eq : verify sr25519 iroh k = (kindOf sr25519 iroh k).verify := by
  cases k <;> rfl

variable (L sr25519 iroh kv) in
theorem perform_generates {call : KeyCall k} (hgen : call.generates = true)
    (hasks : call.asks = false) : ∃ locked draw, (∀ u, locked ≠ .ok u) ∧
      perform L sr25519 iroh kv call =
        (kv.generate L (kindOf sr25519 iroh k) kv.passwords locked draw >>= fun key =>
          Action.lift (.ok (.key key))) := by
  cases call with
  | generateKey draw =>
    cases k with
    | sr25519 => cases hasks
    | iroh => exact ⟨.panic, draw, nofun, rfl⟩
  | generateKeyPrintMnemonic entropy =>
    exact ⟨Sr25519KeyVault.failedToLock, entropy, nofun, rfl⟩
  | getPublicKey => cases hgen
  | sign message nonce => cases hgen

variable (L sr25519 iroh kv) in
theorem perform_asks {call : KeyCall k} (hasks : call.asks = true) :
    ∃ locked draw, perform L sr25519 iroh kv call =
      (kv.generate L (kindOf sr25519 iroh k) KeyVault.askedPasswords locked draw >>= fun key =>
        Action.lift (.ok (.key key))) := by
  cases call with
  | generateKey draw =>
    cases k with
    | sr25519 => exact ⟨_, draw, rfl⟩
    | iroh => cases hasks
  | generateKeyPrintMnemonic entropy => cases hasks
  | getPublicKey => cases k <;> cases hasks
  | sign message nonce => cases k <;> cases hasks

theorem perform_reads {call : KeyCall k} (hgen : call.generates = false) (s : Vaults V) :
    (perform L sr25519 iroh kv call s).2 = (kv.openKey L (kindOf sr25519 iroh k) s).2 := by
  have hkey : (kv.getPublicKey L (kindOf sr25519 iroh k) s).2 =
      (kv.openKey L (kindOf sr25519 iroh k) s).2 := Action.bind_snd fun _ _ => rfl
  have hsign (message nonce : Bytes) : (kv.sign L (kindOf sr25519 iroh k) message nonce s).2 =
      (kv.openKey L (kindOf sr25519 iroh k) s).2 := Action.bind_snd fun _ _ => rfl
  cases call with
  | generateKey draw => cases hgen
  | generateKeyPrintMnemonic entropy => cases hgen
  | getPublicKey =>
    rw [← hkey, ← getPublicKey_eq]
    cases k <;> exact Action.bind_snd fun _ _ => rfl
  | sign message nonce =>
    rw [← hsign message nonce, ← sign_eq]
    cases k <;> exact Action.bind_snd fun _ _ => rfl

section Performed

variable {call : KeyCall k} {view : V → VaultMap} {vaultPassword filePassword : Str}
  {s : Vaults V}

/-- A generation on a free lock returns a key and stores it. -/
theorem perform_of_free (hL : L.Implements view) (hkind : (kindOf sr25519 iroh k).Correct)
    (hpass : kv.passwords = .ok (vaultPassword, filePassword))
    (hvault : vaultPassword = (view s.vault).password)
    (hgen : call.generates = true) (hasks : call.asks = false)
    (hfree : s.poisoned kv.keyName = false) :
    ∃ pair bytes vaults, (kindOf sr25519 iroh k).ofBytes bytes = .ok pair ∧
      perform L sr25519 iroh kv call s =
        (.ok (.key ((kindOf sr25519 iroh k).publicKey pair)), vaults) ∧
      view vaults.vault = ((view s.vault).write kv.keyName bytes vaultPassword filePassword).2 ∧
      vaults.poisoned = s.poisoned := by
  obtain ⟨locked, draw, -, hperform⟩ := perform_generates L sr25519 iroh kv hgen hasks
  obtain ⟨pair, bytes, hfresh, hbytes⟩ := hkind.fresh draw
  obtain ⟨hfst, hview, hpoisoned⟩ :=
    KeyVault.generate_of_free locked hL hfresh hpass hvault hfree
  refine ⟨pair, bytes, _, hbytes, ?_, hview, hpoisoned⟩
  rw [hperform]
  exact Action.bind_of_ok (Prod.ext hfst rfl)

/-- One that asks for passwords, or finds a poisoned lock, does nothing. -/
theorem perform_fails (hkind : (kindOf sr25519 iroh k).Correct)
    (hpass : kv.passwords = .ok (vaultPassword, filePassword)) (hgen : call.generates = true)
    (h : call.asks = true ∨ s.poisoned kv.keyName = true) :
    (∀ answer, (perform L sr25519 iroh kv call s).1 ≠ .ok answer) ∧
      (perform L sr25519 iroh kv call s).2 = s := by
  cases hasks : call.asks with
  | true =>
    obtain ⟨locked, draw, hperform⟩ := perform_asks L sr25519 iroh kv hasks
    obtain ⟨pair, bytes, hfresh, -⟩ := hkind.fresh draw
    rw [hperform, Action.bind_of_panic (KeyVault.generate_of_asked L kv s hfresh)]
    exact ⟨nofun, rfl⟩
  | false =>
    have hpoisoned : s.poisoned kv.keyName = true := by simpa [hasks] using h
    obtain ⟨locked, draw, hlocked, hperform⟩ := perform_generates L sr25519 iroh kv hgen hasks
    obtain ⟨pair, bytes, hfresh, -⟩ := hkind.fresh draw
    obtain ⟨hfst, hsnd⟩ := KeyVault.generate_of_poisoned L hfresh hpass hlocked hpoisoned
    rw [hperform]
    refine ⟨fun answer => ?_, ?_⟩
    · rw [Action.bind_fst, ne_eq, Outcome.bind_eq_ok]
      intro hok
      obtain ⟨key, hkey, -⟩ := hok
      exact hfst key hkey
    · exact (Action.bind_snd fun _ _ => rfl).trans hsnd

end Performed

end Kinds

section Steps

variable {L : VaultLib V}
  {sr25519 : Sr25519Lib (Pair .sr25519) (Public .sr25519) (Signature .sr25519)}
  {iroh : IrohLib (Pair .iroh) (Public .iroh) (Signature .iroh)}
  {view : V → VaultMap} {infos : ι → StoreInfo}

variable (view infos) in
/-- The entry of a key vault, when its lock can be taken. -/
def visibleOf (s : Vaults V) (i : ι) : Option Bytes :=
  (infos i).keyVault.visible view s (infos i).vaultPassword (infos i).keyPassword

variable (view) in
/-- The map holds something under the name and the passwords of a key vault. -/
def Opens (info : StoreInfo) (v : V) : Prop :=
  ((view v).read info.keyName info.vaultPassword info.keyPassword).isSome

theorem visibleOf_eq_none {s : Vaults V} {i : ι} : visibleOf view infos s i = none ↔
    s.poisoned (infos i).keyName = true ∨ ¬ Opens view (infos i) s.vault := by
  by_cases hp : s.poisoned (infos i).keyVault.keyName = true
  · simp [visibleOf, KeyVault.visible, StoreInfo.keyName, hp]
  · simp [visibleOf, KeyVault.visible, StoreInfo.keyName, Opens, hp]

theorem publicKeyOf_eq_ok (hL : L.Implements view) {s : Session V Public infos} {i : ι}
    {key : Public (infos i).kind} : (publicKeyOf L sr25519 iroh s i).1 = .ok key ↔
      ∃ bytes pair, visibleOf view infos s.vaults i = some bytes ∧
        (kindOf sr25519 iroh _).ofBytes bytes = .ok pair ∧
        (kindOf sr25519 iroh _).publicKey pair = key := by
  rw [publicKeyOf, getPublicKey_eq]
  exact KeyVault.getPublicKey_eq_ok hL (infos i).passwords_keyVault

theorem publicKeyOf_congr (hL : L.Implements view) {s s' : Session V Public infos} {i : ι}
    (h : visibleOf view infos s'.vaults i = visibleOf view infos s.vaults i) :
    (publicKeyOf L sr25519 iroh s' i).1 = (publicKeyOf L sr25519 iroh s i).1 := by
  have hpass := (infos i).passwords_keyVault
  rw [publicKeyOf, publicKeyOf, getPublicKey_eq, KeyVault.getPublicKey_fst hL hpass,
    KeyVault.getPublicKey_fst hL hpass]
  simp only [visibleOf] at h
  rw [h]

variable [DecidableEq ι] {s : Session V Public infos} {c : Call infos}

theorem step_of_key {key : Public (infos c.index).kind} {vaults : Vaults V}
    (h : perform L sr25519 iroh (infos c.index).keyVault c.call s.vaults = (.ok (.key key), vaults))
    (hgen : c.call.generates = true) :
    s.step L sr25519 iroh c = ⟨vaults, Function.update s.latest c.index (some key)⟩ := by
  simp only [Session.step, h, hgen, if_true]

theorem step_of_no_key (h : c.call.generates = true → ∀ answer,
      (perform L sr25519 iroh (infos c.index).keyVault c.call s.vaults).1 ≠ .ok answer) :
    s.step L sr25519 iroh c =
      ⟨(perform L sr25519 iroh (infos c.index).keyVault c.call s.vaults).2, s.latest⟩ := by
  unfold Session.step
  rcases hp : perform L sr25519 iroh (infos c.index).keyVault c.call s.vaults with ⟨o, vaults⟩
  rw [hp] at h
  cases o with
  | ok answer =>
    have hreads : c.call.generates = false := by
      by_contra hgen
      exact h (by simpa using hgen) answer rfl
    cases answer with
    | key key => simp [hreads]
    | signature signature => rfl
  | err e => rfl
  | panic => rfl

/-- A generation stores its key under its name, or does nothing and fails; a
read leaves the map alone, and poisons its lock when there is nothing to see. -/
theorem step_cases (hL : L.Implements view) (hsr25519 : sr25519.Correct) (hiroh : iroh.Correct)
    (hpass : (infos c.index).vaultPassword = (view s.vaults.vault).password) :
    (c.call.generates = true ∧ (c.call.asks = false ∧
        s.vaults.poisoned (infos c.index).keyName = false) ∧
      ∃ pair bytes vaults, (kindOf sr25519 iroh _).ofBytes bytes = .ok pair ∧
        (perform L sr25519 iroh (infos c.index).keyVault c.call s.vaults).1 =
          .ok (.key ((kindOf sr25519 iroh _).publicKey pair)) ∧
        s.step L sr25519 iroh c = ⟨vaults, Function.update s.latest c.index
          (some ((kindOf sr25519 iroh _).publicKey pair))⟩ ∧
        view vaults.vault = ((view s.vaults.vault).write (infos c.index).keyName bytes
          (infos c.index).vaultPassword (infos c.index).keyPassword).2 ∧
        vaults.poisoned = s.vaults.poisoned) ∨
    (c.call.generates = true ∧ (c.call.asks = true ∨
        s.vaults.poisoned (infos c.index).keyName = true) ∧
      (∀ answer, (perform L sr25519 iroh (infos c.index).keyVault c.call s.vaults).1 ≠
        .ok answer) ∧
      s.step L sr25519 iroh c = s) ∨
    (c.call.generates = false ∧ ∃ vaults, s.step L sr25519 iroh c = ⟨vaults, s.latest⟩ ∧
      view vaults.vault = view s.vaults.vault ∧
      vaults.poisoned = if (visibleOf view infos s.vaults c.index).isSome then s.vaults.poisoned
        else Function.update s.vaults.poisoned (infos c.index).keyName true) := by
  have hkv := (infos c.index).passwords_keyVault
  have hkind := kindOf_correct hsr25519 hiroh (infos c.index).kind
  cases hgen : c.call.generates with
  | true =>
    by_cases hfree : c.call.asks = false ∧ s.vaults.poisoned (infos c.index).keyName = false
    · obtain ⟨pair, bytes, vaults, hbytes, hperform, hview, hpoisoned⟩ :=
        perform_of_free hL hkind hkv hpass hgen hfree.1 hfree.2
      exact Or.inl ⟨rfl, hfree, pair, bytes, vaults, hbytes, congrArg Prod.fst hperform,
        step_of_key hperform hgen, hview, hpoisoned⟩
    · have hblocked : c.call.asks = true ∨ s.vaults.poisoned (infos c.index).keyName = true := by
        by_contra hno
        simp only [not_or, Bool.not_eq_true] at hno
        exact hfree hno
      obtain ⟨hfails, hsame⟩ := perform_fails (L := L) hkind hkv hgen hblocked
      refine Or.inr (Or.inl ⟨rfl, hblocked, hfails, ?_⟩)
      rw [step_of_no_key fun _ => hfails, hsame]
  | false =>
    obtain ⟨-, hview, hpoisoned⟩ := KeyVault.openKey_cases (kindOf sr25519 iroh _) s.vaults hL hkv
    refine Or.inr (Or.inr ⟨rfl, _, step_of_no_key fun h => ?_, ?_, ?_⟩)
    · rw [hgen] at h
      cases h
    · rw [perform_reads hgen, hview]
    · rw [perform_reads hgen, hpoisoned]
      rfl

section Preserved

variable (hL : L.Implements view) (hsr25519 : sr25519.Correct) (hiroh : iroh.Correct)
  (hnames : Function.Injective fun i => (infos i).keyName)
  (hpass : ∀ i, (infos i).vaultPassword = (view s.vaults.vault).password)
include hL hsr25519 hiroh hpass

variable (c) in
theorem step_password : (view (s.step L sr25519 iroh c).vaults.vault).password =
    (view s.vaults.vault).password := by
  rcases step_cases hL hsr25519 hiroh (hpass c.index) with
    ⟨-, -, pair, bytes, vaults, -, -, hstep, hview, -⟩ | ⟨-, -, -, hstep⟩ |
      ⟨-, vaults, hstep, hview, -⟩
  · rw [hstep, hview, VaultMap.write_password]
  · rw [hstep]
  · rw [hstep, hview]

include hnames

theorem step_visible_of_ne {i : ι} (hne : i ≠ c.index) :
    visibleOf view infos (s.step L sr25519 iroh c).vaults i = visibleOf view infos s.vaults i := by
  have hname : (infos i).keyName ≠ (infos c.index).keyName := hnames.ne hne
  have hpassword := step_password c hL hsr25519 hiroh hpass
  rcases step_cases hL hsr25519 hiroh (hpass c.index) with
    ⟨-, -, pair, bytes, vaults, -, -, hstep, hview, hpoisoned⟩ | ⟨-, -, -, hstep⟩ |
      ⟨-, vaults, hstep, hview, hpoisoned⟩
  · rw [hstep] at hpassword ⊢
    refine KeyVault.visible_congr ?_ hpassword ?_
    · exact congrFun hpoisoned _
    · rw [hview]
      exact VaultMap.write_entries_of_ne hname
  · rw [hstep]
  · rw [hstep]
    refine KeyVault.visible_congr ?_ (by rw [hview]) (by rw [hview])
    rw [hpoisoned]
    split_ifs
    · rfl
    · exact Function.update_of_ne hname ..

theorem step_latest (h : ∀ i key, s.latest i = some key →
      (publicKeyOf L sr25519 iroh s i).1 = .ok key) {i : ι} {key : Public (infos i).kind}
    (hkey : (s.step L sr25519 iroh c).latest i = some key) :
    (publicKeyOf L sr25519 iroh (s.step L sr25519 iroh c) i).1 = .ok key := by
  have hvault := hpass c.index
  rcases step_cases hL hsr25519 hiroh hvault with
    ⟨-, hfree, pair, bytes, vaults, hbytes, -, hstep, hview, hpoisoned⟩ | ⟨-, -, -, hstep⟩ |
      ⟨-, vaults, hstep, hview, hpoisoned⟩
  · by_cases hi : i = c.index
    · subst hi
      rw [hstep] at hkey ⊢
      simp only [Function.update_self, Option.some.injEq] at hkey
      refine (publicKeyOf_eq_ok hL).mpr ⟨bytes, pair, ?_, hbytes, hkey⟩
      have hlock : vaults.poisoned (infos c.index).keyVault.keyName = false := by
        rw [hpoisoned]
        exact hfree.2
      simp only [visibleOf, KeyVault.visible, hlock, Bool.false_eq_true, if_false, hview]
      exact VaultMap.read_write_self hvault
    · have hsame := step_visible_of_ne hL hsr25519 hiroh hnames hpass hi
      rw [publicKeyOf_congr hL hsame]
      rw [hstep] at hkey
      simp only [Function.update_of_ne hi] at hkey
      exact h i key hkey
  · rw [hstep] at hkey ⊢
    exact h i key hkey
  · rw [hstep] at hkey
    have hold := h i key hkey
    have hsame : visibleOf view infos (s.step L sr25519 iroh c).vaults i =
        visibleOf view infos s.vaults i := by
      by_cases hi : i = c.index
      · subst hi
        obtain ⟨bytes, -, hvisible, -⟩ := (publicKeyOf_eq_ok hL).mp hold
        rw [hvisible, Option.isSome_some, if_pos rfl] at hpoisoned
        rw [hstep]
        exact KeyVault.visible_congr (congrFun hpoisoned _) (by rw [hview]) (by rw [hview])
      · exact step_visible_of_ne hL hsr25519 hiroh hnames hpass hi
    rw [publicKeyOf_congr hL hsame]
    exact hold

theorem step_poisoned {i : ι} :
    (s.step L sr25519 iroh c).vaults.poisoned (infos i).keyName = true ↔
      s.vaults.poisoned (infos i).keyName = true ∨
        (c.index = i ∧ c.call.generates = false ∧
          visibleOf view infos s.vaults c.index = none) := by
  rcases step_cases hL hsr25519 hiroh (hpass c.index) with
    ⟨hgen, -, pair, bytes, vaults, -, -, hstep, -, hpoisoned⟩ | ⟨hgen, -, -, hstep⟩ |
      ⟨hgen, vaults, hstep, -, hpoisoned⟩
  · simp [hstep, hpoisoned, hgen]
  · simp [hstep, hgen]
  · rw [hstep, hpoisoned]
    cases hvisible : visibleOf view infos s.vaults c.index with
    | some bytes => simp
    | none =>
      by_cases hi : c.index = i
      · subst hi
        simp [hgen]
      · have hname : (infos i).keyName ≠ (infos c.index).keyName := hnames.ne (Ne.symm hi)
        simp [hi, Function.update_of_ne hname]

end Preserved

end Steps

section Runs

variable {L : VaultLib V}
  {sr25519 : Sr25519Lib (Pair .sr25519) (Public .sr25519) (Signature .sr25519)}
  {iroh : IrohLib (Pair .iroh) (Public .iroh) (Signature .iroh)}
  {view : V → VaultMap} {infos : ι → StoreInfo} [DecidableEq ι] {v : V}
  {calls pre : List (Call infos)}

theorem run_concat (c : Call infos) :
    (run L sr25519 iroh v (calls ++ [c]) : Session V Public infos) =
      (run L sr25519 iroh v calls).step L sr25519 iroh c :=
  List.foldl_concat ..

variable (hL : L.Implements view) (hsr25519 : sr25519.Correct) (hiroh : iroh.Correct)
  (hnames : Function.Injective fun i => (infos i).keyName)
  (hpass : ∀ i, (infos i).vaultPassword = (view v).password)
include hL hsr25519 hiroh hpass

variable (calls) in
theorem run_password : ∀ i, (infos i).vaultPassword =
    (view (run L sr25519 iroh v calls : Session V Public infos).vaults.vault).password := by
  induction calls using List.reverseRecOn with
  | nil => exact hpass
  | append_singleton calls c ih =>
    intro i
    rw [run_concat, step_password c hL hsr25519 hiroh ih]
    exact ih i

include hnames

variable (calls) in
theorem run_latest : ∀ i key, (run L sr25519 iroh v calls).latest i = some key →
    (publicKeyOf L sr25519 iroh (run L sr25519 iroh v calls) i).1 = .ok key := by
  induction calls using List.reverseRecOn with
  | nil =>
    intro i key hkey
    cases hkey
  | append_singleton calls c ih =>
    intro i key hkey
    have hrun := run_password calls hL hsr25519 hiroh hpass
    rw [run_concat] at hkey ⊢
    exact step_latest hL hsr25519 hiroh hnames hrun ih hkey

/-- A lock is poisoned by a read that finds nothing to open. -/
theorem run_poisoned {i : ι} :
    (run L sr25519 iroh v calls : Session V Public infos).vaults.poisoned (infos i).keyName =
        true ↔
      ∃ pre c, pre ++ [c] <+: calls ∧ c.index = i ∧ c.call.generates = false ∧
        ¬ Opens view (infos i)
          (run L sr25519 iroh v pre : Session V Public infos).vaults.vault := by
  induction calls using List.reverseRecOn with
  | nil =>
    constructor
    · intro h
      cases h
    · intro h
      obtain ⟨pre, c, hpre, -⟩ := h
      simp at hpre
  | append_singleton calls c ih =>
    have hrun := run_password calls hL hsr25519 hiroh hpass
    rw [run_concat, step_poisoned hL hsr25519 hiroh hnames hrun, ih]
    constructor
    · intro h
      rcases h with ⟨pre, c', hpre, hc'⟩ | ⟨rfl, hgen, hnone⟩
      · exact ⟨pre, c', hpre.trans (List.prefix_append ..), hc'⟩
      · rw [visibleOf_eq_none, ih] at hnone
        rcases hnone with ⟨pre, c', hpre, hc'⟩ | hclosed
        · exact ⟨pre, c', hpre.trans (List.prefix_append ..), hc'⟩
        · exact ⟨calls, c, List.prefix_rfl, rfl, hgen, hclosed⟩
    · intro h
      obtain ⟨pre, c', hpre, hindex, hgen, hclosed⟩ := h
      rw [List.prefix_concat_iff] at hpre
      rcases hpre with heq | hpre
      · obtain ⟨rfl, hc⟩ := List.append_inj' heq rfl
        obtain rfl := List.singleton_injective hc
        subst hindex
        refine Or.inr ⟨rfl, hgen, ?_⟩
        rw [visibleOf_eq_none]
        exact Or.inr hclosed
      · exact Or.inl ⟨pre, c', hpre, hindex, hgen, hclosed⟩

end Runs

variable (L : VaultLib V)
  (sr25519 : Sr25519Lib (Pair .sr25519) (Public .sr25519) (Signature .sr25519))
  (iroh : IrohLib (Pair .iroh) (Public .iroh) (Signature .iroh)) {view : V → VaultMap}
  {infos : ι → StoreInfo} [DecidableEq ι]

/-- `generate_key` of `Sr25519KeyVault` asks for the passwords it has, and a
read that finds nothing poisons its lock. So the keys of a run can be used
exactly when no generation is the first or follows the second. -/
theorem usable_iff (hL : L.Implements view) (hsr25519 : sr25519.Correct) (hiroh : iroh.Correct)
    (hnames : Function.Injective fun i => (infos i).keyName) (v : V)
    (hpass : ∀ i, (infos i).vaultPassword = (view v).password) (calls : List (Call infos)) :
    Usable L sr25519 iroh v calls ↔
      ∀ pre c, pre ++ [c] <+: calls → c.call.generates = true → c.call.asks = false ∧
        ∀ before r, before ++ [r] <+: pre → r.index = c.index → r.call.generates = false →
          Opens view (infos c.index)
            (run L sr25519 iroh v before : Session V Public infos).vaults.vault := by
  constructor
  · intro h pre c hpre hgen
    obtain ⟨key, hkey⟩ := h.generated pre c hpre hgen
    have hrun := run_password pre hL hsr25519 hiroh hpass
    rcases step_cases hL hsr25519 hiroh (hrun c.index) with
      ⟨-, ⟨hasks, hfree⟩, -⟩ | ⟨-, -, hfails, -⟩ | ⟨hreads, -⟩
    · refine ⟨hasks, fun before r hbefore hindex hr => ?_⟩
      by_contra hclosed
      have hpoisoned := (run_poisoned hL hsr25519 hiroh hnames hpass).mpr
        ⟨before, r, hbefore, hindex, hr, hclosed⟩
      rw [hfree] at hpoisoned
      cases hpoisoned
    · exact absurd hkey (hfails _)
    · rw [hgen] at hreads
      cases hreads
  · intro h
    refine ⟨fun pre c hpre hgen => ?_, fun pre _ => ?_, fun pre _ i key hkey message nonce => ?_,
      fun pre c _ i hne => ?_⟩
    · obtain ⟨hasks, hreads⟩ := h pre c hpre hgen
      have hrun := run_password pre hL hsr25519 hiroh hpass
      rcases step_cases hL hsr25519 hiroh (hrun c.index) with
        ⟨-, -, pair, -, -, -, hkey, -⟩ | ⟨-, hblocked, -⟩ | ⟨hno, -⟩
      · exact ⟨_, hkey⟩
      · rcases hblocked with hyes | hpoisoned
        · rw [hasks] at hyes
          cases hyes
        · obtain ⟨before, r, hbefore, hindex, hr, hclosed⟩ :=
            (run_poisoned hL hsr25519 hiroh hnames hpass).mp hpoisoned
          exact absurd (hreads before r hbefore hindex hr) hclosed
      · rw [hgen] at hno
        cases hno
    · exact run_latest pre hL hsr25519 hiroh hnames hpass
    · rw [publicKeyOf, getPublicKey_eq] at hkey ⊢
      rw [sign_eq, verify_eq]
      exact KeyVault.sign_verified hL (kindOf_correct hsr25519 hiroh _)
        (infos i).passwords_keyVault hkey message nonce
    · have hrun := run_password pre hL hsr25519 hiroh hpass
      rw [run_concat]
      exact publicKeyOf_congr hL (step_visible_of_ne hL hsr25519 hiroh hnames hrun hne)

section Keygen

/-- The phrase, the seed and the public key of the entropy zero. -/
def zeroPhrase : Str := (List.replicate 23 "abandon ".toList).flatten ++ "art".toList

def zeroSeed : Arr 32 :=
  beArr 32 0x4ed8d4b17698ddeaa1f1559f152f87b5d472f725ca86d341bd0276f1b61197e2

def zeroPublic : Arr 32 :=
  beArr 32 0x66933bd1f37070ef87bd1198af3dacceb095237f803f3d32b173e6b425ed7972

abbrev SampleKey (_ : VaultKind) : Type := Arr 32

abbrev SampleSignature (_ : VaultKind) : Type := Arr 32 × Bytes

def sampleSr25519 :
    Sr25519Lib (SampleKey .sr25519) (SampleKey .sr25519) (SampleSignature .sr25519) where
  mnemonic entropy := if entropy = beArr 32 0 then zeroPhrase else entropy.1.map Char.ofUInt8
  fromPhrase phrase :=
    let seed := if phrase = zeroPhrase then zeroSeed else beArr 32 0
    some (seed, seed)
  fromSeedSlice := Arr.ofBytes? 32
  publicKey seed := if seed = zeroSeed then zeroPublic else seed
  sign seed message _ := (if seed = zeroSeed then zeroPublic else seed, message)
  verify signature message publicKey := decide (signature = (publicKey, message))

theorem sampleSr25519_correct : sampleSr25519.Correct where
  fromPhrase _ := ⟨_, _, rfl⟩
  fromSeedSlice phrase pair seed h := by
    obtain ⟨rfl, rfl⟩ := Prod.mk.inj (Option.some.inj h)
    exact Arr.ofBytes?_eq_some.mpr rfl
  verify _ _ _ := decide_eq_true rfl

/-- The ed25519 key of the seed zero. -/
def zeroIroh : Arr 32 :=
  beArr 32 0x3b6a27bcceb6a42d62a3a8d02a6f0d73653215771de243a63ac048a18b59da29

def sampleIroh : IrohLib (SampleKey .iroh) (SampleKey .iroh) (SampleSignature .iroh) where
  generate := id
  toBytes := id
  fromBytes := id
  publicKey key := if key = beArr 32 0 then zeroIroh else key
  sign key message := (if key = beArr 32 0 then zeroIroh else key, message)
  verify publicKey message signature := decide (signature = (publicKey, message))

theorem sampleIroh_correct : sampleIroh.Correct where
  fromBytes _ := rfl
  verify _ _ := decide_eq_true rfl

/-- A Polkadot key and a Fangorn key in one vault. -/
def sampleInfos : Bool → StoreInfo
  | false => .sr25519 "vault".toList "alice".toList "key".toList
  | true => .iroh "vault".toList "key".toList 0

def emptyVault : VaultMap := ⟨"vault".toList, fun _ => none⟩

theorem sampleInfos_keyName : Function.Injective fun i => (sampleInfos i).keyName := by
  intro i j h
  cases i <;> cases j
  all_goals first | rfl | (revert h; decide)

theorem sampleInfos_vaultPassword (i : Bool) :
    (sampleInfos i).vaultPassword = (id emptyVault).password := by
  cases i <;> rfl

/-- `keygen` without `--print-mnemonic`. -/
def keygen : Call sampleInfos := ⟨false, .generateKey (beArr 32 0)⟩

/-- The passwords are stored, and yet the call panics. -/
theorem keygen_panics :
    (perform VaultMap.lib sampleSr25519 sampleIroh (sampleInfos false).keyVault keygen.call
      ⟨emptyVault, fun _ => false⟩).1 = .panic ∧
    Function.Injective (fun i => (sampleInfos i).keyName) ∧
    (∀ i, (sampleInfos i).vaultPassword = (id emptyVault).password) ∧
    ¬ Usable VaultMap.lib sampleSr25519 sampleIroh emptyVault [keygen] := by
  have hpanic : (perform VaultMap.lib sampleSr25519 sampleIroh (sampleInfos false).keyVault
      keygen.call ⟨emptyVault, fun _ => false⟩).1 = .panic := rfl
  refine ⟨hpanic, sampleInfos_keyName, sampleInfos_vaultPassword, fun h => ?_⟩
  obtain ⟨key, hkey⟩ := h.generated [] keygen List.prefix_rfl rfl
  change (perform VaultMap.lib sampleSr25519 sampleIroh (sampleInfos false).keyVault
    keygen.call ⟨emptyVault, fun _ => false⟩).1 = _ at hkey
  rw [hpanic] at hkey
  cases hkey

/-- `keygen --print-mnemonic`, and a key for Fangorn. -/
def keygenBoth : List (Call sampleInfos) :=
  [⟨false, .generateKeyPrintMnemonic (beArr 32 0)⟩, ⟨true, .generateKey (beArr 32 0)⟩]

theorem usable_iff_keygenBoth :
    Usable VaultMap.lib sampleSr25519 sampleIroh emptyVault keygenBoth ↔
      ∀ pre c, pre ++ [c] <+: keygenBoth → c.call.generates = true → c.call.asks = false ∧
        ∀ before r, before ++ [r] <+: pre → r.index = c.index → r.call.generates = false →
          Opens id (sampleInfos c.index) (run VaultMap.lib sampleSr25519 sampleIroh emptyVault
            before : Session VaultMap SampleKey sampleInfos).vaults.vault :=
  usable_iff VaultMap.lib sampleSr25519 sampleIroh VaultMap.lib_implements sampleSr25519_correct
    sampleIroh_correct sampleInfos_keyName emptyVault sampleInfos_vaultPassword keygenBoth

end Keygen

end GeneratedKeys

end Fangorn
