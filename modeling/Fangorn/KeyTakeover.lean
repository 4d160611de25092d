import Fangorn.SharedKeystores

/-! What a node goes on to answer after its start, when others start on its
keystore: until it is started again, it answers with the key that the vault
holds for its index by then, unless its password has stopped to open it. -/

namespace Fangorn

open Rust Scale

namespace SharedKeystores

section Definitions

variable {Dir NodeId Crs SecretKey PublicKey Ciphertext Share : Type} [DecidableEq Dir]
  [DecidableEq NodeId] (ste : SteLib Crs SecretKey PublicKey Ciphertext Share)
  (resolve : Str → Dir)

/-- The password and the key that a start leaves for an index, in a directory
whose vault has this password. -/
def startAt (dir : Dir) (index : Nat) (vaultPassword : Str) :
    Call NodeId Crs Ciphertext → Option (Str × SecretKey)
  | .build _ config i _ steDraw _ =>
    if resolve config.vaultDir = dir ∧ i = index ∧ config.vaultPswd = some vaultPassword ∧
        config.irohKeyPswd.isSome then
      config.steKeyPswd.map fun stePassword => (stePassword, ste.new steDraw index)
    else none
  | _ => none

def held (dir : Dir) (index : Nat) (vaultPassword : Str) (first : Str × SecretKey)
    (calls : List (Call NodeId Crs Ciphertext)) : Str × SecretKey :=
  (calls.filterMap (startAt ste resolve dir index vaultPassword)).getLast?.getD first

def usesKey {IrohSecret IrohPublic : Type} (node : NodeId) :
    Call NodeId Crs Ciphertext →
      Option (SecretKey → Reply IrohSecret IrohPublic PublicKey Share)
  | .getPk n (some crs) => if n = node then some fun sk => .pk (some (ste.getPk sk crs)) else none
  | .partialDecryption n ciphertext =>
    if n = node then some fun sk => .share (ste.partialDecryption sk ciphertext) else none
  | _ => none

def opensKey (node : NodeId) : Call NodeId Crs Ciphertext → Bool
  | .getPk n (some _) => n = node
  | .partialDecryption n _ => n = node
  | _ => false

def startsNode (node : NodeId) : Call NodeId Crs Ciphertext → Bool
  | .build n _ _ _ _ _ => n = node
  | _ => false

/-- Whenever the node opened its key, it was under the password of its start. -/
def Welcome (node : NodeId) (dir : Dir) (index : Nat) (vaultPassword : Str)
    (first : Str × SecretKey) (calls : List (Call NodeId Crs Ciphertext)) : Prop :=
  ∀ pre call, pre ++ [call] <+: calls → opensKey node call = true →
    (held ste resolve dir index vaultPassword first pre).1 = first.1

def deed (l : Ledger Dir NodeId SecretKey) :
    Call NodeId Crs Ciphertext → List (Custody.Event NodeId (Dir × Nat) Str SecretKey)
  | .build node config index _ steDraw rest =>
    match Node.admitted resolve (openedPasswords (resolve (Node.vaultOf config).1)
        (Node.vaultOf config).2 l.passwords) config with
    | some (_, _, stePassword) =>
      .deposit node (resolve config.vaultDir, index) stePassword (ste.new steDraw index) ::
        if rest then [] else [.leave node]
    | none => [.leave node]
  | .getPk node (some _) => [.call node]
  | .getPk _ none => []
  | .partialDecryption node _ => [.call node]

end Definitions

section Deeds

variable {Dir NodeId Crs SecretKey PublicKey Ciphertext Share IrohSecret IrohPublic
  IrohSignature : Type} [DecidableEq Dir] [DecidableEq NodeId]
  {ste : SteLib Crs SecretKey PublicKey Ciphertext Share}
  {iroh : IrohLib IrohSecret IrohPublic IrohSignature} {resolve : Str → Dir}
  {l : Ledger Dir NodeId SecretKey} {dir : Dir} {index : Nat} {vaultPassword : Str}
  {first : Str × SecretKey} {node : NodeId} {call : Call NodeId Crs Ciphertext}
  {calls : List (Call NodeId Crs Ciphertext)}

theorem custody_exec : (l.exec ste iroh resolve call).2.custody =
    Custody.run l.custody (deed ste resolve l call) := by
  cases call with
  | build node config index irohDraw steDraw rest =>
    simp only [Ledger.exec, deed]
    rcases Node.admitted resolve (openedPasswords (resolve (Node.vaultOf config).1)
      (Node.vaultOf config).2 l.passwords) config with - | ⟨_, _, stePassword⟩
    · rfl
    · cases rest <;> rfl
  | getPk node config => cases config <;> rfl
  | partialDecryption node ciphertext => rfl

theorem passwords_exec (h : l.passwords dir = some vaultPassword) :
    (l.exec ste iroh resolve call).2.passwords dir = some vaultPassword := by
  cases call with
  | build node config index irohDraw steDraw rest =>
    simp only [Ledger.exec]
    rcases Node.admitted resolve (openedPasswords (resolve (Node.vaultOf config).1)
      (Node.vaultOf config).2 l.passwords) config with - | ⟨_, _, stePassword⟩
    · exact openedPasswords_of_some h
    · cases rest <;> exact openedPasswords_of_some h
  | getPk node config => cases config <;> exact h
  | partialDecryption node ciphertext => exact h

omit [DecidableEq NodeId] in
theorem deposits_deed (h : l.passwords dir = some vaultPassword) :
    (deed ste resolve l call).filterMap (Custody.depositAt (dir, index)) =
      (startAt ste resolve dir index vaultPassword call).toList := by
  cases call with
  | build node config i irohDraw steDraw rest =>
    generalize hpasswords : openedPasswords (resolve (Node.vaultOf config).1)
      (Node.vaultOf config).2 l.passwords = passwords
    have hdir : passwords dir = some vaultPassword := by
      rw [← hpasswords]
      exact openedPasswords_of_some h
    simp only [deed, hpasswords, startAt]
    rcases hadmitted : Node.admitted resolve passwords config with
      - | ⟨vaultPassword', irohPassword, stePassword⟩
    · have hnone : (if resolve config.vaultDir = dir ∧ i = index ∧
          config.vaultPswd = some vaultPassword ∧ config.irohKeyPswd.isSome then
            config.steKeyPswd.map fun stePassword => (stePassword, ste.new steDraw index)
          else none) = none := by
        split_ifs with hstart
        · obtain ⟨rfl, -, hvault, hiroh⟩ := hstart
          obtain ⟨irohPassword, hiroh⟩ := Option.isSome_iff_exists.mp hiroh
          rcases hste : config.steKeyPswd with - | stePassword
          · rfl
          · rw [Node.admitted, hvault, hiroh, hste] at hadmitted
            simp [hdir] at hadmitted
        · rfl
      rw [hnone]
      rfl
    · obtain ⟨hvault, hiroh, hste, hpassword⟩ := Node.admitted_eq_some hadmitted
      rw [hvault, hiroh, hste]
      by_cases hplace : resolve config.vaultDir = dir ∧ i = index
      · obtain ⟨rfl, rfl⟩ := hplace
        obtain rfl := Option.some.inj (hpassword.symm.trans hdir)
        simp [Custody.depositAt]
      · have hdeposit : (resolve config.vaultDir, i) ≠ (dir, index) := by
          intro heq
          exact hplace (Prod.mk.inj heq)
        have hstart : ¬ (resolve config.vaultDir = dir ∧ i = index ∧
            some vaultPassword' = some vaultPassword ∧ (some irohPassword).isSome) :=
          fun hno => hplace ⟨hno.1, hno.2.1⟩
        rw [if_neg hstart]
        simp [Custody.depositAt, hdeposit]
  | getPk node config => cases config <;> rfl
  | partialDecryption node ciphertext => rfl

variable (ste resolve l) in
theorem stays_deed (h : startsNode node call = false) :
    Custody.Stays node (deed ste resolve l call) := by
  cases call with
  | build n config i irohDraw steDraw rest =>
    have hne : node ≠ n := by
      rintro rfl
      simp [startsNode] at h
    simp only [deed]
    split
    · simp [Custody.Stays, hne]
    · simp [Custody.Stays, hne]
  | getPk n config => cases config <;> simp [Custody.Stays, deed]
  | partialDecryption n ciphertext => simp [Custody.Stays, deed]

theorem opened_deed {events : List (Custody.Event NodeId (Dir × Nat) Str SecretKey)}
    {place : Dir × Nat} : Custody.Opened node place first (events ++ deed ste resolve l call) ↔
      Custody.Opened node place first events ∧
        (opensKey node call = true → (Custody.latest place first events).1 = first.1) := by
  cases call with
  | build n config i irohDraw steDraw rest =>
    simp only [deed]
    split
    · cases rest with
      | true => simp [Custody.opened_concat, opensKey]
      | false =>
        rw [List.append_cons, if_neg Bool.false_ne_true, Custody.opened_concat,
          Custody.opened_concat]
        simp [opensKey]
    · simp [Custody.opened_concat, opensKey]
  | getPk n config =>
    cases config with
    | none => simp [deed, opensKey]
    | some crs => simp [deed, Custody.opened_concat, opensKey]
  | partialDecryption n ciphertext => simp [deed, Custody.opened_concat, opensKey]

theorem welcome_concat : Welcome ste resolve node dir index vaultPassword first (calls ++ [call]) ↔
    Welcome ste resolve node dir index vaultPassword first calls ∧
      (opensKey node call = true →
        (held ste resolve dir index vaultPassword first calls).1 = first.1) := by
  constructor
  · intro h
    refine ⟨fun pre c hpre => h pre c (hpre.trans (List.prefix_append ..)), ?_⟩
    exact h calls call List.prefix_rfl
  · intro h pre c hpre
    rw [List.prefix_concat_iff] at hpre
    rcases hpre with heq | hpre
    · obtain ⟨rfl, hc⟩ := List.append_inj' heq rfl
      obtain rfl := List.singleton_injective hc
      exact h.2
    · exact h.1 pre c hpre

omit [DecidableEq NodeId] in
theorem held_concat : held ste resolve dir index vaultPassword first (calls ++ [call]) =
    (startAt ste resolve dir index vaultPassword call).getD
      (held ste resolve dir index vaultPassword first calls) := by
  cases hc : startAt ste resolve dir index vaultPassword call with
  | none => simp [held, List.filterMap_append, hc]
  | some x => simp [held, List.filterMap_append, hc]

omit [DecidableEq NodeId] in
theorem latest_deed {events : List (Custody.Event NodeId (Dir × Nat) Str SecretKey)}
    (h : l.passwords dir = some vaultPassword) :
    Custody.latest (dir, index) first (events ++ deed ste resolve l call) =
      (startAt ste resolve dir index vaultPassword call).getD
        (Custody.latest (dir, index) first events) := by
  rw [Custody.latest, List.filterMap_append, deposits_deed h]
  cases startAt ste resolve dir index vaultPassword call with
  | none => simp [Custody.latest]
  | some x => simp

variable (ste iroh resolve index first) in
theorem run_custody (h : l.passwords dir = some vaultPassword)
    (hstays : ∀ call ∈ calls, startsNode node call = false) :
    ∃ events, (l.run ste iroh resolve calls).custody = Custody.run l.custody events ∧
      (l.run ste iroh resolve calls).passwords dir = some vaultPassword ∧
      Custody.Stays node events ∧
      Custody.latest (dir, index) first events =
        held ste resolve dir index vaultPassword first calls ∧
      (Custody.Opened node (dir, index) first events ↔
        Welcome ste resolve node dir index vaultPassword first calls) := by
  induction calls using List.reverseRecOn with
  | nil =>
    refine ⟨[], rfl, h, ?_, rfl, ?_⟩
    · simp [Custody.Stays]
    · constructor
      · intro _ pre call hpre
        simp at hpre
      · intro _ pre hpre
        simp at hpre
  | append_singleton calls call ih =>
    have hbefore : ∀ c ∈ calls, startsNode node c = false :=
      fun c hc => hstays c (List.mem_append_left _ hc)
    have hcall : startsNode node call = false := hstays call (by simp)
    obtain ⟨events, hcustody, hpasswords, hevents, hlatest, hopened⟩ := ih hbefore
    refine ⟨events ++ deed ste resolve (l.run ste iroh resolve calls) call, ?_, ?_, ?_, ?_, ?_⟩
    · rw [Ledger.run_concat, custody_exec, hcustody]
      exact List.foldl_append.symm
    · rw [Ledger.run_concat]
      exact passwords_exec hpasswords
    · obtain ⟨hleave, hdeposit⟩ := stays_deed ste resolve (l.run ste iroh resolve calls) hcall
      refine ⟨fun hmem => ?_, fun p k v hmem => ?_⟩
      · rcases List.mem_append.mp hmem with hmem | hmem
        · exact hevents.1 hmem
        · exact hleave hmem
      · rcases List.mem_append.mp hmem with hmem | hmem
        · exact hevents.2 p k v hmem
        · exact hdeposit p k v hmem
    · rw [latest_deed hpasswords, held_concat, hlatest]
    · rw [opened_deed, welcome_concat, hopened, hlatest]

end Deeds

section Results

section Definitions

variable {W H Dir NodeId Crs SecretKey PublicKey Ciphertext Share IrohSecret IrohPublic
  IrohSignature : Type} [DecidableEq Dir] [DecidableEq NodeId] (L : KeystoreLib W H)
  (ste : SteLib Crs SecretKey PublicKey Ciphertext Share)
  (iroh : IrohLib IrohSecret IrohPublic IrohSignature) (resolve : Str → Dir)

/-- The node answers with the key that is held for its index, and panics from
the first call on at which its password does not open it. -/
def Follows (s : State W H NodeId) (node : NodeId) (dir : Dir) (index : Nat)
    (vaultPassword : Str) (first : Str × SecretKey) (calls : List (Call NodeId Crs Ciphertext)) :
    Prop :=
  ∀ call f, usesKey ste node call = some f →
    (exec L ste iroh s call).1 =
        some (.ok (f (held ste resolve dir index vaultPassword first calls).2)) ∧
      Welcome ste resolve node dir index vaultPassword first (calls ++ [call]) ∨
    (exec L ste iroh s call).1 = some .panic ∧
      ¬ Welcome ste resolve node dir index vaultPassword first (calls ++ [call])

end Definitions

variable {W H Dir NodeId Crs SecretKey PublicKey Ciphertext Share IrohSecret IrohPublic
  IrohSignature : Type} [DecidableEq Dir] [DecidableEq NodeId] {L : KeystoreLib W H}
  {ste : SteLib Crs SecretKey PublicKey Ciphertext Share}
  {iroh : IrohLib IrohSecret IrohPublic IrohSignature}
  {l : Ledger Dir NodeId SecretKey} {node : NodeId} {call : Call NodeId Crs Ciphertext}
  {f : SecretKey → Reply IrohSecret IrohPublic PublicKey Share} {resolve : Str → Dir}

variable (iroh l resolve) in
theorem exec_of_usesKey (h : usesKey ste node call = some f) :
    (l.exec ste iroh resolve call).1 = said f (Custody.answer l.custody node) ∧
      opensKey node call = true := by
  cases call with
  | build n config i irohDraw steDraw rest => cases h
  | getPk n config =>
    cases config with
    | none => cases h
    | some crs =>
      simp only [usesKey] at h
      split_ifs at h with hn
      subst hn
      cases h
      simp [Ledger.exec, opensKey]
  | partialDecryption n ciphertext =>
    simp only [usesKey] at h
    split_ifs at h with hn
    subst hn
    cases h
    simp [Ledger.exec, opensKey]

theorem started_of_ok {config : VaultConfig} {index : Nat} {irohDraw steDraw : Arr 32}
    {rest : Bool} {reply : Reply IrohSecret IrohPublic PublicKey Share}
    (h : (l.exec ste iroh resolve (.build node config index irohDraw steDraw rest)).1 =
      some (.ok reply)) :
    ∃ vaultPassword stePassword, config.vaultPswd = some vaultPassword ∧
      config.steKeyPswd = some stePassword ∧
      (l.exec ste iroh resolve (.build node config index irohDraw steDraw rest)).2.passwords
        (resolve config.vaultDir) = some vaultPassword ∧
      (l.exec ste iroh resolve (.build node config index irohDraw steDraw rest)).2.custody =
        Custody.exec l.custody (.deposit node (resolve config.vaultDir, index) stePassword
          (ste.new steDraw index)) := by
  simp only [Ledger.exec] at h ⊢
  rcases hadmitted : Node.admitted resolve (openedPasswords (resolve (Node.vaultOf config).1)
    (Node.vaultOf config).2 l.passwords) config with - | ⟨vaultPassword, _, stePassword⟩
  · rw [hadmitted] at h
    cases h
  · obtain ⟨hvault, -, hste, hpassword⟩ := Node.admitted_eq_some hadmitted
    rw [hadmitted] at h
    cases rest with
    | true => exact ⟨vaultPassword, stePassword, hvault, hste, hpassword, rfl⟩
    | false => cases h

variable (L) in
/-- A node that is up answers with the key of its own start for as long as no
other start takes its place in the vault. -/
theorem follows_start {view : KeystoreView W H Dir} (hL : L.Implements view) (hste : ste.Correct)
    (hiroh : iroh.Correct) (keystores : W)
    (before after : List (Call NodeId Crs Ciphertext)) {config : VaultConfig} {index : Nat}
    {irohDraw steDraw : Arr 32} {rest : Bool} {reply : Reply IrohSecret IrohPublic PublicKey Share}
    (hstart : (exec L ste iroh (run L ste iroh (start keystores) before)
      (.build node config index irohDraw steDraw rest)).1 = some (.ok reply))
    (hafter : ∀ call ∈ after, startsNode node call = false) :
    ∃ vaultPassword stePassword, config.vaultPswd = some vaultPassword ∧
      config.steKeyPswd = some stePassword ∧
      Follows L ste iroh view.resolve (run L ste iroh (start keystores)
          (before ++ .build node config index irohDraw steDraw rest :: after))
        node (view.resolve config.vaultDir) index vaultPassword (stePassword, ste.new steDraw index)
        after := by
  obtain ⟨hreply, htracks⟩ := ((tracks_start keystores).run hL hste hiroh before).exec hL hste hiroh
    (.build node config index irohDraw steDraw rest)
  rw [hstart] at hreply
  obtain ⟨vaultPassword, stePassword, hvault, hpswd, hpassword, hcustody⟩ :=
    started_of_ok hreply.symm
  obtain ⟨events, hevents, -, hstays, hlatest, hopened⟩ :=
    run_custody ste iroh view.resolve index (stePassword, ste.new steDraw index) hpassword hafter
  have hrun : run L ste iroh (start keystores : State W H NodeId)
      (before ++ .build node config index irohDraw steDraw rest :: after) =
        run L ste iroh (exec L ste iroh (run L ste iroh (start keystores) before)
          (.build node config index irohDraw steDraw rest)).2 after := by
    rw [run, List.foldl_append]
    rfl
  have hafterwards := htracks.run hL hste hiroh after
  rw [← hrun] at hafterwards
  rw [hcustody] at hevents
  refine ⟨vaultPassword, stePassword, hvault, hpswd, fun call f huse => ?_⟩
  obtain ⟨hanswer, hopens⟩ := exec_of_usesKey iroh _ view.resolve huse
  rw [(hafterwards.exec hL hste hiroh call).1, hanswer, hevents, welcome_concat]
  rcases Custody.answer_run hstays with ⟨hserved, hopen⟩ | ⟨hrefused, hclosed⟩
  · rw [Custody.opened_concat, hopened, hlatest] at hopen
    rw [hserved, hlatest]
    exact Or.inl ⟨rfl, hopen.1, fun _ => hopen.2 rfl⟩
  · rw [Custody.opened_concat, hopened, hlatest] at hclosed
    rw [hrefused]
    exact Or.inr ⟨rfl, fun hwelcome => hclosed ⟨hwelcome.1, fun _ => hwelcome.2 hopens⟩⟩

theorem follows_start_restart : ∃ vaultPassword stePassword,
    (sampleConfig "ste".toList).vaultPswd = some vaultPassword ∧
    (sampleConfig "ste".toList).steKeyPswd = some stePassword ∧
      Follows sampleKeystore sampleSte GeneratedKeys.sampleIroh id
        (run sampleKeystore sampleSte GeneratedKeys.sampleIroh (start fun _ => none)
          (sampleStarts "other".toList))
        0 "tmp/keystore".toList 2 vaultPassword (stePassword, beArr 32 1)
        [.build 1 (sampleConfig "other".toList) 2 (beArr 32 2) (beArr 32 3) true] :=
  follows_start sampleKeystore sampleKeystore_implements sampleSte_correct
    GeneratedKeys.sampleIroh_correct (fun _ => none) []
    [.build 1 (sampleConfig "other".toList) 2 (beArr 32 2) (beArr 32 3) true] rfl
    (by decide)

end Results

end SharedKeystores

end Fangorn
