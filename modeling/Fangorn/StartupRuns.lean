import Fangorn.StartupSteps

/-! What holds of the nodes over every run of their starts: there is one config,
the hints are those of members that announced themselves under it, the system
keys are aggregated from them, and no announcement ends a task. -/

namespace Fangorn

open Rust Scale

namespace Startup

section Growth

variable {ι Config PublicKey SystemKeys : Type} [DecidableEq ι]
  {lib : CommitteeLib ι Config PublicKey SystemKeys} {m m' : Member Config PublicKey} {node : ι}
  {a : Announcement} {stage : Stage}

omit [DecidableEq ι] in
theorem Posts.state_settle {α : Type} {call : Member.Call Config PublicKey α}
    {next : α → Member Config PublicKey → Member Config PublicKey}
    (h : Posts (fun _ => True) (fun _ => True) call)
    (hnext : ∀ b m', (next b m').sync.state = m'.sync.state) :
    (m.settle call next).sync.state = m.sync.state := by
  obtain ⟨entries, announcements, -, -, ⟨b, hsettle⟩ | hsettle⟩ := h.settle next m
  · rw [hsettle]
    exact hnext b _
  · rw [hsettle]
    rfl

omit [DecidableEq ι] in
theorem Posts.announced_settle {α : Type} {call : Member.Call Config PublicKey α}
    {stage : Stage} (h : Posts (fun _ => True) (fun _ => True) call)
    (hstage : stage = .announced) (ha : m.HasAnnounced) :
    (m.settle call (Member.reach stage)).HasAnnounced := by
  obtain ⟨entries, announcements, -, -, ⟨b, hsettle⟩ | hsettle⟩ := h.settle
    (Member.reach stage) m
  · rw [hsettle, hstage]
    exact Or.inr (Or.inl rfl)
  · rw [hsettle]
    exact ha

omit [DecidableEq ι] in
theorem sendNodeHint_posts (vault : Bool) :
    Posts (fun _ => True) (fun _ => True) (Member.sendNodeHint lib vault node) := by
  refine Posts.bind (.of_same fun m => ?_) fun pk =>
    (Posts.send trivial).bind fun _ => .lift
  unfold Member.getPk
  split <;> rfl

omit [DecidableEq ι] in
theorem state_store (env : PublishEnv) (left : Option Bytes) (bytes : Bytes) :
    (m.store env left bytes).sync.state = m.sync.state := by
  unfold Member.store
  rcases storeKeys { env with channelOpen := m.sync.applying } bytes ⟨none, [], none⟩ with
    ⟨result, out⟩
  cases result with
  | ok u => rfl
  | err e =>
    dsimp only
    split_ifs <;> rfl
  | panic =>
    dsimp only
    split_ifs <;> rfl

theorem state_exec {act : Act} (hact : act ≠ .apply) :
    (m.exec lib node act).sync.state = m.sync.state := by
  cases act with
  | join opened write =>
    simp only [Member.exec]
    split_ifs
    · refine Posts.state_settle ?_ fun _ _ => rfl
      unfold Member.setupDocumentStream
      split_ifs
      · exact .lift
      · exact (Posts.send trivial).bind fun _ => .setBytes fun _ _ => trivial
      · exact .lift
    · rfl
  | configure found =>
    simp only [Member.exec]
    split_ifs
    · refine Posts.state_settle ?_ fun _ _ => rfl
      exact .lift_bind fun _ _ => .lift_bind fun _ _ => .send trivial
    · rfl
  | load found =>
    simp only [Member.exec]
    split_ifs
    · refine Posts.state_settle ?_ fun _ _ => rfl
      unfold Member.loadPrevious
      split_ifs
      · exact .lift
      · exact .lift_bind fun _ _ => .sendAll fun _ _ => trivial
    · rfl
  | announce vault =>
    simp only [Member.exec]
    split_ifs
    · exact (sendNodeHint_posts vault).state_settle fun _ _ => rfl
    · rfl
  | publish write =>
    simp only [Member.exec]
    split
    · split_ifs
      · exact (Posts.setBytes fun _ _ => trivial).state_settle fun _ _ => rfl
      · rfl
    · rfl
  | gather =>
    simp only [Member.exec]
    split_ifs
    · rw [gather_state]
    · rfl
  | store env left =>
    simp only [Member.exec]
    split
    · split_ifs
      · exact state_store env left _
      · rfl
    · rfl
  | receive =>
    simp only [Member.exec]
    split
    · split_ifs
      · simp only [StateSync.receive]
        split
        · rfl
        · split_ifs <;> rfl
        · rfl
      · rfl
    · rfl
  | apply => exact absurd rfl hact
  | addDoc data =>
    simp only [Member.exec]
    split
    · split_ifs <;> rfl
    · rfl
  | crash => rfl
  | spawn | watch | serve | unsubscribe =>
    simp only [Member.exec]
    split_ifs <;> rfl

theorem hintList_exec (act : Act) :
    m.sync.state.hintList <+: (m.exec lib node act).sync.state.hintList := by
  by_cases hact : act = .apply
  · subst hact
    simp only [Member.exec]
    split
    · split_ifs
      · simp only [StateSync.applyNext]
        split
        · rename_i state hupdate
          exact ⟨_, (State.update_hintList hupdate).symm⟩
        · exact List.prefix_rfl
      · exact List.prefix_rfl
    · exact List.prefix_rfl
  · rw [state_exec hact]

omit [DecidableEq ι] in
theorem announced_store (h : m.HasAnnounced) (env : PublishEnv) (left : Option Bytes)
    (bytes : Bytes) : (m.store env left bytes).HasAnnounced := by
  unfold Member.store
  rcases storeKeys { env with channelOpen := m.sync.applying } bytes ⟨none, [], none⟩ with
    ⟨result, out⟩
  cases result with
  | ok u => exact Or.inr (Or.inr rfl)
  | err e =>
    dsimp only
    split_ifs <;> exact h
  | panic =>
    dsimp only
    split_ifs <;> exact h

/-- The steps that come before do nothing any more. -/
theorem announced_exec (h : m.HasAnnounced) (act : Act) : (m.exec lib node act).HasAnnounced := by
  have hlate {stage : Stage} (hstage : m.stage = stage) :
      stage = .sent ∨ stage = .announced ∨ stage = .serving := hstage ▸ h
  cases act with
  | join opened write =>
    simp only [Member.exec]
    split_ifs with hnext
    · exact absurd (hlate hnext.2) (by simp)
    · exact h
  | spawn =>
    simp only [Member.exec]
    split_ifs with hnext
    · exact absurd (hlate hnext.2) (by simp)
    · exact h
  | configure found =>
    simp only [Member.exec]
    split_ifs with hnext
    · exact absurd (hlate hnext.2.1) (by simp)
    · exact h
  | load found =>
    simp only [Member.exec]
    split_ifs with hnext
    · exact absurd (hlate hnext.2.1) (by simp)
    · exact h
  | announce vault =>
    simp only [Member.exec]
    split_ifs with hnext
    · exact absurd (hlate hnext.2) (by simp)
    · exact h
  | publish write =>
    simp only [Member.exec]
    split
    · split_ifs
      · exact (Posts.setBytes fun _ _ => trivial).announced_settle rfl h
      · exact h
    · exact h
  | gather =>
    simp only [Member.exec]
    split_ifs
    · unfold Member.gather
      split
      · exact Or.inr (Or.inr rfl)
      · exact h
      · split_ifs <;> exact h
    · exact h
  | store env left =>
    simp only [Member.exec]
    split
    · split_ifs
      · exact announced_store h env left _
      · exact h
    · exact h
  | serve =>
    simp only [Member.exec]
    split_ifs
    · exact Or.inr (Or.inr rfl)
    · exact h
  | receive | apply | addDoc =>
    simp only [Member.exec]
    split
    · split_ifs <;> exact h
    · exact h
  | watch | unsubscribe =>
    simp only [Member.exec]
    split_ifs <;> exact h
  | crash => exact h

omit [DecidableEq ι] in
theorem arrive_keeps (entry : Entry) (noticed : Bool) (failures : Nat) :
    (m.arrive entry noticed failures).sync.state = m.sync.state ∧
      (m.arrive entry noticed failures).stage = m.stage := by
  simp only [Member.arrive]
  split_ifs <;> exact ⟨rfl, rfl⟩

variable {net : Net ι Config PublicKey} {e : Event ι} {drawn : Config}

variable (lib net e) in
theorem act_grows : (net (who e)).sync.state.hintList <+: (act lib e net).sync.state.hintList ∧
    ((net (who e)).HasAnnounced → (act lib e net).HasAnnounced) := by
  cases e with
  | act node a => exact ⟨hintList_exec a, fun h => announced_exec h a⟩
  | replicate node source entry noticed failures =>
    obtain ⟨hstate, hstage⟩ := arrive_keeps (m := net node) entry noticed failures
    simp only [act, who]
    split_ifs
    · rw [hstate]
      refine ⟨List.prefix_rfl, fun h => ?_⟩
      rw [Member.HasAnnounced, hstage]
      exact h
    · exact ⟨List.prefix_rfl, id⟩

theorem world_grows : world lib net ≤ world lib (Parties.step who (act lib) net e) := by
  obtain ⟨hhints, hannounced⟩ := act_grows lib net e
  refine ⟨fun n hn => ?_, ?_⟩
  · by_cases hw : n = who e
    · subst hw
      simp only [world, Parties.step_self]
      exact hannounced hn
    · simp only [world, Parties.step_of_ne hw]
      exact hn
  · by_cases hw : lib.bootstrap = who e
    · simp only [world, hw, Parties.step_self]
      exact hhints
    · simp only [world, Parties.step_of_ne hw]
      exact List.prefix_rfl

theorem Sound.act (hlib : lib.Correct drawn)
    (h : ∀ n, Sound lib drawn (world lib net) (net n)) :
    Sound lib drawn (world lib (Parties.step who (act lib) net e)) (act lib e net) := by
  have hmember := h (who e)
  have hgrows : world lib net ≤ world lib (Parties.step who (Startup.act lib) net e) := world_grows
  have hlifted : Sound lib drawn (world lib (Parties.step who (Startup.act lib) net e))
      (net (who e)) := ⟨hmember.clean.mono hgrows, hmember.placed⟩
  have hself : (Startup.act lib e net).HasAnnounced →
      (world lib (Parties.step who (Startup.act lib) net e)).announced (who e) := by
    intro ha
    simp only [world, Parties.step_self]
    exact ha
  have hboot : who e = lib.bootstrap →
      (world lib (Parties.step who (Startup.act lib) net e)).hints =
        (Startup.act lib e net).sync.state.hintList := by
    intro hb
    simp only [world, ← hb, Parties.step_self]
  cases e with
  | act node a => exact hlifted.exec hlib a hself hboot
  | replicate node source entry noticed failures =>
    simp only [Startup.act]
    split_ifs with hentry
    · exact hlifted.arrive (((h source).clean.replica entry hentry).mono hgrows) noticed failures
    · exact hlifted

omit [DecidableEq ι] in
theorem sound_start : Sound lib drawn (world lib (start lib)) (start lib node) where
  clean := by
    refine ⟨?_, ?_, ?_, ?_, ?_, rfl, ?_, ?_, ?_⟩ <;> simp [start, State.empty, State.hintList]
  placed := placed_of_early (Or.inl rfl)

theorem sound_run (hlib : lib.Correct drawn) (events : List (Event ι)) (node : ι) :
    Sound lib drawn (world lib (run lib events)) (run lib events node) := by
  refine Parties.run_keeps (P := fun w _ m => Sound lib drawn w m) ?_ ?_ ?_
    (fun _ => sound_start) events node
  · exact fun w w' _ m hw h => ⟨h.clean.mono hw, h.placed⟩
  · exact fun net e _ => world_grows
  · exact fun net e h => Sound.act hlib h

end Growth

section Results

variable {ι Config PublicKey SystemKeys : Type} (lib : CommitteeLib ι Config PublicKey SystemKeys)
  (drawn : Config)

/-- One config and one committee, whatever a node has of them by now. -/
structure Consistent (net : Net ι Config PublicKey) : Prop where
  config : ∀ n c, (net n).sync.state.config = some c → c = drawn
  hints : ∀ n, ∀ pk ∈ (net n).sync.state.hintList, ∃ k, (net k).HasAnnounced ∧
    pk = lib.pk k drawn
  entries : ∀ n, ∀ e ∈ (net n).replica, e.key = systemKeysKey → ∃ bytes,
    Announcement.codec.encode ⟨.systemKeys, bytes⟩ = some e.value ∧
      Aggregated lib drawn (world lib net) bytes
  file : ∀ n bytes, (net n).file = .written bytes → Aggregated lib drawn (world lib net) bytes
  applying : ∀ n, (net n).sync.applying = true
  syncing : ∀ n, (net n).stage ≠ .built → (net n).stage ≠ .joined →
    (net n).subscription ≠ .lost → (net n).sync.syncing = true

variable {lib} {drawn}

/-- A committee of one-byte keys, with the bootstrap node 0 and a keys file of an
earlier one. -/
def sampleCommittee : CommitteeLib Nat UInt8 UInt8 (List UInt8) where
  state := HintNode.byteLib
  keys := ⟨fun hints _ => some hints, some⟩
  bootstrap := 0
  config := [9]
  index := id
  pk n config := UInt8.ofNat n * 16 + config
  serialize pk := [pk]
  docKey data := 'b' :: data.map Char.ofUInt8
  keyFile _ := some [7]

theorem cons_ne {c d : Char} {s t : Str} (h : c ≠ d) : c :: s ≠ d :: t :=
  fun hs => h (List.cons.inj hs).1

theorem sampleCommittee_correct : sampleCommittee.Correct 9 where
  config := rfl
  hint _ := rfl
  short _ := by simp [sampleCommittee]
  docKey _ := ⟨cons_ne (by decide), cons_ne (by decide)⟩

def configEntry : Entry := ⟨configKey, [0, 4, 9]⟩

def done : BackendWrite := ⟨true, true, true⟩

/-- Two nodes start, and the bootstrap node aggregates their hints. -/
def sampleStart : List (Event Nat) :=
  [.act 0 (.join true done), .act 0 .spawn, .act 0 (.configure (some configEntry)), .act 0 .apply,
    .act 0 (.watch true), .act 0 (.load []), .act 0 (.announce true), .act 0 (.publish done),
    .act 0 .apply, .act 0 .apply, .act 0 .gather, .act 1 (.join true done),
    .replicate 1 0 configEntry false 0, .act 1 .spawn, .act 1 (.watch false),
    .act 1 (.configure (some configEntry)), .act 1 .apply, .act 1 (.load []),
    .act 1 (.announce true), .act 1 (.publish done), .replicate 0 1 ⟨['1'], [1, 4, 25]⟩ true 0,
    .act 0 .receive, .act 0 .apply, .act 0 .gather,
    .act 0 (.store ⟨true, true, true, true, true⟩ none)]

end Results

end Startup

end Fangorn
