import Fangorn.Startup

/-! What each step of a starting node keeps: nothing but what was posted comes to
it, and each stage leaves behind what the next one needs. -/

namespace Fangorn

open Rust Scale

namespace Startup

/-- Who announced its hint, and the hints that the bootstrap node has. -/
structure World (ι PublicKey : Type) where
  announced : ι → Prop
  hints : List PublicKey

instance {ι PublicKey : Type} : Preorder (World ι PublicKey) where
  le w w' := (∀ n, w.announced n → w'.announced n) ∧ w.hints <+: w'.hints
  le_refl _ := ⟨fun _ h => h, List.prefix_rfl⟩
  le_trans _ _ _ h h' := ⟨fun n hn => h'.1 n (h.1 n hn), h.2.trans h'.2⟩

section Definitions

variable {ι Config PublicKey SystemKeys : Type} (lib : CommitteeLib ι Config PublicKey SystemKeys)
  (drawn : Config)

def Member.HasAnnounced (m : Member Config PublicKey) : Prop :=
  m.stage = .sent ∨ m.stage = .announced ∨ m.stage = .serving

def world (net : Net ι Config PublicKey) : World ι PublicKey :=
  ⟨fun n => (net n).HasAnnounced, (net lib.bootstrap).sync.state.hintList⟩

/-- The keys of two hints or more that the bootstrap node had at some time. -/
def Aggregated (w : World ι PublicKey) (bytes : Bytes) : Prop :=
  ∃ hints systemKeys, hints <+: w.hints ∧ 2 ≤ hints.length ∧
    lib.keys.new hints drawn = some systemKeys ∧ lib.keys.serialize systemKeys = some bytes

/-- What comes under which key into the document. -/
inductive Posted (w : World ι PublicKey) : Str → Announcement → Prop
  | config : Posted w configKey ⟨.config, lib.config⟩
  | hint (n : ι) : w.announced n →
      Posted w (indexKey (lib.index n)) ⟨.hint, lib.serialize (lib.pk n drawn)⟩
  | systemKeys (bytes : Bytes) : Aggregated lib drawn w bytes →
      Posted w systemKeysKey ⟨.systemKeys, bytes⟩
  | doc (data : Bytes) : Posted w (lib.docKey data) ⟨.doc, data⟩

def Holds (w : World ι PublicKey) (key : Str) (value : Bytes) : Prop :=
  ∃ a, Posted lib drawn w key a ∧ Announcement.codec.encode a = some value

/-- Nothing but what was posted has come to a node. -/
structure Clean (w : World ι PublicKey) (m : Member Config PublicKey) : Prop where
  queue : ∀ a ∈ m.sync.queue, ∃ key, Posted lib drawn w key a
  incoming : ∀ e ∈ m.sync.incoming, ∃ key, Holds lib drawn w key e.value
  replica : ∀ e ∈ m.replica, Holds lib drawn w e.key e.value
  config : ∀ c, m.sync.state.config = some c → c = drawn
  hints : ∀ pk ∈ m.sync.state.hintList, ∃ n, w.announced n ∧ pk = lib.pk n drawn
  applying : m.sync.applying = true
  writing : ∀ key a, m.writing = some (key, a) → ∃ n, w.announced n ∧
    key = indexKey (lib.index n) ∧ a = ⟨.hint, lib.serialize (lib.pk n drawn)⟩
  pending : ∀ bytes, m.pending = some bytes → Aggregated lib drawn w bytes
  file : ∀ bytes, m.file = .written bytes → Aggregated lib drawn w bytes

/-- Something of a kind is applied, or waits in the channel. -/
def Due (m : Member Config PublicKey) (tag : Tag) (applied : Prop) : Prop :=
  applied ∨ ∃ a ∈ m.sync.queue, a.tag = tag

/-- What a stage of the start leaves behind. -/
structure Placed (m : Member Config PublicKey) : Prop where
  syncing : m.stage ≠ .built → m.stage ≠ .joined → m.subscription ≠ .lost → m.sync.syncing = true
  configured : m.stage ≠ .built → m.stage ≠ .joined → m.stage ≠ .syncing →
    Due m .config (m.sync.state.config ≠ none)
  hinted : m.HasAnnounced → Due m .hint (m.sync.state.hintList ≠ [])
  writing : m.stage = .sent → m.writing ≠ none

end Definitions

section Calls

variable {Config PublicKey : Type}

/-- All that a call does is to write entries and to send announcements of these
kinds. -/
def Posts {α : Type} (E : Entry → Prop) (A : Announcement → Prop)
    (call : Member.Call Config PublicKey α) : Prop :=
  ∀ m, ∃ entries announcements, (∀ e ∈ entries, E e) ∧ (∀ a ∈ announcements, A a) ∧
    (call m).2 = m.post entries announcements

variable {α β : Type} {E : Entry → Prop} {A : Announcement → Prop} {m : Member Config PublicKey}
  {call : Member.Call Config PublicKey α} {f : α → Member.Call Config PublicKey β}
  {next : α → Member Config PublicKey → Member Config PublicKey} {x : Outcome Unit α}
  {write : BackendWrite} {key : Str} {a : Announcement}

theorem post_nil : m.post [] [] = m := by
  simp only [Member.post, List.append_nil]

theorem Posts.of_same (h : ∀ m, (call m).2 = m) : Posts E A call := fun m =>
  ⟨[], [], by simp, by simp, (h m).trans post_nil.symm⟩

theorem Posts.lift : Posts E A (.lift x : Member.Call Config PublicKey α) := .of_same fun _ => rfl

theorem Posts.bind (h : Posts E A call) (hf : ∀ a, Posts E A (f a)) :
    Posts E A (call >>= f) := by
  intro m
  obtain ⟨entries, announcements, hE, hA, hm⟩ := h m
  rcases hcall : call m with ⟨o, m'⟩
  rw [hcall] at hm
  subst hm
  cases o with
  | ok a =>
    obtain ⟨entries', announcements', hE', hA', hm'⟩ := hf a (m.post entries announcements)
    refine ⟨entries ++ entries', announcements ++ announcements', ?_, ?_, ?_⟩
    · exact fun e he => (List.mem_append.mp he).elim (hE e) (hE' e)
    · exact fun b hb => (List.mem_append.mp hb).elim (hA b) (hA' b)
    · rw [Action.bind_of_ok hcall, hm']
      simp only [Member.post, List.append_assoc]
  | err e =>
    rw [Action.bind_of_err hcall]
    exact ⟨entries, announcements, hE, hA, rfl⟩
  | panic =>
    rw [Action.bind_of_panic hcall]
    exact ⟨entries, announcements, hE, hA, rfl⟩

theorem Posts.lift_bind (hf : ∀ a, x = .ok a → Posts E A (f a)) :
    Posts E A (Action.lift x >>= f) := by
  cases hx : x with
  | ok a => exact hf a hx
  | err e => exact .of_same fun _ => rfl
  | panic => exact .of_same fun _ => rfl

theorem Posts.send (ha : A a) : Posts E A (Member.send a : Member.Call Config PublicKey Unit) := by
  intro m
  rw [Member.send]
  split_ifs
  · exact ⟨[], [a], by simp, by simpa using ha, rfl⟩
  · exact ⟨[], [], by simp, by simp, post_nil.symm⟩

theorem Posts.sendAll {announcements : List Announcement} (h : ∀ a ∈ announcements, A a) :
    Posts E A (Member.sendAll announcements : Member.Call Config PublicKey Unit) := by
  induction announcements with
  | nil => exact .lift
  | cons a rest ih =>
    rw [List.forall_mem_cons] at h
    exact (Posts.send h.1).bind fun _ => ih h.2

theorem Posts.setBytes
    (ha : ∀ value, Announcement.codec.encode a = some value → E ⟨key, value⟩) :
    Posts E A (Member.setBytes write key a : Member.Call Config PublicKey Unit) := by
  intro m
  have hsame : ∃ entries announcements, (∀ e ∈ entries, E e) ∧ (∀ a ∈ announcements, A a) ∧
      m = m.post entries announcements := ⟨[], [], by simp, by simp, post_nil.symm⟩
  unfold Member.setBytes
  cases write.author
  · exact hsame
  · cases henc : Announcement.codec.encode a with
    | none => exact hsame
    | some value =>
      cases write.stored
      · exact hsame
      · exact ⟨[⟨key, value⟩], [], by simpa using ha value henc, by simp, rfl⟩

variable (next) in
theorem Posts.settle (h : Posts E A call) (m : Member Config PublicKey) :
    ∃ entries announcements, (∀ e ∈ entries, E e) ∧ (∀ a ∈ announcements, A a) ∧
      ((∃ a, m.settle call next = next a (m.post entries announcements)) ∨
        m.settle call next = { m.post entries announcements with up := false }) := by
  obtain ⟨entries, announcements, hE, hA, hm⟩ := h m
  rcases hcall : call m with ⟨o, m'⟩
  rw [hcall] at hm
  subst hm
  refine ⟨entries, announcements, hE, hA, ?_⟩
  simp only [Member.settle, hcall]
  cases o with
  | ok a => exact Or.inl ⟨a, rfl⟩
  | err e => exact Or.inr rfl
  | panic => exact Or.inr rfl

theorem settle_of_ok {b : α} {m' : Member Config PublicKey} (h : call m = (.ok b, m')) :
    m.settle call next = next b m' := by
  rw [Member.settle, h]

theorem settle_of_panic {m' : Member Config PublicKey} (h : call m = (.panic, m')) :
    m.settle call next = { m' with up := false } := by
  rw [Member.settle, h]

theorem send_ok (h : m.sync.applying = true) : Member.send a m = (.ok (), m.post [] [a]) :=
  if_pos h

end Calls

section Posts

variable {ι Config PublicKey SystemKeys : Type} {lib : CommitteeLib ι Config PublicKey SystemKeys}
  {drawn : Config} {w w' : World ι PublicKey} {m : Member Config PublicKey} {key : Str}
  {a : Announcement} {value bytes : Bytes}

theorem Aggregated.mono (hw : w ≤ w') (h : Aggregated lib drawn w bytes) :
    Aggregated lib drawn w' bytes := by
  obtain ⟨hints, systemKeys, hprefix, hrest⟩ := h
  exact ⟨hints, systemKeys, hprefix.trans hw.2, hrest⟩

theorem Posted.mono (hw : w ≤ w') (h : Posted lib drawn w key a) : Posted lib drawn w' key a := by
  cases h with
  | config => exact .config
  | hint n hn => exact .hint n (hw.1 n hn)
  | systemKeys bytes hbytes => exact .systemKeys bytes (hbytes.mono hw)
  | doc data => exact .doc data

theorem Holds.mono (hw : w ≤ w') (h : Holds lib drawn w key value) :
    Holds lib drawn w' key value := by
  obtain ⟨a, ha, henc⟩ := h
  exact ⟨a, ha.mono hw, henc⟩

theorem Clean.mono (hw : w ≤ w') (h : Clean lib drawn w m) : Clean lib drawn w' m where
  queue a ha := (h.queue a ha).imp fun _ hp => hp.mono hw
  incoming e he := (h.incoming e he).imp fun _ hp => hp.mono hw
  replica e he := (h.replica e he).mono hw
  config := h.config
  hints pk hpk := (h.hints pk hpk).imp fun n hn => ⟨hw.1 n hn.1, hn.2⟩
  applying := h.applying
  writing key a ha := (h.writing key a ha).imp fun n hn => ⟨hw.1 n hn.1, hn.2⟩
  pending bytes hb := (h.pending bytes hb).mono hw
  file bytes hb := (h.file bytes hb).mono hw

theorem Holds.decode (h : Holds lib drawn w key value) :
    ∃ a, Posted lib drawn w key a ∧ Announcement.codec.encode a = some value ∧
      StateSync.decodeAnnouncement value = .ok a := by
  obtain ⟨a, ha, henc⟩ := h
  refine ⟨a, ha, henc, ?_⟩
  rw [StateSync.decodeAnnouncement, Codec.decode_encode _ henc]
  rfl

theorem indexKey_ne {i : Nat} {c : Char} {s : Str} (hc : c.isDigit = false) :
    indexKey i ≠ c :: s := by
  intro h
  have hmem : c ∈ Nat.toDigits 10 i := by
    rw [← Nat.toList_repr]
    change c ∈ indexKey i
    rw [h]
    exact List.mem_cons_self
  rw [Nat.isDigit_of_mem_toDigits (by omega) (by omega) hmem] at hc
  cases hc

theorem Posted.eq_of_configKey (hlib : lib.Correct drawn) (h : Posted lib drawn w configKey a) :
    a = ⟨.config, lib.config⟩ := by
  generalize hk : configKey = k at h
  cases h with
  | config => rfl
  | hint n hn => exact absurd hk.symm (indexKey_ne (by decide))
  | systemKeys bytes hbytes => exact absurd hk (by decide)
  | doc data => exact absurd hk.symm (hlib.docKey data).1

theorem Posted.aggregated (hlib : lib.Correct drawn)
    (h : Posted lib drawn w systemKeysKey a) :
    a.tag = .systemKeys ∧ Aggregated lib drawn w a.data := by
  generalize hk : systemKeysKey = k at h
  cases h with
  | config => exact absurd hk (by decide)
  | hint n hn => exact absurd hk.symm (indexKey_ne (by decide))
  | systemKeys bytes hbytes => exact ⟨rfl, hbytes⟩
  | doc data => exact absurd hk.symm (hlib.docKey data).2

end Posts

section Cleaning

variable {ι Config PublicKey SystemKeys : Type}
  {lib : CommitteeLib ι Config PublicKey SystemKeys} {drawn : Config} {w : World ι PublicKey}
  {m m' : Member Config PublicKey} {key : Str} {a : Announcement} {stage : Stage}

theorem Clean.post (h : Clean lib drawn w m) {entries : List Entry}
    {announcements : List Announcement}
    (hentries : ∀ e ∈ entries, Holds lib drawn w e.key e.value)
    (hannouncements : ∀ a ∈ announcements, ∃ key, Posted lib drawn w key a) :
    Clean lib drawn w (m.post entries announcements) where
  queue a ha := (List.mem_append.mp ha).elim (h.queue a) (hannouncements a)
  incoming := h.incoming
  replica e he := (List.mem_append.mp he).elim (h.replica e) (hentries e)
  config := h.config
  hints := h.hints
  applying := h.applying
  writing := h.writing
  pending := h.pending
  file := h.file

theorem Clean.reach (h : Clean lib drawn w m) (up : Bool) (stage : Stage) :
    Clean lib drawn w { m with up := up, stage := stage } :=
  ⟨h.queue, h.incoming, h.replica, h.config, h.hints, h.applying, h.writing, h.pending, h.file⟩

theorem Clean.follow (h : Clean lib drawn w m) (subscription : Subscription) (syncing : Bool) :
    Clean lib drawn w
      { m with subscription := subscription, sync := { m.sync with syncing := syncing } } :=
  ⟨h.queue, h.incoming, h.replica, h.config, h.hints, h.applying, h.writing, h.pending, h.file⟩

theorem Clean.settle {α : Type} {call : Member.Call Config PublicKey α}
    (hposts : Posts (fun e => Holds lib drawn w e.key e.value)
      (fun a => ∃ key, Posted lib drawn w key a) call)
    (h : Clean lib drawn w m) : Clean lib drawn w (m.settle call (Member.reach stage)) := by
  obtain ⟨entries, announcements, hentries, hannouncements, hsettle⟩ :=
    hposts.settle (Member.reach stage) m
  have hclean := h.post hentries hannouncements
  rcases hsettle with ⟨_, hsettle⟩ | hsettle
  · rw [hsettle]
    exact hclean.reach _ stage
  · rw [hsettle]
    exact hclean.reach false _

theorem loadHints_posted {read : Str → Option Bytes}
    (hread : ∀ key value, read key = some value → Holds lib drawn w key value) {is : List Nat}
    {announcements : List Announcement} (hload : loadHints read is = .ok announcements) :
    ∀ a ∈ announcements, ∃ key, Posted lib drawn w key a := by
  induction is generalizing announcements with
  | nil =>
    obtain rfl := Outcome.ok.inj hload
    simp
  | cons i is ih =>
    simp only [loadHints, Outcome.bind_eq_ok, Outcome.expect_eq_ok, Outcome.ok.injEq] at hload
    obtain ⟨content, hcontent, a, ha, rest, hrest, rfl⟩ := hload
    obtain ⟨a', hposted, -, hdecode⟩ := (hread _ _ hcontent).decode
    rw [ha] at hdecode
    obtain rfl := Outcome.ok.inj hdecode
    rw [List.forall_mem_cons]
    exact ⟨⟨_, hposted⟩, ih hrest⟩

theorem readFrom_holds {found : List Entry} (h : Clean lib drawn w m)
    (hfound : ∀ e ∈ found, e ∈ m.replica) {value : Bytes}
    (hread : Member.readFrom found key = some value) : Holds lib drawn w key value := by
  obtain ⟨e, he, rfl⟩ := Option.map_eq_some_iff.mp hread
  have hkey := List.find?_some he
  have hmem := h.replica e (hfound e (List.mem_of_find?_eq_some he))
  simp only [decide_eq_true_eq] at hkey
  exact hkey ▸ hmem

/-- One more hint or the config: what is applied was posted. -/
theorem Clean.apply (hlib : lib.Correct drawn) (h : Clean lib drawn w m) {rest : List Announcement}
    (hqueue : m.sync.queue = a :: rest) :
    ∃ state, State.update lib.state a m.sync.state = .ok state ∧
      StateSync.applyNext lib.state a rest m.sync =
        { m.sync with queue := rest, state := state } ∧
      Clean lib drawn w { m with sync := { m.sync with queue := rest, state := state } } ∧
      (m.sync.state.config ≠ none ∨ a.tag = .config → state.config ≠ none) ∧
      (m.sync.state.hintList ≠ [] ∨ a.tag = .hint → state.hintList ≠ []) := by
  obtain ⟨key, ha⟩ := h.queue a (by rw [hqueue]; exact List.mem_cons_self)
  have hrest : ∀ b ∈ rest, ∃ key, Posted lib drawn w key b := by
    intro b hb
    exact h.queue b (by rw [hqueue]; exact List.mem_cons_of_mem _ hb)
  have hnext {state : State Config PublicKey}
      (hupdate : State.update lib.state a m.sync.state = .ok state) :
      StateSync.applyNext lib.state a rest m.sync =
        { m.sync with queue := rest, state := state } := by
    rw [StateSync.applyNext, hupdate]
  have hkeep (hconfig : a.tag ≠ .config) (hhint : a.tag ≠ .hint) :
      ∃ state, State.update lib.state a m.sync.state = .ok state ∧
        StateSync.applyNext lib.state a rest m.sync =
          { m.sync with queue := rest, state := state } ∧
        Clean lib drawn w { m with sync := { m.sync with queue := rest, state := state } } ∧
        (m.sync.state.config ≠ none ∨ a.tag = .config → state.config ≠ none) ∧
        (m.sync.state.hintList ≠ [] ∨ a.tag = .hint → state.hintList ≠ []) := by
    have hupdate : State.update lib.state a m.sync.state = .ok m.sync.state :=
      State.update_other hconfig hhint
    refine ⟨m.sync.state, hupdate, hnext hupdate, ?_, ?_, ?_⟩
    · exact ⟨hrest, h.incoming, h.replica, h.config, h.hints, h.applying,
      h.writing, h.pending, h.file⟩
    · exact fun hc => hc.resolve_right hconfig
    · exact fun hh => hh.resolve_right hhint
  cases ha with
  | config =>
    have hupdate : State.update lib.state ⟨.config, lib.config⟩ m.sync.state =
        .ok { m.sync.state with config := some drawn } := State.update_config rfl hlib.config
    refine ⟨_, hupdate, hnext hupdate, ?_, fun _ => by simp, fun hh => hh.resolve_right (by simp)⟩
    refine ⟨hrest, h.incoming, h.replica, fun c hc => ?_, h.hints, h.applying,
      h.writing, h.pending, h.file⟩
    exact (Option.some.inj hc).symm
  | hint n hn =>
    have hupdate : State.update lib.state ⟨.hint, lib.serialize (lib.pk n drawn)⟩ m.sync.state =
        .ok { m.sync.state with hints := some (m.sync.state.hintList ++ [lib.pk n drawn]) } :=
      State.update_hint rfl (hlib.hint _)
    refine ⟨_, hupdate, hnext hupdate, ?_, fun hc => hc.resolve_right (by simp), fun _ => ?_⟩
    · refine ⟨hrest, h.incoming, h.replica, h.config, fun pk hpk => ?_, h.applying,
        h.writing, h.pending, h.file⟩
      rcases List.mem_append.mp hpk with hpk | hpk
      · exact h.hints pk hpk
      · exact ⟨n, hn, List.mem_singleton.mp hpk⟩
    · simp [State.hintList]
  | systemKeys bytes hbytes => exact hkeep (by simp) (by simp)
  | doc data => exact hkeep (by simp) (by simp)

end Cleaning

section Steps

variable {ι Config PublicKey SystemKeys : Type} [DecidableEq ι]
  {lib : CommitteeLib ι Config PublicKey SystemKeys} {drawn : Config} {w : World ι PublicKey}
  {m m' : Member Config PublicKey} {node : ι}

variable (lib drawn w m) in
structure Sound : Prop where
  clean : Clean lib drawn w m
  placed : Placed m

omit [DecidableEq ι] in
theorem Due.mono {tag : Tag} {applied applied' : Prop} (h : Due m tag applied)
    (hqueue : ∀ a ∈ m.sync.queue, a ∈ m'.sync.queue) (happlied : applied → applied') :
    Due m' tag applied' :=
  h.imp happlied fun ⟨a, ha, htag⟩ => ⟨a, hqueue a ha, htag⟩

omit [DecidableEq ι] in
theorem placed_of_early (h : m.stage = .built ∨ m.stage = .joined) : Placed m := by
  refine ⟨fun hb hj => ?_, fun hb hj _ => ?_, fun ha => ?_, fun hs => ?_⟩
  · exact absurd h (not_or.mpr ⟨hb, hj⟩)
  · exact absurd h (not_or.mpr ⟨hb, hj⟩)
  · rcases h with h | h <;> simp [Member.HasAnnounced, h] at ha
  · rcases h with h | h <;> simp [h] at hs

omit [DecidableEq ι] in
/-- What a node with no further progress keeps. -/
theorem Placed.keep (h : Placed m) (hstage : m'.stage = m.stage)
    (hsubscription : m'.subscription = m.subscription)
    (hsyncing : m'.sync.syncing = m.sync.syncing) (hstate : m'.sync.state = m.sync.state)
    (hwriting : m'.writing = m.writing) (hqueue : ∀ a ∈ m.sync.queue, a ∈ m'.sync.queue) :
    Placed m' := by
  refine ⟨fun hb hj hl => ?_, fun hb hj hs => ?_, fun ha => ?_, fun hs => ?_⟩
  · rw [hsyncing]
    exact h.syncing (hstage ▸ hb) (hstage ▸ hj) (hsubscription ▸ hl)
  · rw [hstage] at hb hj hs
    rw [hstate]
    exact (h.configured hb hj hs).mono hqueue id
  · rw [Member.HasAnnounced, hstage] at ha
    rw [hstate]
    exact (h.hinted ha).mono hqueue id
  · rw [hwriting]
    exact h.writing (hstage ▸ hs)

omit [DecidableEq ι] in
theorem Placed.fail (h : Placed m) (entries : List Entry) (announcements : List Announcement) :
    Placed { m.post entries announcements with up := false } :=
  h.keep rfl rfl rfl rfl rfl fun _ ha => List.mem_append_left _ ha

omit [DecidableEq ι] in
theorem Sound.fail (h : Sound lib drawn w m) : Sound lib drawn w { m with up := false } :=
  ⟨h.clean.reach false m.stage, h.placed.keep rfl rfl rfl rfl rfl fun _ ha => ha⟩

variable (lib drawn w node) in
theorem setupDocumentStream_posts (opened : Bool) (write : BackendWrite) :
    Posts (fun e => Holds lib drawn w e.key e.value) (fun a => ∃ key, Posted lib drawn w key a)
      (Member.setupDocumentStream lib opened write node) := by
  unfold Member.setupDocumentStream
  split_ifs
  · exact .lift
  · exact (Posts.send ⟨_, .config⟩).bind fun _ =>
      .setBytes fun value hvalue => ⟨_, .config, hvalue⟩
  · exact .lift

theorem Sound.join (h : Sound lib drawn w m) (opened : Bool) (write : BackendWrite) :
    Sound lib drawn w (m.exec lib node (.join opened write)) := by
  simp only [Member.exec]
  split_ifs with hnext
  · have hposts := setupDocumentStream_posts lib drawn w node opened write
    refine ⟨h.clean.settle hposts, placed_of_early ?_⟩
    obtain ⟨entries, announcements, -, -, hsettle | hsettle⟩ := hposts.settle
      (Member.reach .joined) m
    · obtain ⟨_, hsettle⟩ := hsettle
      rw [hsettle]
      exact Or.inr rfl
    · rw [hsettle]
      exact Or.inl hnext.2
  · exact h

theorem Sound.spawn (h : Sound lib drawn w m) : Sound lib drawn w (m.exec lib node .spawn) := by
  simp only [Member.exec]
  split_ifs with hnext
  · refine ⟨(h.clean.follow m.subscription true).reach m.up .syncing, fun _ _ _ => rfl,
      fun _ _ hs => absurd rfl hs, fun ha => ?_, nofun⟩
    simp [Member.HasAnnounced] at ha
  · exact h

omit [DecidableEq ι] in
theorem Placed.lose (h : Placed m) :
    Placed { m with subscription := .lost, sync := { m.sync with syncing := false } } :=
  ⟨fun _ _ hl => absurd rfl hl, h.configured, h.hinted, h.writing⟩

theorem Sound.watch (h : Sound lib drawn w m) (subscribed : Bool) :
    Sound lib drawn w (m.exec lib node (.watch subscribed)) := by
  simp only [Member.exec]
  split_ifs with hnext hsub
  · exact ⟨h.clean.follow .live m.sync.syncing, fun _ _ _ => hnext.2.1, h.placed.configured,
      h.placed.hinted, h.placed.writing⟩
  · exact ⟨h.clean.follow .lost false, h.placed.lose⟩
  · exact h

theorem Sound.unsubscribe (h : Sound lib drawn w m) :
    Sound lib drawn w (m.exec lib node .unsubscribe) := by
  simp only [Member.exec]
  split_ifs
  · exact ⟨h.clean.follow .lost false, h.placed.lose⟩
  · exact h

omit [DecidableEq ι] in
/-- An entry of a replica sends what it holds. -/
theorem load_ok {e : Entry} (h : Clean lib drawn w m) (hmem : e ∈ m.replica) :
    ∃ a, Posted lib drawn w e.key a ∧
      Member.loadAndDistributeConfig (some e.value) m = (.ok (), m.post [] [a]) := by
  obtain ⟨a, ha, -, hdecode⟩ := (h.replica e hmem).decode
  refine ⟨a, ha, ?_⟩
  have hcontent : (Action.lift (.expect (some e.value)) : Member.Call Config PublicKey Bytes) m =
      (.ok e.value, m) := rfl
  have hread : (Action.lift (StateSync.decodeAnnouncement e.value) :
      Member.Call Config PublicKey Announcement) m = (.ok a, m) := by
    rw [Action.lift, hdecode]
  rw [Member.loadAndDistributeConfig, Action.bind_of_ok hcontent, Action.bind_of_ok hread]
  exact send_ok h.applying

theorem Sound.configure (hlib : lib.Correct drawn) (h : Sound lib drawn w m)
    (found : Option Entry) : Sound lib drawn w (m.exec lib node (.configure found)) := by
  simp only [Member.exec]
  split_ifs with hnext
  · obtain ⟨-, hstage, hfound⟩ := hnext
    cases found with
    | none => exact h.fail
    | some e =>
      obtain ⟨hmem, hkey⟩ := hfound e rfl
      obtain ⟨a, ha, hok⟩ := load_ok h.clean hmem
      rw [Option.map_some, settle_of_ok hok]
      refine ⟨(h.clean.post (by simp) ?_).reach m.up .configured, fun _ _ hl => ?_,
        fun _ _ _ => ?_, fun ha => ?_, nofun⟩
      · rw [List.forall_mem_singleton]
        exact ⟨_, ha⟩
      · exact h.placed.syncing (by simp [hstage]) (by simp [hstage]) hl
      · rw [hkey] at ha
        rw [ha.eq_of_configKey hlib]
        exact Or.inr ⟨_, List.mem_append_right _ (List.mem_singleton_self _), rfl⟩
      · simp [Member.HasAnnounced, Member.reach] at ha
  · exact h

variable (node) in
theorem loadPrevious_posts (h : Clean lib drawn w m) {found : List Entry}
    (hfound : ∀ e ∈ found, e ∈ m.replica) :
    Posts (fun e => Holds lib drawn w e.key e.value) (fun a => ∃ key, Posted lib drawn w key a)
      (Member.loadPrevious lib node (Member.readFrom found)) := by
  unfold Member.loadPrevious
  split_ifs
  · exact .lift
  · refine .lift_bind fun announcements hload => .sendAll ?_
    exact loadHints_posted (fun _ _ hvalue => readFrom_holds h hfound hvalue) hload

theorem Sound.load (h : Sound lib drawn w m) (found : List Entry) :
    Sound lib drawn w (m.exec lib node (.load found)) := by
  simp only [Member.exec]
  split_ifs with hnext
  · obtain ⟨-, hstage, hfound⟩ := hnext
    have hposts := loadPrevious_posts node h.clean hfound
    refine ⟨h.clean.settle hposts, ?_⟩
    obtain ⟨entries, announcements, -, -, hsettle | hsettle⟩ := hposts.settle
      (Member.reach .loaded) m
    · obtain ⟨_, hsettle⟩ := hsettle
      rw [hsettle]
      refine ⟨fun _ _ hl => ?_, fun _ _ _ => ?_, fun ha => ?_, nofun⟩
      · exact h.placed.syncing (by simp [hstage]) (by simp [hstage]) hl
      · have hdue := h.placed.configured (by simp [hstage]) (by simp [hstage]) (by simp [hstage])
        exact hdue.mono (fun _ ha => List.mem_append_left _ ha) id
      · simp [Member.HasAnnounced, Member.reach] at ha
    · rw [hsettle]
      exact h.placed.fail entries announcements
  · exact h

omit [DecidableEq ι] in
theorem sendNodeHint_ok {config : Config} (hconfig : m.sync.state.config = some config)
    (happlying : m.sync.applying = true) :
    Member.sendNodeHint lib true node m =
      (.ok ⟨.hint, lib.serialize (lib.pk node config)⟩,
        m.post [] [⟨.hint, lib.serialize (lib.pk node config)⟩]) := by
  have hpk : Member.getPk lib true node m = (.ok (lib.pk node config), m) := by
    rw [Member.getPk, hconfig]
    rfl
  rw [Member.sendNodeHint, Action.bind_of_ok hpk, Action.bind_of_ok (send_ok happlying)]
  rfl

omit [DecidableEq ι] in
theorem sendNodeHint_of_unconfigured (hconfig : m.sync.state.config = none) (vault : Bool) :
    Member.sendNodeHint lib vault node m = (.panic, m) :=
  Action.bind_of_panic (by rw [Member.getPk, hconfig])

omit [DecidableEq ι] in
theorem sendNodeHint_of_locked : Member.sendNodeHint lib false node m = (.panic, m) := by
  refine Action.bind_of_panic ?_
  unfold Member.getPk
  split <;> rfl

theorem Sound.announce (h : Sound lib drawn w m) (vault : Bool)
    (hself : (m.exec lib node (.announce vault)).HasAnnounced → w.announced node) :
    Sound lib drawn w (m.exec lib node (.announce vault)) := by
  simp only [Member.exec] at hself ⊢
  split_ifs at hself ⊢ with hnext
  · obtain ⟨-, hstage⟩ := hnext
    rcases hconfig : m.sync.state.config with - | config
    · rw [settle_of_panic (sendNodeHint_of_unconfigured hconfig vault)]
      exact h.fail
    · obtain rfl := h.clean.config config hconfig
      cases vault with
      | false =>
        rw [settle_of_panic sendNodeHint_of_locked]
        exact h.fail
      | true =>
        rw [settle_of_ok (sendNodeHint_ok hconfig h.clean.applying)] at hself ⊢
        have hannounced : w.announced node := hself (Or.inl rfl)
        have hposted : Posted lib config w (indexKey (lib.index node))
            ⟨.hint, lib.serialize (lib.pk node config)⟩ := .hint node hannounced
        have hclean : Clean lib config w
            (m.post [] [⟨.hint, lib.serialize (lib.pk node config)⟩]) :=
          h.clean.post (by simp) (List.forall_mem_singleton.mpr ⟨_, hposted⟩)
        refine ⟨⟨hclean.queue, hclean.incoming, hclean.replica, hclean.config, hclean.hints,
          hclean.applying, fun key a ha => ?_, hclean.pending, hclean.file⟩, fun _ _ hl => ?_,
          fun _ _ _ => Or.inl ?_, fun _ => ?_, fun _ => by simp⟩
        · obtain ⟨rfl, rfl⟩ := Prod.mk.inj (Option.some.inj ha)
          exact ⟨node, hannounced, rfl, rfl⟩
        · exact h.placed.syncing (by simp [hstage]) (by simp [hstage]) hl
        · exact fun hnone => absurd (hconfig.symm.trans hnone) (by simp)
        · exact Or.inr ⟨_, List.mem_append_right _ (List.mem_singleton_self _), rfl⟩
  · exact h

omit [DecidableEq ι] in
/-- What a node has applied or sent by then is there at a later stage too. -/
theorem Placed.advance (h : Placed m) (ha : m.HasAnnounced) {stage : Stage}
    (hstage : stage ≠ .sent) (updating : Bool) :
    Placed { m with stage := stage, updating := updating } := by
  have hlate : m.stage ≠ .built ∧ m.stage ≠ .joined ∧ m.stage ≠ .syncing := by
    rcases ha with ha | ha | ha <;> simp [ha]
  exact ⟨fun _ _ => h.syncing hlate.1 hlate.2.1,
    fun _ _ _ => h.configured hlate.1 hlate.2.1 hlate.2.2, fun _ => h.hinted ha,
    fun hs => absurd hs hstage⟩

theorem Sound.publish (h : Sound lib drawn w m) (write : BackendWrite) :
    Sound lib drawn w (m.exec lib node (.publish write)) := by
  simp only [Member.exec]
  rcases hwriting : m.writing with - | ⟨key, a⟩
  · exact h
  · dsimp only
    split_ifs with hnext
    · have hposted : Posted lib drawn w key a := by
        obtain ⟨n, hn, rfl, rfl⟩ := h.clean.writing key a hwriting
        exact .hint n hn
      have hposts : Posts (fun e => Holds lib drawn w e.key e.value)
          (fun a => ∃ key, Posted lib drawn w key a)
          (Member.setBytes write key a : Member.Call Config PublicKey Unit) :=
        .setBytes fun value hvalue => ⟨a, hposted, hvalue⟩
      refine ⟨h.clean.settle hposts, ?_⟩
      obtain ⟨entries, announcements, -, -, hsettle | hsettle⟩ := hposts.settle
        (Member.reach .announced) m
      · obtain ⟨_, hsettle⟩ := hsettle
        rw [hsettle]
        have hkept : Placed (m.post entries announcements) :=
          h.placed.keep rfl rfl rfl rfl rfl fun _ ha => List.mem_append_left _ ha
        exact hkept.advance (Or.inl hnext.2) (by simp) m.updating
      · rw [hsettle]
        exact h.placed.fail entries announcements
    · exact h

theorem Sound.serve (h : Sound lib drawn w m) : Sound lib drawn w (m.exec lib node .serve) := by
  simp only [Member.exec]
  split_ifs with hnext
  · exact ⟨h.clean.reach m.up .serving,
      h.placed.advance (Or.inr (Or.inl hnext.2.1)) (by simp) m.updating⟩
  · exact h

omit [DecidableEq ι] in
theorem HasAnnounced.of_mayPublish (h : m.mayPublish) : m.HasAnnounced :=
  Or.inr (h.imp_right And.left)

omit [DecidableEq ι] in
theorem Sound.serving (h : Sound lib drawn w m) (ha : m.HasAnnounced) :
    Sound lib drawn w m.serving :=
  ⟨⟨h.clean.queue, h.clean.incoming, h.clean.replica, h.clean.config, h.clean.hints,
    h.clean.applying, h.clean.writing, h.clean.pending, h.clean.file⟩,
    h.placed.advance ha (by simp) true⟩

omit [DecidableEq ι] in
theorem gatherKeys_aggregated (h : Clean lib drawn w m) (hboot : w.hints = m.sync.state.hintList)
    {bytes : Bytes} (hgather : gatherKeys lib.keys m.sync.state = .ok (some bytes)) :
    Aggregated lib drawn w bytes := by
  simp only [gatherKeys, Outcome.bind_eq_ok, Outcome.okOr_eq_ok] at hgather
  obtain ⟨config, hconfig, hints, hhints, hgather⟩ := hgather
  obtain rfl := h.config config hconfig
  by_cases hlen : hints.length ≤ 1
  · simp [hlen] at hgather
  · rw [if_neg hlen] at hgather
    simp only [Outcome.bind_eq_ok, Outcome.okOr_eq_ok, Outcome.ok.injEq,
      Option.some.injEq] at hgather
    obtain ⟨systemKeys, hkeys, bytes', hserialize, rfl⟩ := hgather
    refine ⟨hints, systemKeys, ?_, by omega, hkeys, hserialize⟩
    rw [hboot, State.hintList, hhints]
    exact List.prefix_rfl

omit [DecidableEq ι] in
theorem gather_state : (m.gather lib).sync = m.sync := by
  unfold Member.gather
  split
  · rfl
  · rfl
  · split_ifs <;> rfl

theorem Sound.gather (h : Sound lib drawn w m)
    (hboot : node = lib.bootstrap →
      w.hints = (m.exec lib node .gather).sync.state.hintList) :
    Sound lib drawn w (m.exec lib node .gather) := by
  simp only [Member.exec] at hboot ⊢
  split_ifs at hboot ⊢ with hnext
  · obtain ⟨-, hnode, hpublish, -⟩ := hnext
    have hhints := hboot hnode
    rw [gather_state] at hhints
    unfold Member.gather
    split
    · exact h.serving (HasAnnounced.of_mayPublish hpublish)
    · rename_i bytes hgather
      refine ⟨⟨h.clean.queue, h.clean.incoming, h.clean.replica, h.clean.config, h.clean.hints,
        h.clean.applying, h.clean.writing, fun b hb => ?_, h.clean.file⟩,
        h.placed.keep rfl rfl rfl rfl rfl fun _ ha => ha⟩
      obtain rfl := Option.some.inj hb
      exact gatherKeys_aggregated h.clean hhints hgather
    · split_ifs
      · exact h
      · exact h.fail
  · exact h

/-- What an attempt to store keys leaves in the file, the channel and the
document. -/
theorem storeKeys_leaves (env : PublishEnv) (bytes : Bytes) :
    (∀ b, (storeKeys env bytes ⟨none, [], none⟩).2.file = some b → b = bytes) ∧
    (∀ a ∈ (storeKeys env bytes ⟨none, [], none⟩).2.sent, a = ⟨.systemKeys, bytes⟩) ∧
    ∀ content, (storeKeys env bytes ⟨none, [], none⟩).2.entry = some content →
      Announcement.codec.encode ⟨.systemKeys, bytes⟩ = some content := by
  unfold storeKeys
  cases env.fileWritten
  · simp
  · cases env.channelOpen
    · simp
    · cases env.author
      · simp
      · cases henc : Announcement.codec.encode ⟨.systemKeys, bytes⟩ with
        | none => simp [henc]
        | some content =>
          cases env.stored
          · simp [henc]
          · cases env.reported <;> simp [henc]

omit [DecidableEq ι] in
/-- What a node is behind an attempt, whatever becomes of it. -/
theorem Sound.stored (h : Sound lib drawn w m) (env : PublishEnv) (left : Option Bytes)
    {bytes : Bytes} (hbytes : Aggregated lib drawn w bytes) :
    let out := (storeKeys env bytes ⟨none, [], none⟩).2
    Sound lib drawn w { m.post (out.entry.map (Entry.mk systemKeysKey)).toList out.sent with
      pending := none
      file :=
        match out.file with
        | some bytes => .written bytes
        | none => .torn left } := by
  intro out
  obtain ⟨hfile, hsent, hentry⟩ := storeKeys_leaves env bytes
  have hclean : Clean lib drawn w
      (m.post (out.entry.map (Entry.mk systemKeysKey)).toList out.sent) :=
    h.clean.post (fun e he => ?_) (fun a ha => ?_)
  · refine ⟨⟨hclean.queue, hclean.incoming, hclean.replica, hclean.config, hclean.hints,
      hclean.applying, hclean.writing, nofun, fun b hb => ?_⟩,
      h.placed.keep rfl rfl rfl rfl rfl fun _ ha => List.mem_append_left _ ha⟩
    rcases hout : out.file with - | b'
    · rw [hout] at hb
      cases hb
    · rw [hout] at hb
      obtain rfl := KeyFile.written.inj hb
      obtain rfl := hfile b' hout
      exact hbytes
  · obtain ⟨content, hcontent, rfl⟩ := Option.map_eq_some_iff.mp (Option.mem_toList.mp he)
    exact ⟨_, .systemKeys bytes hbytes, hentry content hcontent⟩
  · rw [hsent a ha]
    exact ⟨systemKeysKey, .systemKeys bytes hbytes⟩

theorem Sound.store (h : Sound lib drawn w m) (env : PublishEnv) (left : Option Bytes) :
    Sound lib drawn w (m.exec lib node (.store env left)) := by
  simp only [Member.exec]
  rcases hpending : m.pending with - | bytes
  · exact h
  · dsimp only
    split_ifs with hnext
    · have hstored := h.stored { env with channelOpen := m.sync.applying } left
        (h.clean.pending bytes hpending)
      unfold Member.store
      rcases hstore : storeKeys { env with channelOpen := m.sync.applying } bytes
        ⟨none, [], none⟩ with ⟨result, out⟩
      rw [hstore] at hstored
      cases result with
      | ok u => exact hstored.serving (HasAnnounced.of_mayPublish hnext.2)
      | err e =>
        dsimp only
        split_ifs
        · exact hstored
        · exact hstored.fail
      | panic =>
        dsimp only
        split_ifs
        · exact ⟨⟨hstored.clean.queue, hstored.clean.incoming, hstored.clean.replica,
            hstored.clean.config, hstored.clean.hints, hstored.clean.applying,
            hstored.clean.writing, hstored.clean.pending, hstored.clean.file⟩,
            hstored.placed.keep rfl rfl rfl rfl rfl fun _ ha => ha⟩
        · exact hstored.fail
    · exact h

theorem Sound.receive (h : Sound lib drawn w m) :
    Sound lib drawn w (m.exec lib node .receive) := by
  simp only [Member.exec]
  rcases hincoming : m.sync.incoming with - | ⟨e, rest⟩
  · exact h
  · dsimp only
    split_ifs with hnext
    · have hrest : ∀ e' ∈ rest, ∃ key, Holds lib drawn w key e'.value := by
        intro e' he'
        exact h.clean.incoming e' (by rw [hincoming]; exact List.mem_cons_of_mem _ he')
      obtain ⟨key, hvalue⟩ := h.clean.incoming e (by rw [hincoming]; exact List.mem_cons_self)
      obtain ⟨a, ha, henc, -⟩ := hvalue.decode
      have hkept : Sound lib drawn w { m with sync := { m.sync with incoming := rest } } :=
        ⟨⟨h.clean.queue, hrest, h.clean.replica, h.clean.config, h.clean.hints, h.clean.applying,
          h.clean.writing, h.clean.pending, h.clean.file⟩,
          h.placed.keep rfl rfl rfl rfl rfl fun _ ha => ha⟩
      have hsent : StateSync.announcementOf e = .ok (some a) ∨
          StateSync.announcementOf e = .ok none := by
        by_cases hlate : e.failures ≤ 3
        · rcases StateSync.announcementOf_of_decode hlate (Codec.decode_encode _ henc) with
            hsome | ⟨hnone, -⟩
          · exact Or.inl hsome
          · exact Or.inr hnone
        · exact Or.inr (StateSync.announcementOf_of_never hlate)
      rcases hsent with hsome | hnone
      · have hclean : Clean lib drawn w
            (Member.post [] [a] { m with sync := { m.sync with incoming := rest } }) :=
          hkept.clean.post (by simp)
          (List.forall_mem_singleton.mpr ⟨key, ha⟩)
        have hstep : StateSync.receive e rest m.sync =
            { m.sync with incoming := rest, queue := m.sync.queue ++ [a] } := by
          rw [StateSync.receive, hsome]
          exact if_pos h.clean.applying
        rw [hstep]
        have hsame : ({ m with sync := { m.sync with
            incoming := rest, queue := m.sync.queue ++ [a] } } : Member Config PublicKey) =
            Member.post [] [a] { m with sync := { m.sync with incoming := rest } } := by
          simp only [Member.post, List.append_nil]
        rw [hsame]
        exact ⟨hclean, h.placed.keep rfl rfl rfl rfl rfl fun a ha => List.mem_append_left _ ha⟩
      · have hstep : StateSync.receive e rest m.sync = { m.sync with incoming := rest } := by
          rw [StateSync.receive, hnone]
        rw [hstep]
        exact hkept
    · exact h

theorem Sound.apply (hlib : lib.Correct drawn) (h : Sound lib drawn w m) :
    Sound lib drawn w (m.exec lib node .apply) := by
  simp only [Member.exec]
  rcases hqueue : m.sync.queue with - | ⟨a, rest⟩
  · exact h
  · dsimp only
    split_ifs with hnext
    · obtain ⟨state, -, hstep, hclean, hconfig, hhint⟩ := h.clean.apply hlib hqueue
      rw [hstep]
      -- the announcement that a stage waits for may be the one that is applied
      have hdue {tag : Tag} {applied applied' : Prop} (hd : Due m tag applied)
          (happlied : applied ∨ a.tag = tag → applied') :
          Due { m with sync := { m.sync with queue := rest, state := state } } tag applied' := by
        rcases hd with hd | ⟨b, hb, htag⟩
        · exact Or.inl (happlied (Or.inl hd))
        · rw [hqueue] at hb
          rcases List.mem_cons.mp hb with rfl | hb
          · exact Or.inl (happlied (Or.inr htag))
          · exact Or.inr ⟨b, hb, htag⟩
      exact ⟨hclean, h.placed.syncing,
        fun hb hj hs => hdue (h.placed.configured hb hj hs) hconfig,
        fun ha => hdue (h.placed.hinted ha) hhint, h.placed.writing⟩
    · exact h

theorem Sound.addDoc (h : Sound lib drawn w m) (data : Bytes) :
    Sound lib drawn w (m.exec lib node (.addDoc data)) := by
  simp only [Member.exec]
  rcases henc : Announcement.codec.encode ⟨.doc, data⟩ with - | value
  · exact h
  · dsimp only
    split_ifs with hnext
    · refine ⟨h.clean.post (List.forall_mem_singleton.mpr ⟨_, .doc data, henc⟩) (by simp),
        h.placed.keep rfl rfl rfl rfl rfl fun a ha => List.mem_append_left _ ha⟩
    · exact h

omit [DecidableEq ι] in
theorem Sound.arrive (h : Sound lib drawn w m) {entry : Entry}
    (hentry : Holds lib drawn w entry.key entry.value) (noticed : Bool) (failures : Nat) :
    Sound lib drawn w (m.arrive entry noticed failures) := by
  have hreplica : ∀ e ∈ m.replica ++ [entry], Holds lib drawn w e.key e.value :=
    fun e he => (List.mem_append.mp he).elim (h.clean.replica e)
      fun he => List.mem_singleton.mp he ▸ hentry
  simp only [Member.arrive]
  split_ifs with hnext hnoticed
  · refine ⟨⟨h.clean.queue, fun e he => ?_, hreplica, h.clean.config, h.clean.hints,
      h.clean.applying, h.clean.writing, h.clean.pending, h.clean.file⟩,
      h.placed.keep rfl rfl rfl rfl rfl fun _ ha => ha⟩
    rcases List.mem_append.mp he with he | he
    · exact h.clean.incoming e he
    · obtain rfl := List.mem_singleton.mp he
      exact ⟨entry.key, hentry⟩
  · exact ⟨⟨h.clean.queue, h.clean.incoming, hreplica, h.clean.config, h.clean.hints,
      h.clean.applying, h.clean.writing, h.clean.pending, h.clean.file⟩,
      h.placed.keep rfl rfl rfl rfl rfl fun _ ha => ha⟩
  · exact h

theorem Sound.exec (hlib : lib.Correct drawn) (h : Sound lib drawn w m) (act : Act)
    (hself : (m.exec lib node act).HasAnnounced → w.announced node)
    (hboot : node = lib.bootstrap → w.hints = (m.exec lib node act).sync.state.hintList) :
    Sound lib drawn w (m.exec lib node act) := by
  cases act with
  | join opened write => exact h.join opened write
  | spawn => exact h.spawn
  | watch subscribed => exact h.watch subscribed
  | configure found => exact h.configure hlib found
  | load found => exact h.load found
  | announce vault => exact h.announce vault hself
  | publish write => exact h.publish write
  | gather => exact h.gather hboot
  | store env left => exact h.store env left
  | serve => exact h.serve
  | receive => exact h.receive
  | unsubscribe => exact h.unsubscribe
  | apply => exact h.apply hlib
  | addDoc data => exact h.addDoc data
  | crash => exact h.fail

end Steps

end Startup

end Fangorn
