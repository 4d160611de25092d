import Fangorn.Lib.Trace
import Fangorn.PoolWatcher

/-! `PollingWatcher` with its flag (`pool/watcher.rs`): the task of `watch` sets
it and reads it before each poll, and `stop` clears it from outside, at any
moment. -/

namespace Fangorn

open Rust Scale

/-- Where the task is. A poll is under way from the check that lets it through
to its last request. -/
inductive WatchPhase where
  | spawned
  | checking
  | locking
  | polling
  | sending
  | sleeping
  | returned
  deriving DecidableEq, Repr

/-- The flag and the task, beside what the channel has got and how many polls
and calls of `read_all` were begun. -/
structure PollingWatcher (σ Cid Ciphertext Addr : Type) where
  running : Bool
  phase : WatchPhase
  tasks : PoolTasks σ Cid Ciphertext Addr
  sent : List DecryptionRequest
  begun : Nat
  reads : Nat

/-- A call of `stop`, the statements of `watch` in their order, and what the
others do. -/
inductive WatchEvent (σ Cid Ciphertext Addr : Type) where
  | stop
  | store
  | check
  | lock
  | answer (answer : Option Bytes)
  | send
  | sleep
  | wake
  | other (event : TaskEvent σ Cid Ciphertext Addr)

namespace PollingWatcher

variable {σ Cid Ciphertext Addr : Type}

def new (outside : WorkerEnv Cid Ciphertext Addr) (pool : σ) :
    PollingWatcher σ Cid Ciphertext Addr where
  running := false
  phase := .spawned
  tasks := PoolTasks.start outside pool
  sent := []
  begun := 0
  reads := 0

def check (w : PollingWatcher σ Cid Ciphertext Addr) : PollingWatcher σ Cid Ciphertext Addr :=
  if w.running then { w with phase := .locking, begun := w.begun + 1 }
  else { w with phase := .returned, tasks := { w.tasks with watching := false } }

def answer (a : Option Bytes) (w : PollingWatcher σ Cid Ciphertext Addr) :
    PollingWatcher σ Cid Ciphertext Addr :=
  let tasks := PoolTasks.poll a w.tasks
  { w with tasks := tasks, phase := if tasks.watching then .sending else .returned }

def send (P : Primitives) (req : DecryptionRequest) (rest : List DecryptionRequest)
    (w : PollingWatcher σ Cid Ciphertext Addr) : PollingWatcher σ Cid Ciphertext Addr :=
  let tasks := PoolTasks.send P req rest w.tasks
  { w with
    tasks := tasks
    phase := if tasks.watching then .sending else .returned
    sent := w.sent ++ tasks.queue.drop w.tasks.queue.length }

def OfWorker : TaskEvent σ Cid Ciphertext Addr → Prop
  | .poll _ => False
  | .send => False
  | _ => True

inductive Step (P : Primitives) : WatchEvent σ Cid Ciphertext Addr →
    PollingWatcher σ Cid Ciphertext Addr → PollingWatcher σ Cid Ciphertext Addr → Prop
  | stop (w : PollingWatcher σ Cid Ciphertext Addr) : Step P .stop w { w with running := false }
  | store (w : PollingWatcher σ Cid Ciphertext Addr) : w.phase = .spawned →
      Step P .store w { w with running := true, phase := .checking }
  | check (w : PollingWatcher σ Cid Ciphertext Addr) : w.phase = .checking →
      Step P .check w (check w)
  | lock (w : PollingWatcher σ Cid Ciphertext Addr) : w.phase = .locking →
      Step P .lock w { w with phase := .polling, reads := w.reads + 1 }
  | answer (a : Option Bytes) (w : PollingWatcher σ Cid Ciphertext Addr) : w.phase = .polling →
      Step P (.answer a) w (answer a w)
  | send (req : DecryptionRequest) (rest : List DecryptionRequest)
      (w : PollingWatcher σ Cid Ciphertext Addr) : w.phase = .sending →
      w.tasks.listed = req :: rest → Step P .send w (send P req rest w)
  | sleep (w : PollingWatcher σ Cid Ciphertext Addr) : w.phase = .sending →
      w.tasks.listed = [] → Step P .sleep w { w with phase := .sleeping }
  | wake (w : PollingWatcher σ Cid Ciphertext Addr) : w.phase = .sleeping →
      Step P .wake w { w with phase := .checking }
  | other (event : TaskEvent σ Cid Ciphertext Addr) (w : PollingWatcher σ Cid Ciphertext Addr)
      (tasks : PoolTasks σ Cid Ciphertext Addr) : OfWorker event →
      PoolTasks.Step P event w.tasks tasks → Step P (.other event) w { w with tasks := tasks }

def Awaiting (phase : WatchPhase) : Prop := phase = .locking ∨ phase = .polling

def UnderWay (phase : WatchPhase) : Prop := Awaiting phase ∨ phase = .sending

def readsDue (phase : WatchPhase) : Nat := if phase = .locking then 1 else 0

/-- After a stop in `w`: no further poll is begun, and what is sent comes from
the poll that was under way. -/
structure StaysStopped (w w' : PollingWatcher σ Cid Ciphertext Addr) : Prop where
  begun : w'.begun = w.begun
  reads : w'.reads ≤ w.reads + readsDue w.phase
  sent : ∃ answer new, w'.tasks.polled = w.tasks.polled ++ answer ∧ w'.sent = w.sent ++ new ∧
    new.Sublist (w.tasks.listed ++ answer) ∧ (answer ≠ [] → Awaiting w.phase)
  idle : ¬ UnderWay w.phase → w'.sent = w.sent

def Heeded (P : Primitives) (w₀ : PollingWatcher σ Cid Ciphertext Addr)
    (events : List (WatchEvent σ Cid Ciphertext Addr)) : Prop :=
  ∀ pre post w w', pre ++ .stop :: post <+: events →
    Trace (Step P) w₀ (pre ++ [.stop]) w → Trace (Step P) w post w' → StaysStopped w w'

variable {P : Primitives} {w w' w'' : PollingWatcher σ Cid Ciphertext Addr}
  {e : WatchEvent σ Cid Ciphertext Addr}

theorem poolTasks_send (P : Primitives) (req : DecryptionRequest) (rest : List DecryptionRequest)
    (t : PoolTasks σ Cid Ciphertext Addr) :
    (PoolTasks.send P req rest t).polled = t.polled ∧
      ((PoolTasks.send P req rest t).watching = false → t.watching = true →
        (PoolTasks.send P req rest t).listed = []) ∧
      ∃ new, (PoolTasks.send P req rest t).queue = t.queue ++ new ∧
        (new ++ (PoolTasks.send P req rest t).listed).Sublist (req :: rest) := by
  unfold PoolTasks.send
  cases req.id P.sha256 with
  | none => exact ⟨rfl, fun _ _ => rfl, [], by simp⟩
  | some id =>
    dsimp only
    split_ifs with hseen hworking
    · refine ⟨rfl, fun hno hyes => ?_, [], by simp⟩
      rw [hyes] at hno
      cases hno
    · refine ⟨rfl, fun hno hyes => ?_, [req], by simp⟩
      rw [hyes] at hno
      cases hno
    · exact ⟨rfl, fun _ _ => rfl, [], by simp⟩

theorem poolTasks_ofWorker {event : TaskEvent σ Cid Ciphertext Addr}
    {t t' : PoolTasks σ Cid Ciphertext Addr} (he : OfWorker event)
    (h : PoolTasks.Step P event t t') :
    t'.watching = t.watching ∧ t'.listed = t.listed ∧ t'.polled = t.polled := by
  cases h with
  | poll => exact he.elim
  | send => exact he.elim
  | take => exact ⟨rfl, rfl, rfl⟩
  | process env attest req =>
    unfold PoolTasks.process
    dsimp only
    by_cases hd : Worker.delivers P env req = true
    · simp only [if_pos hd]
      split <;> exact ⟨rfl, rfl, rfl⟩
    · simp only [if_neg hd]
      split <;> exact ⟨rfl, rfl, rfl⟩
  | change => exact ⟨rfl, rfl, rfl⟩

theorem send_sent (P : Primitives) (req : DecryptionRequest) (rest : List DecryptionRequest)
    (w : PollingWatcher σ Cid Ciphertext Addr) :
    ∃ new, (send P req rest w).sent = w.sent ++ new ∧
      (new ++ (send P req rest w).tasks.listed).Sublist (req :: rest) := by
  obtain ⟨-, -, new, hqueue, hsub⟩ := poolTasks_send P req rest w.tasks
  refine ⟨new, ?_, hsub⟩
  change w.sent ++ (PoolTasks.send P req rest w.tasks).queue.drop w.tasks.queue.length = _
  rw [hqueue, List.drop_left]

/-- From `w` to `w'` no poll was begun; the requests still listed may follow. -/
structure Within (w w' : PollingWatcher σ Cid Ciphertext Addr) : Prop where
  reads : w'.reads + readsDue w'.phase ≤ w.reads + readsDue w.phase
  awaiting : Awaiting w'.phase → Awaiting w.phase
  sent : ∃ answer new, w'.tasks.polled = w.tasks.polled ++ answer ∧ w'.sent = w.sent ++ new ∧
    (new ++ w'.tasks.listed).Sublist (w.tasks.listed ++ answer) ∧
    (answer ≠ [] → Awaiting w.phase)

theorem Within.refl (w : PollingWatcher σ Cid Ciphertext Addr) : Within w w :=
  ⟨le_rfl, fun h => h, [], [], by simp, by simp, by simp, fun h => absurd rfl h⟩

theorem Within.advance (h : Within w w') (hphase : ¬ Awaiting w''.phase)
    (hreads : w''.reads = w'.reads) (hsent : w''.sent = w'.sent)
    (hlisted : w''.tasks.listed = w'.tasks.listed) (hpolled : w''.tasks.polled = w'.tasks.polled) :
    Within w w'' := by
  have hdue : readsDue w''.phase = 0 := if_neg fun he => hphase (Or.inl he)
  refine ⟨?_, fun hw => absurd hw hphase, ?_⟩
  · have := h.reads
    omega
  · rw [hsent, hlisted, hpolled]
    exact h.sent

theorem answer_within (h : Within w w') (a : Option Bytes) (hphase : w'.phase = .polling) :
    Within w (answer a w') := by
  have hnot : ¬ Awaiting (answer a w').phase := by
    unfold answer
    dsimp only
    split_ifs <;> simp [Awaiting]
  cases hdec : PoolTasks.decodePoll a with
  | none =>
    have htasks : (answer a w').tasks = { w'.tasks with watching := false } := by
      simp only [answer, PoolTasks.poll, hdec]
    exact h.advance hnot rfl rfl (by rw [htasks]) (by rw [htasks])
  | some requests =>
    have htasks : (answer a w').tasks =
        { w'.tasks with listed := requests, polled := w'.tasks.polled ++ requests } := by
      simp only [answer, PoolTasks.poll, hdec]
    have hdue : readsDue (answer a w').phase = 0 := if_neg fun he => hnot (Or.inl he)
    obtain ⟨answer', new, hpolled, hsent, hsub, hawait⟩ := h.sent
    refine ⟨?_, fun hw => absurd hw hnot, answer' ++ requests, new, ?_, hsent, ?_, fun _ => ?_⟩
    · have hreads := h.reads
      have hsame : (answer a w').reads = w'.reads := rfl
      omega
    · rw [htasks, hpolled, List.append_assoc]
    · rw [htasks, ← List.append_assoc]
      exact ((List.sublist_append_left ..).trans hsub).append_right requests
    · exact h.awaiting (Or.inr hphase)

theorem send_within (h : Within w w') {req : DecryptionRequest} {rest : List DecryptionRequest}
    (hlisted : w'.tasks.listed = req :: rest) : Within w (send P req rest w') := by
  have hnot : ¬ Awaiting (send P req rest w').phase := by
    unfold send
    dsimp only
    split_ifs <;> simp [Awaiting]
  have hdue : readsDue (send P req rest w').phase = 0 := if_neg fun he => hnot (Or.inl he)
  obtain ⟨new', hnew', hrest⟩ := send_sent P req rest w'
  obtain ⟨answer, new, hpolled, hsent, hsub, hawait⟩ := h.sent
  refine ⟨?_, fun hw => absurd hw hnot, answer, new ++ new', ?_, ?_, ?_, hawait⟩
  · have hreads := h.reads
    have hsame : (send P req rest w').reads = w'.reads := rfl
    omega
  · exact (poolTasks_send P req rest w'.tasks).1.trans hpolled
  · rw [hnew', hsent, List.append_assoc]
  · rw [hlisted] at hsub
    rw [List.append_assoc]
    exact (hrest.append_left new).trans hsub

theorem step_within (h : Within w w') (hstep : Step P e w' w'') (hbegun : w''.begun = w'.begun) :
    Within w w'' := by
  cases hstep with
  | stop _ => exact ⟨h.reads, h.awaiting, h.sent⟩
  | store _ hphase => exact h.advance (by simp [Awaiting]) rfl rfl rfl rfl
  | check _ hphase =>
    unfold check at hbegun ⊢
    split_ifs at hbegun ⊢ with hrunning
    · simp at hbegun
    · exact h.advance (by simp [Awaiting]) rfl rfl rfl rfl
  | lock _ hphase =>
    have hreads := h.reads
    rw [hphase] at hreads
    exact ⟨hreads, fun _ => h.awaiting (Or.inl hphase), h.sent⟩
  | answer a _ hphase => exact answer_within h a hphase
  | send req rest _ hphase hlisted => exact send_within h hlisted
  | sleep _ hphase hlisted => exact h.advance (by simp [Awaiting]) rfl rfl rfl rfl
  | wake _ hphase => exact h.advance (by simp [Awaiting]) rfl rfl rfl rfl
  | other event _ tasks he htasks =>
    obtain ⟨-, hlisted, hpolled⟩ := poolTasks_ofWorker he htasks
    refine ⟨h.reads, h.awaiting, ?_⟩
    dsimp only
    rw [hlisted, hpolled]
    exact h.sent

theorem step_running (h : Step P e w w') : w'.running = match e with
    | .stop => false
    | .store => true
    | _ => w.running := by
  cases h with
  | check =>
    unfold check
    split_ifs <;> rfl
  | _ => rfl

theorem step_begun (h : Step P e w w') :
    w'.begun = w.begun ∨ e = .check ∧ w.running = true ∧ w'.begun = w.begun + 1 := by
  cases h with
  | check =>
    unfold check
    split_ifs with hrunning
    · exact Or.inr ⟨rfl, hrunning, rfl⟩
    · exact Or.inl rfl
  | _ => exact Or.inl rfl

theorem step_ne_spawned (h : Step P e w w') (hphase : w.phase ≠ .spawned) :
    w'.phase ≠ .spawned := by
  cases h with
  | stop => exact hphase
  | check =>
    unfold check
    split_ifs <;> exact nofun
  | answer a =>
    unfold answer
    dsimp only
    split_ifs <;> exact nofun
  | send req rest =>
    unfold send
    dsimp only
    split_ifs <;> exact nofun
  | other => exact hphase
  | _ => exact nofun

theorem step_stopped (h : Step P e w w') (hw : w.phase ≠ .spawned ∧ w.running = false) :
    w'.phase ≠ .spawned ∧ w'.running = false := by
  refine ⟨step_ne_spawned h hw.1, ?_⟩
  rw [step_running h]
  cases h with
  | store _ hphase => exact absurd hphase hw.1
  | stop => rfl
  | _ => exact hw.2

section Runs

variable {events before after : List (WatchEvent σ Cid Ciphertext Addr)}
  {outside : WorkerEnv Cid Ciphertext Addr} {pool : σ}

theorem run_begun_le (h : Trace (Step P) w events w') : w.begun ≤ w'.begun := by
  refine h.invariant (p := fun v => w.begun ≤ v.begun) le_rfl fun e _ v v' hstep hv => ?_
  rcases step_begun hstep with hsame | ⟨-, -, hnext⟩
  · rwa [hsame]
  · omega

theorem running_of_store (h : Trace (Step P) w (.store :: after) w') (hstop : .stop ∉ after) :
    w'.running = true := by
  obtain ⟨v, hstore, hafter⟩ := Trace.cons_iff.mp h
  refine hafter.invariant (p := fun v => v.running = true) (step_running hstore) ?_
  intro e he v v' hstep hv
  rw [step_running hstep]
  cases e with
  | stop => exact absurd he hstop
  | store => rfl
  | _ => exact hv

theorem not_running_of_stop (h : Trace (Step P) w (.stop :: after) w')
    (hphase : w.phase ≠ .spawned) : w'.running = false := by
  obtain ⟨v, hstop, hafter⟩ := Trace.cons_iff.mp h
  have hv : v.phase ≠ .spawned ∧ v.running = false :=
    ⟨step_ne_spawned hstop hphase, step_running hstop⟩
  exact (hafter.invariant (p := fun v => v.phase ≠ .spawned ∧ v.running = false) hv
    fun _ _ _ _ hstep => step_stopped hstep).2

theorem not_running_of_not_stored (h : Trace (Step P) (new outside pool) events w)
    (hstore : .store ∉ events) : w.running = false := by
  refine h.invariant (p := fun v => v.running = false) rfl fun e he v v' hstep hv => ?_
  rw [step_running hstep]
  cases e with
  | store => exact absurd he hstore
  | stop => rfl
  | _ => exact hv

theorem not_running (h : Trace (Step P) (new outside pool) events w) (hstop : .stop ∈ events)
    (hlast : ∀ b₁ b₂, events = b₁ ++ .store :: b₂ → .stop ∈ b₁ → .stop ∈ b₂) :
    w.running = false := by
  by_cases hstore : .store ∈ events
  · obtain ⟨b₁, b₂, rfl⟩ := List.append_of_mem hstore
    have hb₂ : .stop ∈ b₂ := by
      rcases List.mem_append.mp hstop with hb₁ | hb₂
      · exact hlast b₁ b₂ rfl hb₁
      · exact (List.mem_cons.mp hb₂).resolve_left nofun
    obtain ⟨c₁, c₂, rfl⟩ := List.append_of_mem hb₂
    obtain ⟨v, -, hv⟩ := Trace.append_iff.mp h
    obtain ⟨v', hset, hv'⟩ := Trace.cons_iff.mp hv
    obtain ⟨u, hc₁, hu⟩ := Trace.append_iff.mp hv'
    have hphase : v'.phase ≠ .spawned := by
      cases hset
      exact nofun
    have huphase : u.phase ≠ .spawned :=
      hc₁.invariant (p := fun v => v.phase ≠ .spawned) hphase
        fun _ _ _ _ hstep => step_ne_spawned hstep
    exact not_running_of_stop hu huphase
  · exact not_running_of_not_stored h hstore

structure Coherent (w : PollingWatcher σ Cid Ciphertext Addr) : Prop where
  watching : w.phase ≠ .returned → w.tasks.watching = true
  listed : w.phase ≠ .sending → w.tasks.listed = []

theorem new_coherent : Coherent (new outside pool : PollingWatcher σ Cid Ciphertext Addr) :=
  ⟨fun _ => rfl, fun _ => rfl⟩

/-- To the worker, a watcher that was stopped is one whose poll failed. -/
theorem check_tasks (h : Coherent w) (hphase : w.phase = .checking) :
    Coherent (check w) ∧ Relation.ReflTransGen (PoolTasks.AnyStep P) w.tasks (check w).tasks := by
  have hwatching : w.tasks.watching = true := h.watching (by simp [hphase])
  have hlisted : w.tasks.listed = [] := h.listed (by simp [hphase])
  unfold check
  split_ifs
  · exact ⟨⟨fun _ => hwatching, fun _ => hlisted⟩, .refl⟩
  · refine ⟨⟨fun hne => absurd rfl hne, fun _ => hlisted⟩, .single ⟨.poll none, ?_⟩⟩
    exact .poll none w.tasks hwatching hlisted

theorem answer_tasks (h : Coherent w) (a : Option Bytes) (hphase : w.phase = .polling) :
    Coherent (answer a w) ∧
      Relation.ReflTransGen (PoolTasks.AnyStep P) w.tasks (answer a w).tasks := by
  have hwatching : w.tasks.watching = true := h.watching (by simp [hphase])
  have hlisted : w.tasks.listed = [] := h.listed (by simp [hphase])
  refine ⟨?_, .single ⟨.poll a, .poll a w.tasks hwatching hlisted⟩⟩
  cases hdec : PoolTasks.decodePoll a with
  | none =>
    simp only [answer, PoolTasks.poll, hdec]
    exact ⟨fun hne => absurd rfl hne, fun _ => hlisted⟩
  | some requests =>
    simp only [answer, PoolTasks.poll, hdec, hwatching, if_true]
    exact ⟨fun _ => rfl, fun hne => absurd rfl hne⟩

theorem send_tasks (h : Coherent w) {req : DecryptionRequest} {rest : List DecryptionRequest}
    (hphase : w.phase = .sending) (hlisted : w.tasks.listed = req :: rest) :
    Coherent (send P req rest w) ∧
      Relation.ReflTransGen (PoolTasks.AnyStep P) w.tasks (send P req rest w).tasks := by
  have hwatching : w.tasks.watching = true := h.watching (by simp [hphase])
  refine ⟨?_, .single ⟨.send, .send req rest w.tasks hwatching hlisted⟩⟩
  obtain ⟨-, hdropped, -⟩ := poolTasks_send P req rest w.tasks
  unfold send
  dsimp only
  split_ifs with hon
  · exact ⟨fun _ => hon, fun hne => absurd rfl hne⟩
  · exact ⟨fun hne => absurd rfl hne, fun _ => hdropped (Bool.eq_false_iff.mpr hon) hwatching⟩

theorem step_tasks (h : Coherent w) (hstep : Step P e w w') :
    Coherent w' ∧ Relation.ReflTransGen (PoolTasks.AnyStep P) w.tasks w'.tasks := by
  cases hstep with
  | stop => exact ⟨⟨h.watching, h.listed⟩, .refl⟩
  | store _ hphase =>
    have hwatching : w.tasks.watching = true := h.watching (by simp [hphase])
    exact ⟨⟨fun _ => hwatching, fun _ => h.listed (by simp [hphase])⟩, .refl⟩
  | check _ hphase => exact check_tasks h hphase
  | lock _ hphase =>
    have hwatching : w.tasks.watching = true := h.watching (by simp [hphase])
    exact ⟨⟨fun _ => hwatching, fun _ => h.listed (by simp [hphase])⟩, .refl⟩
  | answer a _ hphase => exact answer_tasks h a hphase
  | send req rest _ hphase hlisted => exact send_tasks h hphase hlisted
  | sleep _ hphase hlisted =>
    have hwatching : w.tasks.watching = true := h.watching (by simp [hphase])
    exact ⟨⟨fun _ => hwatching, fun _ => hlisted⟩, .refl⟩
  | wake _ hphase =>
    have hwatching : w.tasks.watching = true := h.watching (by simp [hphase])
    exact ⟨⟨fun _ => hwatching, fun _ => h.listed (by simp [hphase])⟩, .refl⟩
  | other event _ tasks he htasks =>
    obtain ⟨hwatching, hlisted, -⟩ := poolTasks_ofWorker he htasks
    refine ⟨⟨fun hne => ?_, fun hne => ?_⟩, .single ⟨event, htasks⟩⟩
    · exact hwatching.trans (h.watching hne)
    · exact hlisted.trans (h.listed hne)

theorem run_tasks (h : Trace (Step P) (new outside pool) events w) : Coherent w ∧
    Relation.ReflTransGen (PoolTasks.AnyStep P) (PoolTasks.start outside pool) w.tasks := by
  refine h.invariant (p := fun v => Coherent v ∧ Relation.ReflTransGen (PoolTasks.AnyStep P)
    (PoolTasks.start outside pool) v.tasks) ⟨new_coherent, .refl⟩ fun e _ v v' hstep hv => ?_
  obtain ⟨hcoherent, hrun⟩ := step_tasks hv.1 hstep
  exact ⟨hcoherent, hv.2.trans hrun⟩

theorem staysStopped_of_within (hw : Coherent w) (h : Within w w') (hbegun : w'.begun = w.begun) :
    StaysStopped w w' := by
  obtain ⟨answer, new, hpolled, hsent, hsub, hawait⟩ := h.sent
  have hnew : new.Sublist (w.tasks.listed ++ answer) := (List.sublist_append_left ..).trans hsub
  refine ⟨hbegun, ?_, ⟨answer, new, hpolled, hsent, hnew, hawait⟩, fun hidle => ?_⟩
  · have := h.reads
    omega
  · rw [UnderWay, not_or] at hidle
    obtain rfl : answer = [] := by
      by_contra hne
      exact hidle.1 (hawait hne)
    rw [hw.listed hidle.2] at hnew
    obtain rfl := List.sublist_nil.mp hnew
    simpa using hsent

theorem within_of_not_running {pre post : List (WatchEvent σ Cid Ciphertext Addr)}
    (h : Trace (Step P) (new outside pool) (pre ++ [.stop]) w) (hpost : Trace (Step P) w post w')
    (hoff : ∀ before v, before ++ [.check] <+: post → Trace (Step P) (new outside pool)
      (pre ++ [.stop] ++ before) v → v.running = false) :
    Within w w' ∧ w'.begun = w.begun := by
  induction post using List.reverseRecOn generalizing w' with
  | nil =>
    rw [Trace.eq_of_nil hpost]
    exact ⟨.refl w, rfl⟩
  | append_singleton post e ih =>
    obtain ⟨v, hv, hstep⟩ := Trace.concat_iff.mp hpost
    obtain ⟨hwithin, hbegun⟩ := ih hv fun before u hbefore =>
      hoff before u (hbefore.trans (List.prefix_append ..))
    have hsame : w'.begun = v.begun := by
      rcases step_begun hstep with hsame | ⟨rfl, hrunning, -⟩
      · exact hsame
      · have hclear := hoff post v List.prefix_rfl (Trace.append_iff.mpr ⟨w, h, hv⟩)
        rw [hclear] at hrunning
        cases hrunning
    exact ⟨step_within hwithin hstep hsame, hsame.trans hbegun⟩

theorem begun_lt_of_check (h : Trace (Step P) w (before ++ .store :: after ++ [.check]) w')
    (hstop : .stop ∉ after) : w.begun < w'.begun := by
  obtain ⟨v, hv, hcheck⟩ := Trace.concat_iff.mp h
  obtain ⟨u, -, hstored⟩ := Trace.append_iff.mp hv
  have hrunning := running_of_store hstored hstop
  have hle := run_begun_le hv
  cases hcheck with
  | check _ hphase =>
    simp only [check, hrunning, if_true]
    omega

/-- A stop is lost when it comes before `watch` sets the flag, so that the next
check finds it set. All others are heeded. -/
theorem stays_stopped_iff (hrun : Trace (Step P) (new outside pool) events w) :
    Heeded P (new outside pool) events ↔
      ∀ b₁ b₂, b₁ ++ .store :: b₂ ++ [.check] <+: events → .stop ∈ b₁ → .stop ∈ b₂ := by
  constructor
  · intro h b₁ b₂ hprefix hb₁
    by_contra hb₂
    obtain ⟨c₁, c₂, rfl⟩ := List.append_of_mem hb₁
    have hsplit : c₁ ++ .stop :: c₂ ++ .store :: b₂ ++ [.check] =
        c₁ ++ [.stop] ++ (c₂ ++ .store :: b₂ ++ [.check]) := by simp
    obtain ⟨rest, rfl⟩ := hprefix
    obtain ⟨v', hfirst, -⟩ := Trace.append_iff.mp hrun
    rw [hsplit] at hfirst
    obtain ⟨v, hv, hv'⟩ := Trace.append_iff.mp hfirst
    have hstays := h c₁ (c₂ ++ .store :: b₂ ++ [.check]) v v' ⟨rest, by simp⟩ hv hv'
    have hlt := begun_lt_of_check hv' hb₂
    rw [hstays.begun] at hlt
    exact lt_irrefl _ hlt
  · intro h pre post v v' hprefix hv hv'
    have hoff : ∀ before u, before ++ [.check] <+: post → Trace (Step P) (new outside pool)
        (pre ++ [.stop] ++ before) u → u.running = false := by
      intro before u hbefore hu
      refine not_running hu (by simp) fun b₁ b₂ hsplit hb₁ => h b₁ b₂ ?_ hb₁
      have hpost : pre ++ [.stop] ++ before ++ [.check] <+: pre ++ .stop :: post := by
        rw [List.append_assoc, List.append_assoc]
        exact (List.prefix_append_right_inj _).mpr
          ((List.prefix_append_right_inj [.stop]).mpr hbefore)
      rw [hsplit] at hpost
      exact hpost.trans hprefix
    obtain ⟨hwithin, hbegun⟩ := within_of_not_running hv hv' hoff
    exact staysStopped_of_within (run_tasks hv).1 hwithin hbegun

end Runs

section Sample

open PoolTasks

def lockedWatcher : PollingWatcher Unit Bytes Bytes Bytes := new (lockedEnv none) ()

def lateStart : List (WatchEvent Unit Bytes Bytes Bytes) :=
  [.store, .check, .lock, .answer (some lockedAnswer), .send]

theorem lateStart_sends : ∃ w, Trace (Step Worker.plainPrimitives) lockedWatcher lateStart w ∧
    w.sent = [lockedRequest] :=
  ⟨_, .cons (.store _ rfl) (.cons (.check _ rfl) (.cons (.lock _ rfl)
    (.cons (.answer _ _ rfl) (.cons (.send lockedRequest [] _ rfl rfl) (.nil _))))), rfl⟩

/-- The flag is clear before the task is started, and clearing it once more
keeps nothing from being polled and sent. -/
theorem early_stop_lost : ∃ w,
    Trace (Step Worker.plainPrimitives) lockedWatcher (.stop :: lateStart) w ∧
    w.sent = [lockedRequest] ∧
    ¬ Heeded Worker.plainPrimitives lockedWatcher (.stop :: lateStart) := by
  obtain ⟨w, hlate, hsent⟩ := lateStart_sends
  have hstop : Step Worker.plainPrimitives .stop lockedWatcher lockedWatcher := .stop lockedWatcher
  refine ⟨w, .cons hstop hlate, hsent, fun h => ?_⟩
  have hstays := h [] lateStart lockedWatcher w List.prefix_rfl (.cons hstop (.nil _)) hlate
  have hidle := hstays.idle (by simp [UnderWay, Awaiting, lockedWatcher, new])
  rw [hsent] at hidle
  cases hidle

def promptStop : List (WatchEvent Unit Bytes Bytes Bytes) := [.store, .stop, .check]

theorem stays_stopped_iff_promptStop :
    Heeded Worker.plainPrimitives lockedWatcher promptStop := by
  have hrun : Trace (Step Worker.plainPrimitives) lockedWatcher promptStop _ :=
    .cons (.store _ rfl) (.cons (.stop _) (.cons (.check _ rfl) (.nil _)))
  refine (stays_stopped_iff hrun).mpr fun b₁ b₂ hprefix hb₁ => ?_
  cases b₁ with
  | nil => exact absurd hb₁ List.not_mem_nil
  | cons e b₁ =>
    obtain ⟨-, hrest⟩ := List.cons_prefix_cons.mp hprefix
    have hstore : WatchEvent.store ∈ promptStop.tail := hrest.subset (by simp)
    simp [promptStop] at hstore

end Sample

end PollingWatcher

end Fangorn
