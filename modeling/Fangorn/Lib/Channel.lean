import Mathlib.Data.List.Basic
import Mathlib.Data.List.Infix

/-! Unbounded channels and a task that loops over what it receives: whatever
the schedule of senders and task, the loop runs over what was sent, in order. -/

structure Channel (α : Type*) where
  queue : List α
  senders : Nat

namespace Channel

inductive Received (α : Type*) where
  | message (a : α)
  | empty
  | disconnected

inductive Task (σ : Type*) where
  | running (s : σ)
  | left (s : σ)
  | closed (s : σ)

inductive Event (α : Type*) where
  | send (a : α)
  | poll

variable {α σ : Type*}

def Event.isPoll : Event α → Bool
  | .poll => true
  | .send _ => false

/-- Without a sender nobody is there to send. -/
def send (a : α) (c : Channel α) : Channel α :=
  if c.senders = 0 then c else { c with queue := c.queue ++ [a] }

def recv (c : Channel α) : Received α × Channel α :=
  match c.queue with
  | a :: queue => (.message a, { c with queue := queue })
  | [] => (if c.senders = 0 then .disconnected else .empty, c)

/-- The loop over a list of messages; its body tells whether it is left. -/
def loop (body : α → σ → Bool × σ) : List α → σ → Task σ
  | [], s => .running s
  | a :: as, s =>
    match body a s with
    | (true, s) => .left s
    | (false, s) => loop body as s

def exec (body : α → σ → Bool × σ) : Event α → Channel α × Task σ → Channel α × Task σ
  | .send a, (c, t) => (c.send a, t)
  | .poll, (c, .running s) =>
    match c.recv with
    | (.message a, c) => (c, loop body [a] s)
    | (.empty, c) => (c, .running s)
    | (.disconnected, c) => (c, .closed s)
  | .poll, (c, t) => (c, t)

def run (body : α → σ → Bool × σ) (events : List (Event α)) (start : Channel α × Task σ) :
    Channel α × Task σ :=
  events.foldl (fun state event => exec body event state) start

def sends (events : List (Event α)) : List α :=
  events.filterMap fun event =>
    match event with
    | .send a => some a
    | .poll => none

variable {body : α → σ → Bool × σ} {events : List (Event α)} {as bs : List α} {s : σ} {n : Nat}

theorem loop_append : loop body (as ++ bs) s =
    match loop body as s with
    | .running s => loop body bs s
    | t => t := by
  induction as generalizing s with
  | nil => rfl
  | cons a as ih =>
    rw [List.cons_append, loop, loop]
    rcases body a s with ⟨left, s'⟩
    cases left with
    | true => rfl
    | false => exact ih

variable (body as bs s) in
/-- With a sender, a poll of a loop that goes on takes the next message. -/
theorem exec_poll (hopen : 0 < n) : ∃ k, exec body .poll (⟨bs, n⟩, loop body as s) =
    (⟨bs.drop k, n⟩, loop body (as ++ bs.take k) s) := by
  have hn : n ≠ 0 := by omega
  cases hloop : loop body as s with
  | running s' =>
    cases bs with
    | nil =>
      refine ⟨0, ?_⟩
      simp [exec, recv, hn, hloop]
    | cons b bs =>
      refine ⟨1, ?_⟩
      simp [exec, recv, loop_append, hloop]
  | left s' =>
    refine ⟨0, ?_⟩
    simp [exec, hloop]
  | closed s' =>
    refine ⟨0, ?_⟩
    simp [exec, hloop]

theorem sends_append (events events' : List (Event α)) :
    sends (events ++ events') = sends events ++ sends events' := List.filterMap_append

/-- What was sent is what the loop has run over, and then what still waits. -/
def Conserves (body : α → σ → Bool × σ) (s : σ) (n : Nat) (sent : List α)
    (state : Channel α × Task σ) : Prop :=
  ∃ taken queue, state = (⟨queue, n⟩, loop body taken s) ∧ taken ++ queue = sent

theorem Conserves.exec (hopen : 0 < n) {sent : List α} {state : Channel α × Task σ}
    (h : Conserves body s n sent state) (event : Event α) :
    Conserves body s n (sent ++ sends [event]) (exec body event state) := by
  obtain ⟨taken, queue, rfl, rfl⟩ := h
  cases event with
  | send a =>
    have hn : n ≠ 0 := by omega
    refine ⟨taken, queue ++ [a], ?_, by simp [sends]⟩
    simp [Channel.exec, send, hn]
  | poll =>
    obtain ⟨k, hk⟩ := exec_poll body taken queue s hopen
    refine ⟨taken ++ queue.take k, queue.drop k, hk, ?_⟩
    simp [sends, List.append_assoc]

theorem run_conserves (hopen : 0 < n) {sent : List α} {state : Channel α × Task σ}
    (h : Conserves body s n sent state) (events : List (Event α)) :
    Conserves body s n (sent ++ sends events) (run body events state) := by
  induction events generalizing sent state with
  | nil => simpa [run, sends] using h
  | cons event events ih =>
    have hstep := ih (h.exec hopen event)
    rw [List.append_assoc] at hstep
    rw [← List.singleton_append, sends_append]
    exact hstep

/-- Without a sender nothing arrives, and the first poll closes the loop. -/
theorem run_deserted (events : List (Event α)) (s : σ) :
    run body events (⟨[], 0⟩, .running s) =
      (⟨[], 0⟩, if events.any Event.isPoll then .closed s else .running s) := by
  have hclosed (events : List (Event α)) :
      run body events (⟨[], 0⟩, .closed s) = (⟨[], 0⟩, .closed s) := by
    induction events with
    | nil => rfl
    | cons event events ih => cases event <;> exact ih
  induction events with
  | nil => rfl
  | cons event events ih =>
    cases event with
    | send a => exact ih
    | poll => exact hclosed events

end Channel
