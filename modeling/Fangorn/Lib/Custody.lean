import Mathlib.Data.List.Infix
import Mathlib.Data.List.Induction
import Mathlib.Logic.Function.Basic

/-! Things kept at places, each behind a secret. A deposit takes a place over,
with a secret of its own. The depositors of before still know their own secrets;
the first call that a secret does not open locks its caller out. -/

namespace Custody

inductive Standing (Place Secret : Type) where
  | tenant (place : Place) (secret : Secret)
  | barred

structure State (Holder Place Secret Thing : Type) where
  kept : Place → Option (Secret × Thing)
  standing : Holder → Option (Standing Place Secret)

inductive Event (Holder Place Secret Thing : Type) where
  | deposit (holder : Holder) (place : Place) (secret : Secret) (thing : Thing)
  | call (holder : Holder)
  | leave (holder : Holder)

inductive Answer (Thing : Type) where
  | stranger
  | refused
  | served (thing : Thing)

section Definitions

variable {Holder Place Secret Thing : Type} [DecidableEq Holder] [DecidableEq Place]
  [DecidableEq Secret]

def answer (s : State Holder Place Secret Thing) (h : Holder) : Answer Thing :=
  match s.standing h with
  | none => .stranger
  | some .barred => .refused
  | some (.tenant p k) =>
    match s.kept p with
    | some (k', v) => if k = k' then .served v else .refused
    | none => .refused

def exec (s : State Holder Place Secret Thing) :
    Event Holder Place Secret Thing → State Holder Place Secret Thing
  | .deposit h p k v =>
    { kept := Function.update s.kept p (some (k, v))
      standing := Function.update s.standing h (some (.tenant p k)) }
  | .call h =>
    match answer s h with
    | .refused => { s with standing := Function.update s.standing h (some .barred) }
    | _ => s
  | .leave h => { s with standing := Function.update s.standing h none }

def run (s : State Holder Place Secret Thing) (events : List (Event Holder Place Secret Thing)) :
    State Holder Place Secret Thing :=
  events.foldl exec s

def depositAt (p : Place) : Event Holder Place Secret Thing → Option (Secret × Thing)
  | .deposit _ p' k v => if p' = p then some (k, v) else none
  | _ => none

/-- What lies at a place where `first` lay before these events. -/
def latest (p : Place) (first : Secret × Thing) (events : List (Event Holder Place Secret Thing)) :
    Secret × Thing :=
  (events.filterMap (depositAt p)).getLast?.getD first

/-- The holder neither leaves nor deposits anything again. -/
def Stays (h : Holder) (events : List (Event Holder Place Secret Thing)) : Prop :=
  .leave h ∉ events ∧ ∀ p k v, .deposit h p k v ∉ events

/-- Each call of the holder came when the secret opened the place. -/
def Opened (h : Holder) (p : Place) (first : Secret × Thing)
    (events : List (Event Holder Place Secret Thing)) : Prop :=
  ∀ pre, pre ++ [.call h] <+: events → (latest p first pre).1 = first.1

end Definitions

section Runs

variable {Holder Place Secret Thing : Type} [DecidableEq Holder] [DecidableEq Place]
  [DecidableEq Secret] {s : State Holder Place Secret Thing} {h : Holder} {p : Place} {k : Secret}
  {v : Thing} {first : Secret × Thing} {events : List (Event Holder Place Secret Thing)}
  {e : Event Holder Place Secret Thing}

theorem run_concat : run s (events ++ [e]) = exec (run s events) e := by
  rw [run, List.foldl_append]
  rfl

omit [DecidableEq Holder] [DecidableEq Place] in
theorem answer_of_tenant (hs : s.standing h = some (.tenant p k)) (hp : s.kept p = some first) :
    answer s h = if k = first.1 then .served first.2 else .refused := by
  rw [answer, hs]
  dsimp only
  rw [hp]

omit [DecidableEq Holder] [DecidableEq Place] in
theorem answer_of_barred (hs : s.standing h = some .barred) : answer s h = .refused := by
  rw [answer, hs]

theorem exec_call_of_served {thing : Thing} (ha : answer s h = .served thing) :
    exec s (.call h) = s := by
  simp only [exec, ha]

theorem exec_call_of_refused (ha : answer s h = .refused) :
    exec s (.call h) = { s with standing := Function.update s.standing h (some .barred) } := by
  simp only [exec, ha]

theorem kept_call : (exec s (.call h)).kept = s.kept := by
  simp only [exec]
  split <;> rfl

theorem kept_exec (hp : s.kept p = some first) :
    (exec s e).kept p = some (((depositAt p e).getD first)) := by
  cases e with
  | deposit h p' k v =>
    by_cases he : p' = p
    · subst he
      simp [exec, depositAt]
    · simp [exec, depositAt, he, Function.update_of_ne (Ne.symm he), hp]
  | call h => rw [kept_call, hp]; rfl
  | leave h => exact hp

omit [DecidableEq Holder] [DecidableEq Secret] in
theorem latest_concat : latest p first (events ++ [e]) =
    (depositAt p e).getD (latest p first events) := by
  cases he : depositAt p e with
  | none => simp [latest, List.filterMap_append, he]
  | some x => simp [latest, List.filterMap_append, he]

theorem kept_run (hp : s.kept p = some first) :
    (run s events).kept p = some (latest p first events) := by
  induction events using List.reverseRecOn with
  | nil => exact hp
  | append_singleton events e ih => rw [run_concat, kept_exec ih, latest_concat]

theorem standing_exec_of_stays (hstays : Stays h [e]) (he : e ≠ .call h) :
    (exec s e).standing h = s.standing h := by
  obtain ⟨hleave, hdeposit⟩ := hstays
  cases e with
  | deposit h' p k v =>
    have hne : h ≠ h' := by
      rintro rfl
      exact hdeposit p k v (List.mem_singleton_self _)
    simp only [exec, Function.update_of_ne hne]
  | call h' =>
    have hne : h ≠ h' := by
      rintro rfl
      exact he rfl
    simp only [exec]
    split
    · exact Function.update_of_ne hne ..
    · rfl
  | leave h' =>
    have hne : h ≠ h' := by
      rintro rfl
      exact hleave (List.mem_singleton_self _)
    simp only [exec, Function.update_of_ne hne]

omit [DecidableEq Holder] [DecidableEq Place] [DecidableEq Secret] in
theorem Stays.of_concat (hstays : Stays h (events ++ [e])) : Stays h events ∧ Stays h [e] := by
  obtain ⟨hleave, hdeposit⟩ := hstays
  simp only [List.mem_append, not_or] at hleave hdeposit
  exact ⟨⟨hleave.1, fun p k v => (hdeposit p k v).1⟩, ⟨hleave.2, fun p k v => (hdeposit p k v).2⟩⟩

omit [DecidableEq Holder] [DecidableEq Secret] in
theorem opened_concat : Opened h p first (events ++ [e]) ↔
    Opened h p first events ∧ (e = .call h → (latest p first events).1 = first.1) := by
  constructor
  · intro hopen
    refine ⟨fun pre hpre => hopen pre (hpre.trans (List.prefix_append ..)), ?_⟩
    rintro rfl
    exact hopen events List.prefix_rfl
  · intro hopen pre hpre
    rw [List.prefix_concat_iff] at hpre
    rcases hpre with heq | hpre
    · obtain ⟨rfl, he⟩ := List.append_inj' heq rfl
      exact hopen.2 (List.singleton_injective he).symm
    · exact hopen.1 pre hpre

/-- A holder is let in for as long as each call found the place under its
secret. -/
theorem standing_run (hp : s.kept p = some first)
    (hs : s.standing h = some (.tenant p first.1)) (hstays : Stays h events) :
    (Opened h p first events → (run s events).standing h = some (.tenant p first.1)) ∧
      (¬ Opened h p first events → (run s events).standing h = some .barred) := by
  induction events using List.reverseRecOn with
  | nil =>
    refine ⟨fun _ => hs, fun hclosed => absurd ?_ hclosed⟩
    intro pre hpre
    simp at hpre
  | append_singleton events e ih =>
    obtain ⟨hbefore, hlast⟩ := hstays.of_concat
    obtain ⟨hopen, hclosed⟩ := ih hbefore
    rw [opened_concat, run_concat]
    by_cases he : e = .call h
    · subst he
      have hkept : (run s events).kept p = some (latest p first events) := kept_run hp
      by_cases ho : Opened h p first events
      · have hanswer := answer_of_tenant (hopen ho) hkept
        by_cases hk : first.1 = (latest p first events).1
        · rw [if_pos hk] at hanswer
          rw [exec_call_of_served hanswer]
          exact ⟨fun _ => hopen ho, fun hno => absurd ⟨ho, fun _ => hk.symm⟩ hno⟩
        · rw [if_neg hk] at hanswer
          rw [exec_call_of_refused hanswer]
          refine ⟨fun hno => absurd (hno.2 rfl).symm hk, fun _ => ?_⟩
          exact Function.update_self ..
      · rw [exec_call_of_refused (answer_of_barred (hclosed ho))]
        refine ⟨fun hno => absurd hno.1 ho, fun _ => ?_⟩
        exact Function.update_self ..
    · rw [standing_exec_of_stays hlast he]
      refine ⟨fun h => hopen h.1, fun hno => hclosed fun ho => hno ⟨ho, fun h => absurd h he⟩⟩

/-- What a tenant is served: the latest thing at its place, as long as its
secret opened the place at each of its calls and does so now. -/
theorem answer_run_of_tenant (hp : s.kept p = some first)
    (hs : s.standing h = some (.tenant p first.1)) (hstays : Stays h events) :
    answer (run s events) h = .served (latest p first events).2 ∧
        Opened h p first (events ++ [.call h]) ∨
      answer (run s events) h = .refused ∧ ¬ Opened h p first (events ++ [.call h]) := by
  have hkept : (run s events).kept p = some (latest p first events) := kept_run hp
  obtain ⟨hopen, hclosed⟩ := standing_run hp hs hstays
  rw [opened_concat]
  by_cases ho : Opened h p first events
  · have hanswer := answer_of_tenant (hopen ho) hkept
    by_cases hk : first.1 = (latest p first events).1
    · rw [if_pos hk] at hanswer
      exact Or.inl ⟨hanswer, ho, fun _ => hk.symm⟩
    · rw [if_neg hk] at hanswer
      exact Or.inr ⟨hanswer, fun hno => hk (hno.2 rfl).symm⟩
  · exact Or.inr ⟨answer_of_barred (hclosed ho), fun hno => ho hno.1⟩

/-- So it is for a depositor after its deposit. -/
theorem answer_run (hstays : Stays h events) :
    answer (run (exec s (.deposit h p k v)) events) h = .served (latest p (k, v) events).2 ∧
        Opened h p (k, v) (events ++ [.call h]) ∨
      answer (run (exec s (.deposit h p k v)) events) h = .refused ∧
        ¬ Opened h p (k, v) (events ++ [.call h]) :=
  answer_run_of_tenant (Function.update_self ..) (Function.update_self ..) hstays

end Runs

end Custody
