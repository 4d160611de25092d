import Fangorn.Lib.Scale
import Mathlib.Data.List.Nodup

/-! ink! contracts as their callers see them. A call carries the first four
bytes of the hash of a message name and the encoded arguments; the contract
runs the message of that selector on its storage. -/

namespace Ink

open Rust

abbrev AccountId := Arr 32

abbrev Mapping (κ ν : Type) := κ → Option ν

namespace Mapping

variable {κ ν : Type}

def new : Mapping κ ν := fun _ => none

def contains (m : Mapping κ ν) (k : κ) : Bool := (m k).isSome

@[simp] theorem new_apply (k : κ) : (new : Mapping κ ν) k = none := rfl

theorem contains_iff {m : Mapping κ ν} {k : κ} : m.contains k = true ↔ ∃ v, m k = some v :=
  Option.isSome_iff_exists

variable [DecidableEq κ]

def insert (m : Mapping κ ν) (k : κ) (v : ν) : Mapping κ ν := Function.update m k (some v)

def take (m : Mapping κ ν) (k : κ) : Option ν × Mapping κ ν := (m k, Function.update m k none)

@[simp] theorem insert_self (m : Mapping κ ν) (k : κ) (v : ν) : m.insert k v k = some v :=
  Function.update_self ..

theorem insert_of_ne (m : Mapping κ ν) {k k' : κ} (v : ν) (h : k' ≠ k) :
    m.insert k v k' = m k' := Function.update_of_ne h ..

theorem insert_apply (m : Mapping κ ν) (k k' : κ) (v : ν) :
    m.insert k v k' = if k' = k then some v else m k' := by
  by_cases h : k' = k
  · simp [h]
  · simp [insert_of_ne m v h, h]

theorem take_snd_apply (m : Mapping κ ν) (k k' : κ) :
    (m.take k).2 k' = if k' = k then none else m k' := by
  by_cases h : k' = k
  · subst h; simp [take]
  · simp [take, h]

end Mapping

/-- What a call leaves behind: a trap, or output bytes with the new storage.
A reverted call also has output, but its storage changes are undone. -/
inductive Exec (σ : Type) where
  | trap
  | done (revert : Bool) (data : Bytes) (state : σ)

structure Message (σ : Type) where
  name : Str
  exec : AccountId → Bytes → σ → Exec σ

/-- `LangError::CouldNotReadInput` as the contract returns it. -/
def couldNotReadInput : Bytes := [1, 1]

variable {σ ε α β ι : Type}

/-- A message returning `Result<T, E>`: an error reverts the call, and without
one the root of the storage is encoded and put back. The output is the encoded
result behind the `Ok` tag of the dispatch itself. -/
def Message.result (root : σ → Option Bytes) (name : Str) (dec : Scale.Decoder ι)
    (call : AccountId → ι → σ → Except ε α × σ) (enc : Except ε α → Option Bytes) :
    Message σ where
  name := name
  exec caller input s :=
    match dec input with
    | none => .done true couldNotReadInput s
    | some (args, _) =>
      let (r, s') := call caller args s
      match enc r with
      | none => .trap
      | some out =>
        match r with
        | .ok _ => if (root s').isSome then .done false (0 :: out) s' else .trap
        | .error _ => .done true (0 :: out) s

def Message.view (name : Str) (dec : Scale.Decoder ι) (get : ι → σ → α)
    (enc : α → Option Bytes) : Message σ where
  name := name
  exec _ input s :=
    match dec input with
    | none => .done true couldNotReadInput s
    | some (args, _) =>
      match enc (get args s) with
      | none => .trap
      | some out => .done false (0 :: out) s

def noArgs : Scale.Decoder Unit := fun b => some ((), b)

section Call

variable (blake2 : Bytes → Arr 32)

def selector (name : Str) : Bytes := (blake2 (asBytes name)).1.take 4

def dispatch (msgs : List (Message σ)) (sel : Bytes) : Option (Message σ) :=
  msgs.find? fun m => selector blake2 m.name = sel

def run (msgs : List (Message σ)) (caller : AccountId) (input : Bytes) (s : σ) : Exec σ :=
  match dispatch blake2 msgs (input.take 4) with
  | none => .done true couldNotReadInput s
  | some m => m.exec caller (input.drop 4) s

/-- A call by transaction. It fails unless the contract returns without a
revert; only then its storage changes stay. -/
def transact (msgs : List (Message σ)) (caller : AccountId) (input : Bytes) (s : σ) : Option σ :=
  match run blake2 msgs caller input s with
  | .done false _ s' => some s'
  | _ => none

/-- A call that is only evaluated: the output counts, also of a reverted one. -/
def query (msgs : List (Message σ)) (caller : AccountId) (input : Bytes) (s : σ) : Option Bytes :=
  match run blake2 msgs caller input s with
  | .done _ data _ => some data
  | .trap => none

@[simp] theorem selector_length (name : Str) : (selector blake2 name).length = 4 := by
  rw [selector, List.length_take, (blake2 _).2]
  rfl

theorem run_selector (msgs : List (Message σ)) (caller : AccountId) (name : Str) (args : Bytes)
    (s : σ) : run blake2 msgs caller (selector blake2 name ++ args) s =
      match dispatch blake2 msgs (selector blake2 name) with
      | none => .done true couldNotReadInput s
      | some m => m.exec caller args s := by
  have hl := selector_length blake2 name
  rw [run, List.take_left' hl, List.drop_left' hl]

theorem dispatch_eq_none {msgs : List (Message σ)} {name : Str}
    (h : ∀ m ∈ msgs, selector blake2 m.name ≠ selector blake2 name) :
    dispatch blake2 msgs (selector blake2 name) = none := by
  rw [dispatch, List.find?_eq_none]
  simpa using h

/-- No two messages of a contract share a selector: ink! refuses to build one. -/
def UniqueSelectors (msgs : List (Message σ)) : Prop :=
  (msgs.map fun m => selector blake2 m.name).Nodup

variable {blake2}

theorem dispatch_of_mem {msgs : List (Message σ)} (hu : UniqueSelectors blake2 msgs)
    {m : Message σ} (hm : m ∈ msgs) : dispatch blake2 msgs (selector blake2 m.name) = some m := by
  induction msgs with
  | nil => cases hm
  | cons first rest ih =>
    have hnd := List.nodup_cons.mp hu
    rw [List.mem_cons] at hm
    by_cases he : m = first
    · subst he
      exact List.find?_cons_of_pos (decide_eq_true rfl)
    · have hrest : m ∈ rest := hm.resolve_left he
      have hskip : ¬ selector blake2 first.name = selector blake2 m.name := by
        intro hsel
        exact hnd.1 (List.mem_map.mpr ⟨m, hrest, hsel.symm⟩)
      rw [dispatch, List.find?_cons_of_neg (by simpa using hskip)]
      exact ih hnd.2 hrest

theorem query_view {msgs : List (Message σ)} (hu : UniqueSelectors blake2 msgs) {name : Str}
    {dec : Scale.Decoder ι} {get : ι → σ → α} {enc : α → Option Bytes}
    (hm : Message.view name dec get enc ∈ msgs) {args rest : Bytes} {i : ι}
    (hdec : dec args = some (i, rest)) (caller : AccountId) (s : σ) :
    query blake2 msgs caller (selector blake2 name ++ args) s =
      (enc (get i s)).map (0 :: ·) := by
  have hreach : dispatch blake2 msgs (selector blake2 name) =
      some (Message.view name dec get enc) := dispatch_of_mem hu hm
  rw [query, run_selector, hreach]
  simp only [Message.view, hdec]
  cases enc (get i s) <;> rfl

/-- A transaction goes through when the message returns `Ok` and the storage it
left can be encoded. -/
theorem transact_result {msgs : List (Message σ)} (hu : UniqueSelectors blake2 msgs)
    {root : σ → Option Bytes} {name : Str} {dec : Scale.Decoder ι}
    {call : AccountId → ι → σ → Except ε α × σ} {enc : Except ε α → Option Bytes}
    (hm : Message.result root name dec call enc ∈ msgs)
    {args rest : Bytes} {i : ι} (hdec : dec args = some (i, rest)) {caller : AccountId}
    {s t : σ} : transact blake2 msgs caller (selector blake2 name ++ args) s = some t ↔
      ∃ a, call caller i s = (.ok a, t) ∧ (enc (.ok a)).isSome ∧ (root t).isSome := by
  have hreach : dispatch blake2 msgs (selector blake2 name) =
      some (Message.result root name dec call enc) := dispatch_of_mem hu hm
  rw [transact, run_selector, hreach]
  simp only [Message.result, hdec]
  rcases hc : call caller i s with ⟨r, s'⟩
  rcases r with e | a
  · cases henc : enc (.error e) <;> simp
  · cases henc : enc (.ok a) with
    | none => simp [henc]
    | some out =>
      by_cases hroot : (root s').isSome = true
      · simp only [hroot, if_true, Option.some.injEq, Prod.mk.injEq]
        constructor
        · rintro rfl
          exact ⟨a, ⟨rfl, rfl⟩, by rw [henc]; rfl, hroot⟩
        · rintro ⟨_, ⟨-, rfl⟩, -, -⟩
          rfl
      · simp only [hroot, Bool.false_eq_true, if_false, reduceCtorEq, Prod.mk.injEq, false_iff]
        rintro ⟨_, ⟨-, rfl⟩, -, hsome⟩
        exact hroot hsome

end Call

end Ink
