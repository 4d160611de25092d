import Fangorn.Lib.Ink
import Mathlib.Data.List.Nodup
import Mathlib.Data.List.Perm.Basic
import Mathlib.Logic.Relation

/-! The predicate registry contract (`contract/predicate-registry/lib.rs`): a
map from filenames to entries that anybody may write and remove. -/

namespace Fangorn

open Rust Ink Scale

structure Entry where
  cid : Bytes
  predicate : Bytes
  deriving DecidableEq, Repr

inductive RegistryError where
  | filenameAlreadyExists
  | filenameNotFound
  | unauthorized
  deriving DecidableEq, Repr

structure PredicateRegistry where
  predicateRegistry : Mapping Bytes Entry
  filenames : List Bytes

namespace Entry

def codec : Codec Entry :=
  (Codec.bytes.pair Codec.bytes).view (fun e => (e.cid, e.predicate)) (fun p => some ⟨p.1, p.2⟩)
    (fun e p => by
      obtain ⟨c, d⟩ := e
      obtain ⟨c', d'⟩ := p
      simp [eq_comm])

end Entry

namespace RegistryError

def index : RegistryError → UInt8
  | filenameAlreadyExists => 0
  | filenameNotFound => 1
  | unauthorized => 2

end RegistryError

namespace PredicateRegistry

def new : PredicateRegistry := ⟨.new, []⟩

def registerPredicate (filename cid predicate : Bytes) (s : PredicateRegistry) :
    Except RegistryError Unit × PredicateRegistry :=
  if s.predicateRegistry.contains filename then (.error .filenameAlreadyExists, s)
  else
    (.ok (), { s with
      predicateRegistry := s.predicateRegistry.insert filename ⟨cid, predicate⟩
      filenames := s.filenames ++ [filename] })

def read (filename : Bytes) (s : PredicateRegistry) : Option Entry := s.predicateRegistry filename

def readAll (s : PredicateRegistry) : List Bytes := s.filenames

def swapRemove (l : List Bytes) (pos : Nat) : List Bytes :=
  match l.getLast? with
  | none => l
  | some last => (l.set pos last).dropLast

def removePredicate (filename : Bytes) (s : PredicateRegistry) :
    Except RegistryError Entry × PredicateRegistry :=
  match s.predicateRegistry.take filename with
  | (none, _) => (.error .filenameNotFound, s)
  | (some entry, registry) =>
    let filenames := match s.filenames.findIdx? (· = filename) with
      | some pos => swapRemove s.filenames pos
      | none => s.filenames
    (.ok entry, { s with predicateRegistry := registry, filenames := filenames })

section Messages

/-- The mapping has cells of its own, and nothing is ever put into the queue of
requests behind the filenames. -/
def rootStorage (s : PredicateRegistry) : Option Bytes :=
  (Codec.bytes.seq.pair Codec.bytes.seq).encode (s.filenames, [])

def encodeResult {α : Type} (enc : α → Option Bytes) : Except RegistryError α → Option Bytes
  | .ok a => (enc a).map (0 :: ·)
  | .error e => some [1, e.index]

def registerMessage : Message PredicateRegistry :=
  .result rootStorage "register_predicate".toList
    (Codec.bytes.pair (Codec.bytes.pair Codec.bytes)).decode
    (fun _ args s => registerPredicate args.1 args.2.1 args.2.2 s) (encodeResult fun _ => some [])

def readMessage : Message PredicateRegistry :=
  .view "read".toList Codec.bytes.decode read Entry.codec.opt.encode

def removeMessage : Message PredicateRegistry :=
  .result rootStorage "remove_predicate".toList Codec.bytes.decode
    (fun _ filename s => removePredicate filename s) (encodeResult Entry.codec.encode)

def messages : List (Message PredicateRegistry) :=
  [registerMessage, readMessage,
   .view "read_all".toList noArgs (fun _ s => s.readAll) Codec.bytes.seq.encode,
   removeMessage]

end Messages

/-- A call that may change the registry. The contract never looks at who makes it. -/
inductive Call where
  | register (filename cid predicate : Bytes)
  | remove (filename : Bytes)

def Call.filename : Call → Bytes
  | register filename _ _ => filename
  | remove filename => filename

def Call.exec : Call → PredicateRegistry → Except RegistryError (Option Entry) × PredicateRegistry
  | register filename cid predicate, s =>
    let (result, s') := registerPredicate filename cid predicate s
    (result.map fun _ => none, s')
  | remove filename, s =>
    let (result, s') := removePredicate filename s
    (result.map some, s')

def Reachable (s : PredicateRegistry) : Prop :=
  Relation.ReflTransGen (fun t t' => ∃ c : Call, t' = (c.exec t).2) new s

variable {s : PredicateRegistry} {filename f : Bytes}

variable (s filename f) in
theorem registerPredicate_read (cid predicate : Bytes) :
    (registerPredicate filename cid predicate s).2.read f =
      if f = filename ∧ s.read filename = none then some ⟨cid, predicate⟩ else s.read f := by
  by_cases hc : ∃ e, s.predicateRegistry filename = some e
  · obtain ⟨e, he⟩ := hc
    have hcon := Mapping.contains_iff.mpr ⟨e, he⟩
    simp [registerPredicate, hcon, read, he]
  · have hnone : s.predicateRegistry filename = none := by
      cases h : s.predicateRegistry filename with
      | none => rfl
      | some e => exact absurd ⟨e, h⟩ hc
    simp [registerPredicate, Mapping.contains, read, hnone, Mapping.insert_apply]

theorem read_of_registered {cid predicate : Bytes} {s' : PredicateRegistry}
    (h : registerPredicate filename cid predicate s = (.ok (), s')) :
    s'.read filename = some ⟨cid, predicate⟩ := by
  unfold registerPredicate at h
  split_ifs at h with hc
  · cases h
  · obtain ⟨-, rfl⟩ := Prod.mk.inj h
    exact Mapping.insert_self ..

variable (s filename f) in
theorem removePredicate_read :
    (removePredicate filename s).2.read f = if f = filename then none else s.read f := by
  cases h : s.predicateRegistry filename with
  | none =>
    have hs : (removePredicate filename s).2 = s := by simp [removePredicate, Mapping.take, h]
    rw [hs]
    by_cases hf : f = filename
    · simp [read, hf, h]
    · simp [hf]
  | some e =>
    have hreg : (removePredicate filename s).2.predicateRegistry =
        (s.predicateRegistry.take filename).2 := by
      simp [removePredicate, Mapping.take, h]
    rw [read, hreg, Mapping.take_snd_apply]
    rfl

/-- One more filename fits the encoding of the list. -/
def HasRoom (filename : Bytes) (s : PredicateRegistry) : Prop :=
  (Codec.bytes.seq.encode (s.filenames ++ [filename])).isSome

theorem hasRoom_iff {cid predicate : Bytes} {s' : PredicateRegistry}
    (h : registerPredicate filename cid predicate s = (.ok (), s')) :
    s.HasRoom filename ↔ s'.rootStorage.isSome := by
  unfold registerPredicate at h
  split_ifs at h with hc
  · cases h
  · obtain ⟨-, rfl⟩ := Prod.mk.inj h
    simp [HasRoom, rootStorage, Codec.seq_encode_isSome]

section Calls

variable {blake2 : Bytes → Arr 32} {args : Bytes}

/-- A registration by transaction: the constructor lists it first, so its
selector always reaches it. -/
theorem transact_register {cid predicate : Bytes} (caller : AccountId) (s : PredicateRegistry)
    (h : (Codec.bytes.pair (Codec.bytes.pair Codec.bytes)).encode (filename, cid, predicate) =
      some args) :
    transact blake2 messages caller (selector blake2 "register_predicate".toList ++ args) s =
      match registerPredicate filename cid predicate s with
      | (.ok _, s') => if (rootStorage s').isSome then some s' else none
      | (.error _, _) => none := by
  have hreach : dispatch blake2 messages (selector blake2 "register_predicate".toList) =
      some registerMessage := List.find?_cons_of_pos (decide_eq_true rfl)
  have hdec := Codec.decode_encode _ h
  rw [transact, run_selector, hreach]
  simp only [registerMessage, Message.result, hdec]
  rcases registerPredicate filename cid predicate s with ⟨_ | _, s'⟩
  · rfl
  · by_cases hroot : (rootStorage s').isSome = true <;> simp [hroot, encodeResult]

theorem query_read (hsel : selector blake2 "register_predicate".toList ≠
      selector blake2 "read".toList) (caller : AccountId) (s : PredicateRegistry)
    (h : Codec.bytes.encode filename = some args) :
    query blake2 messages caller (selector blake2 "read".toList ++ args) s =
      (Entry.codec.opt.encode (s.read filename)).map (0 :: ·) := by
  have hreach : dispatch blake2 messages (selector blake2 "read".toList) = some readMessage := by
    have hskip : ¬ selector blake2 registerMessage.name = selector blake2 "read".toList := hsel
    rw [dispatch, messages, List.find?_cons_of_neg (by simpa using hskip)]
    exact List.find?_cons_of_pos (decide_eq_true rfl)
  have hdec := Codec.decode_encode _ h
  rw [query, run_selector, hreach]
  simp only [readMessage, Message.view, hdec]
  cases Entry.codec.opt.encode (s.read filename) <;> rfl

end Calls

section Listing

structure Listed (s : PredicateRegistry) : Prop where
  nodup : s.filenames.Nodup
  mem_filenames : ∀ f, f ∈ s.filenames ↔ s.predicateRegistry.contains f

theorem swapRemove_perm {l : List Bytes} {pos : Nat} (h : pos < l.length) :
    (l[pos] :: swapRemove l pos).Perm l := by
  induction l using List.reverseRecOn with
  | nil => simp at h
  | append_singleton init last _ =>
    have hdrop : swapRemove (init ++ [last]) pos = ((init ++ [last]).set pos last).dropLast := by
      simp [swapRemove]
    by_cases hp : pos < init.length
    · have hset : swapRemove (init ++ [last]) pos = init.set pos last := by
        rw [hdrop, List.set_append_left _ _ hp, List.dropLast_concat]
      have hget : (init ++ [last])[pos] = init[pos] := List.getElem_append_left hp
      rw [hset, hget]
      have hperm := (List.set_perm_cons_eraseIdx hp last).cons init[pos]
      apply (hperm.trans (.swap ..)).trans
      apply ((List.getElem_cons_eraseIdx_perm hp).cons last).trans
      exact (List.perm_append_singleton last init).symm
    · -- the removed position is the last one, which is put in its own place
      have he : pos = init.length := by
        simp only [List.length_append, List.length_singleton] at h
        omega
      subst he
      have hset : swapRemove (init ++ [last]) init.length = init := by simp [hdrop]
      rw [hset]
      simpa using (List.perm_append_singleton last init).symm

theorem registerPredicate_of_some {e : Entry} (h : s.read filename = some e)
    (cid predicate : Bytes) :
    registerPredicate filename cid predicate s = (.error .filenameAlreadyExists, s) := by
  have hcon : s.predicateRegistry.contains filename = true := Mapping.contains_iff.mpr ⟨e, h⟩
  simp [registerPredicate, hcon]

theorem removePredicate_of_none (h : s.predicateRegistry filename = none) :
    removePredicate filename s = (.error .filenameNotFound, s) := by
  simp [removePredicate, Mapping.take, h]

theorem removePredicate_perm (h : Listed s) {e : Entry}
    (he : s.predicateRegistry filename = some e) :
    (removePredicate filename s).1 = .ok e ∧
      (filename :: (removePredicate filename s).2.filenames).Perm s.filenames := by
  have hmem : filename ∈ s.filenames :=
    (h.mem_filenames _).mpr (Mapping.contains_iff.mpr ⟨e, he⟩)
  have hfind := List.findIdx?_eq_some_of_exists (p := (· = filename))
    ⟨filename, hmem, decide_eq_true rfl⟩
  obtain ⟨hlt, hat, -⟩ := List.findIdx?_eq_some_iff_getElem.mp hfind
  have hperm := swapRemove_perm hlt
  rw [of_decide_eq_true hat] at hperm
  refine ⟨by simp [removePredicate, Mapping.take, he], ?_⟩
  simpa [removePredicate, Mapping.take, he, hfind] using hperm

theorem new_listed : Listed new :=
  ⟨List.nodup_nil, fun f => by simp [new, Mapping.contains]⟩

theorem registerPredicate_listed (h : Listed s) (cid predicate : Bytes) :
    Listed (registerPredicate filename cid predicate s).2 := by
  by_cases hc : s.predicateRegistry.contains filename = true
  · simpa [registerPredicate, hc] using h
  · have hfresh : filename ∉ s.filenames := fun hm => hc ((h.mem_filenames _).mp hm)
    simp only [registerPredicate, hc, Bool.false_eq_true, if_false]
    refine ⟨?_, fun f => ?_⟩
    · have hconcat := h.nodup.concat hfresh
      simpa using hconcat
    · by_cases hf : f = filename
      · simp [hf, Mapping.contains]
      · simp [hf, Mapping.contains, Mapping.insert_of_ne _ _ hf, h.mem_filenames]

theorem removePredicate_listed (h : Listed s) : Listed (removePredicate filename s).2 := by
  cases he : s.predicateRegistry filename with
  | none => rwa [removePredicate_of_none he]
  | some e =>
    have hperm := (removePredicate_perm h he).2
    have hnodup := List.nodup_cons.mp (hperm.nodup_iff.mpr h.nodup)
    refine ⟨hnodup.2, fun f => ?_⟩
    have hread := removePredicate_read s filename f
    have hmem := hperm.mem_iff (a := f)
    rw [List.mem_cons, h.mem_filenames] at hmem
    unfold read at hread
    by_cases hf : f = filename
    · rw [if_pos hf] at hread
      subst hf
      simp [Mapping.contains, hread, hnodup.1]
    · rw [if_neg hf] at hread
      simp only [hf, false_or] at hmem
      rw [hmem, Mapping.contains, Mapping.contains, hread]

theorem exec_listed (h : Listed s) (c : Call) : Listed (c.exec s).2 := by
  cases c with
  | register filename cid predicate => exact registerPredicate_listed h cid predicate
  | remove filename => exact removePredicate_listed h

theorem reachable_listed (h : Reachable s) : Listed s := by
  induction h with
  | refl => exact new_listed
  | tail _ hstep ih =>
    obtain ⟨c, rfl⟩ := hstep
    exact exec_listed ih c

theorem exec_error {c : Call} {e : RegistryError} (h : (c.exec s).1 = .error e) :
    (c.exec s).2 = s := by
  cases c with
  | register filename cid predicate =>
    by_cases hc : s.predicateRegistry.contains filename = true
    · simp [Call.exec, registerPredicate, hc]
    · simp [Call.exec, registerPredicate, hc, Except.map] at h
  | remove filename =>
    cases he : s.predicateRegistry filename with
    | none => simp [Call.exec, removePredicate_of_none he]
    | some entry => simp [Call.exec, removePredicate, Mapping.take, he, Except.map] at h

theorem exec_read_of_ne (c : Call) (hf : f ≠ c.filename) : (c.exec s).2.read f = s.read f := by
  cases c with
  | register filename cid predicate =>
    have hread := registerPredicate_read s filename f cid predicate
    rwa [if_neg fun hh => hf hh.1] at hread
  | remove filename =>
    have hne : f ≠ filename := hf
    have hread := removePredicate_read s filename f
    rwa [if_neg hne] at hread

theorem mem_readAll (h : Listed s) : f ∈ s.readAll ↔ (s.read f).isSome := h.mem_filenames f

/-- In every reachable state the list is an index of the mapping, and a call
touches nothing but the name it is about. -/
theorem reachable_index (h : Reachable s) :
    (s.readAll.Nodup ∧ (∀ f, f ∈ s.filenames ↔ s.predicateRegistry.contains f) ∧
      ∀ f, s.readAll.count f = if (s.read f).isSome then 1 else 0) ∧
    ∀ c : Call, (∀ e, (c.exec s).1 = .error e → (c.exec s).2 = s) ∧
      ∀ f, f ≠ c.filename → (f ∈ (c.exec s).2.readAll ↔ f ∈ s.readAll) ∧
        (c.exec s).2.read f = s.read f := by
  have hl := reachable_listed h
  refine ⟨⟨hl.nodup, hl.mem_filenames, fun f => ?_⟩, fun c => ⟨fun e => exec_error, ?_⟩⟩
  · by_cases hf : f ∈ s.readAll
    · rw [if_pos ((mem_readAll hl).mp hf)]
      exact List.count_eq_one_of_mem hl.nodup hf
    · rw [if_neg fun hr => hf ((mem_readAll hl).mpr hr)]
      exact List.count_eq_zero_of_not_mem hf
  · intro f hf
    have hread := exec_read_of_ne (s := s) c hf
    refine ⟨?_, hread⟩
    rw [mem_readAll (exec_listed hl c), mem_readAll hl, hread]

/-- Removing the first of two names moves the other one into its place. -/
theorem reachable_index_swapped :
    let s := ((Call.remove [1]).exec ((Call.register [2] [] []).exec
      ((Call.register [1] [] []).exec new).2).2).2
    s.readAll = [[2]] ∧ s.readAll.Nodup := by
  have hrun : Reachable ((Call.remove [1]).exec ((Call.register [2] [] []).exec
      ((Call.register [1] [] []).exec new).2).2).2 :=
    ((Relation.ReflTransGen.single ⟨_, rfl⟩).tail ⟨_, rfl⟩).tail ⟨_, rfl⟩
  exact ⟨by decide, (reachable_index hrun).1.1⟩

end Listing

end PredicateRegistry

end Fangorn
