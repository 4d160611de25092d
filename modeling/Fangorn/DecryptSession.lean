import Fangorn.Worker

/-! A decryption session of the client: the handler that forwards messages from
any peer (`client/node.rs`), the loop of `handle_decrypt` that reads them
(`crypto/cipher.rs`) and the plaintext store (`storage/local_store.rs`). -/

namespace Fangorn

open Rust Ink Scale

structure RawPartialDecryptionMessage (Share : Type) where
  filename : Bytes
  index : UInt8
  partialDecryption : Share

structure LagPublicKey where
  id : Nat
  position : Nat

def maxCommitteeSize : Nat := 2

structure FileSystem where
  createDirAll : Str → Bool
  write : Str → Bytes → Bool

structure SessionEnv (Cid Ciphertext Share : Type) where
  cid : CidLib Cid
  ciphertextOfBytes : Bytes → Option Ciphertext
  shareOfBytes : Bytes → Option Share
  zeroShare : Share
  lagPks : List LagPublicKey
  aggDec : List Share → Ciphertext → List Bool → Option Bytes
  blake2 : Bytes → Arr 32
  chain : Chain
  intentStore : AccountId
  docRead : Str → Outcome Str (Option Bytes)
  fs : FileSystem

/-- The arguments of a call of `agg_dec`, and the messages received by then. -/
structure AggCall (Ciphertext Share : Type) where
  partialDecryptions : List Share
  ciphertext : Ciphertext
  selector : List Bool
  received : List (RawPartialDecryptionMessage Share)

structure WrittenFile (Ciphertext Share : Type) where
  path : Str
  data : Bytes
  ciphertext : Ciphertext
  message : RawPartialDecryptionMessage Share

structure Session (Ciphertext Share : Type) where
  partialDecryptions : List Share
  idx : Nat
  received : List (RawPartialDecryptionMessage Share)
  aggCalls : List (AggCall Ciphertext Share)
  written : List (WrittenFile Ciphertext Share)

inductive SessionStatus where
  | waiting
  | complete
  | panicked
  deriving DecidableEq, Repr

namespace PartialDecryptionHandler

variable {Share : Type} (shareOfBytes : Bytes → Option Share)

/-- What `accept` forwards for the bytes of a connection. -/
def accept (bytes : Bytes) : Outcome Str (RawPartialDecryptionMessage Share) := do
  .assert (bytes.length ≤ 1024 * 1024)
  let (msg, _) ← .expect (PartialDecryptionMessage.codec.decode bytes)
  let partialDecryption ← .expect (shareOfBytes msg.partialDecryptionBytes)
  .ok ⟨msg.filename, msg.index, partialDecryption⟩

def forwarded (connections : List Bytes) : List (RawPartialDecryptionMessage Share) :=
  connections.filterMap fun bytes =>
    match accept shareOfBytes bytes with
    | .ok raw => some raw
    | _ => none

end PartialDecryptionHandler

namespace LocalPlaintextStore

def ptDir : Str := "tmp/plaintexts/".toList

def filepath (filename : Str) : Str := ptDir ++ filename

def writePlaintext (fs : FileSystem) (filename : Str) (data : Bytes) : Outcome Str Str :=
  if !fs.createDirAll ptDir then .err "create_dir_all".toList
  else if !fs.write (filepath filename) data then .panic
  else .ok (filepath filename)

/-- Follows path components down from a directory; `none` when one of them
leads out of it. -/
def walk : List Str → List Str → Option (List Str)
  | stack, [] => some stack
  | stack, c :: cs =>
    if c = [] ∨ c = ['.'] then walk stack cs
    else if c = ['.', '.'] then
      match stack with
      | [] => none
      | _ :: stack => walk stack cs
    else walk (c :: stack) cs

def StaysInside (filename : Str) : Prop := (walk [] (split ['/'] filename)).isSome

def Inside (dir path : Str) : Prop := ∃ filename, path = dir ++ filename ∧ StaysInside filename

theorem inside_filepath {filename : Str} :
    Inside ptDir (filepath filename) ↔ StaysInside filename := by
  constructor
  · intro h
    obtain ⟨other, he, hin⟩ := h
    rwa [List.append_cancel_left he]
  · intro h
    exact ⟨filename, rfl, h⟩

theorem writePlaintext_eq_ok {fs : FileSystem} {filename path : Str} {data : Bytes} :
    writePlaintext fs filename data = .ok path ↔
      fs.createDirAll ptDir = true ∧ fs.write (filepath filename) data = true ∧
        filepath filename = path := by
  unfold writePlaintext
  cases fs.createDirAll ptDir <;> cases fs.write (filepath filename) data <;> simp

end LocalPlaintextStore

namespace DecryptSession

open LocalPlaintextStore PartialDecryptionHandler

variable {Cid Ciphertext Share : Type}

section Handler

variable (env : SessionEnv Cid Ciphertext Share)

def openCiphertext (filename : Bytes) : Outcome Str Ciphertext := do
  let found ← (ContractIntentStore.getIntent env.cid env.blake2 env.chain env.intentStore
    filename).unwrap
  let (cid, _) ← .expect found
  let found ← (IrohDocStore.fetch env.cid env.docRead cid).unwrap
  let ciphertextBytes ← .expect found
  .expect (env.ciphertextOfBytes ciphertextBytes)

def selector : List Bool := (List.replicate maxCommitteeSize false).set 0 true

/-- The share goes to the position of the key at `idx`. The result of
`idx.saturating_add(1)` is dropped, so `idx` stays. -/
def storeShare (raw : RawPartialDecryptionMessage Share) (s : Session Ciphertext Share) :
    Option (Session Ciphertext Share) := do
  let pk ← env.lagPks[s.idx]?
  if pk.position < s.partialDecryptions.length then
    some { s with
      partialDecryptions := s.partialDecryptions.set pk.position raw.partialDecryption }
  else none

def saveToStore (raw : RawPartialDecryptionMessage Share) (shares : List Share)
    (ciphertext : Ciphertext) : Outcome Str (Str × Bytes) := do
  let plainBytes ← .expect (env.aggDec shares ciphertext selector)
  let filename ← .expect (fromUtf8 raw.filename)
  let path ← (writePlaintext env.fs filename plainBytes).unwrap
  .ok (path, plainBytes)

def handleMessage (raw : RawPartialDecryptionMessage Share) (s : Session Ciphertext Share) :
    Outcome Str Unit × Session Ciphertext Share :=
  let s := { s with received := s.received ++ [raw] }
  match storeShare env raw s with
  | none => (.panic, s)
  | some s =>
    match openCiphertext env raw.filename with
    | .err _ => (.panic, s)
    | .panic => (.panic, s)
    | .ok ciphertext =>
      let s := { s with
        aggCalls := s.aggCalls ++ [⟨s.partialDecryptions, ciphertext, selector, s.received⟩] }
      match saveToStore env raw s.partialDecryptions ciphertext with
      | .err _ => (.panic, s)
      | .panic => (.panic, s)
      | .ok (path, data) =>
        (.ok (), { s with written := s.written ++ [⟨path, data, ciphertext, raw⟩] })

/-- The loop over the channel: it is left after a message that went well, and
a panic takes the session down. -/
def run : List (RawPartialDecryptionMessage Share) → Session Ciphertext Share →
    SessionStatus × Session Ciphertext Share
  | [], s => (.waiting, s)
  | raw :: _, s =>
    match handleMessage env raw s with
    | (.ok _, s) => (.complete, s)
    | (_, s) => (.panicked, s)

def start : Session Ciphertext Share where
  partialDecryptions := List.replicate env.lagPks.length env.zeroShare
  idx := 0
  received := []
  aggCalls := []
  written := []

end Handler

section Effects

variable (env : SessionEnv Cid Ciphertext Share) (raw : RawPartialDecryptionMessage Share)

def Reaches (shares : List Share) (ciphertext : Ciphertext) : Prop :=
  (∃ pk ∈ env.lagPks.head?, pk.position < env.lagPks.length ∧
    shares = (List.replicate env.lagPks.length env.zeroShare).set pk.position
      raw.partialDecryption) ∧
  openCiphertext env raw.filename = .ok ciphertext

variable {env raw}

theorem saveToStore_eq_ok {shares : List Share} {ciphertext : Ciphertext} {path : Str}
    {data : Bytes} : saveToStore env raw shares ciphertext = .ok (path, data) ↔
      ∃ filename, raw.filename = asBytes filename ∧
        env.aggDec shares ciphertext selector = some data ∧
        env.fs.createDirAll ptDir = true ∧ env.fs.write (filepath filename) data = true ∧
        filepath filename = path := by
  simp only [saveToStore, Outcome.bind_eq_ok, Outcome.expect_eq_ok, Outcome.unwrap_eq_ok,
    writePlaintext_eq_ok, fromUtf8_eq_some, Outcome.ok.injEq, Prod.mk.injEq]
  constructor
  · intro h
    obtain ⟨plain, hagg, filename, hname, path, ⟨hdir, hwrite, rfl⟩, rfl, rfl⟩ := h
    exact ⟨filename, hname, hagg, hdir, hwrite, rfl⟩
  · intro h
    obtain ⟨filename, hname, hagg, hdir, hwrite, rfl⟩ := h
    exact ⟨data, hagg, filename, hname, _, ⟨hdir, hwrite, rfl⟩, rfl, rfl⟩

variable (env raw) in
theorem storeShare_start_eq_some {s : Session Ciphertext Share} :
    storeShare env raw { start env with received := [raw] } = some s ↔
      ∃ pk ∈ env.lagPks.head?, pk.position < env.lagPks.length ∧
        { start env with
          received := [raw]
          partialDecryptions := (List.replicate env.lagPks.length env.zeroShare).set pk.position
            raw.partialDecryption } = s := by
  simp only [storeShare, start, List.length_replicate, Option.bind_eq_bind,
    Option.bind_eq_some_iff, Option.ite_none_right_eq_some, Option.some.injEq,
    List.head?_eq_getElem?, Option.mem_def]

variable (env raw) in
theorem handle_stuck (h : ∀ shares ciphertext, ¬ Reaches env raw shares ciphertext) :
    (handleMessage env raw (start env)).1 = .panic ∧
      (handleMessage env raw (start env)).2.aggCalls = [] ∧
      (handleMessage env raw (start env)).2.written = [] := by
  have hreceive : { start env with received := (start env).received ++ [raw] } =
      { start env with received := [raw] } := rfl
  rw [handleMessage, hreceive]
  cases hstore : storeShare env raw { start env with received := [raw] } with
  | none => exact ⟨rfl, rfl, rfl⟩
  | some s =>
    obtain ⟨pk, hpk, hlt, rfl⟩ := (storeShare_start_eq_some env raw).mp hstore
    cases hopen : openCiphertext env raw.filename with
    | ok ciphertext => exact absurd ⟨⟨pk, hpk, hlt, rfl⟩, hopen⟩ (h _ ciphertext)
    | err e => exact ⟨rfl, rfl, rfl⟩
    | panic => exact ⟨rfl, rfl, rfl⟩

theorem handle_reaches {shares : List Share} {ciphertext : Ciphertext}
    (h : Reaches env raw shares ciphertext) :
    (handleMessage env raw (start env)).2.aggCalls = [⟨shares, ciphertext, selector, [raw]⟩] ∧
      (handleMessage env raw (start env)).2.written =
        match saveToStore env raw shares ciphertext with
        | .ok (path, data) => [⟨path, data, ciphertext, raw⟩]
        | _ => [] := by
  obtain ⟨⟨pk, hpk, hlt, rfl⟩, hopen⟩ := h
  have hstore := (storeShare_start_eq_some env raw).mpr ⟨pk, hpk, hlt, rfl⟩
  have hreceive : { start env with received := (start env).received ++ [raw] } =
      { start env with received := [raw] } := rfl
  rw [handleMessage, hreceive, hstore, hopen]
  dsimp only
  cases saveToStore env raw _ ciphertext with
  | ok saved => exact ⟨rfl, rfl⟩
  | err e => exact ⟨rfl, rfl⟩
  | panic => exact ⟨rfl, rfl⟩

variable (env raw) in
theorem run_cons (queue : List (RawPartialDecryptionMessage Share))
    (s : Session Ciphertext Share) :
    (run env (raw :: queue) s).2 = (handleMessage env raw s).2 ∧
      (run env (raw :: queue) s).1 ≠ .waiting := by
  rw [run]
  rcases handleMessage env raw s with ⟨o, s'⟩
  cases o <;> exact ⟨rfl, nofun⟩

end Effects

section Shares

structure Committee (pks : List LagPublicKey) : Prop where
  nonempty : pks ≠ []
  positions : (pks.map LagPublicKey.position).Perm (List.range pks.length)

/-- Each share at its sender's index, and the selector true just there. -/
structure Placed (call : AggCall Ciphertext Share) : Prop where
  stored : ∀ m ∈ call.received,
    call.partialDecryptions[m.index.toNat]? = some m.partialDecryption
  selected : ∀ i, call.selector[i]?.getD false = true ↔ ∃ m ∈ call.received, m.index.toNat = i

/-- A session that receives something for a file at hand calls `agg_dec`, and
every call is given all shares in their places. -/
structure SharesPlaced (env : SessionEnv Cid Ciphertext Share) (filename : Bytes)
    (queue : List (RawPartialDecryptionMessage Share)) : Prop where
  called : queue ≠ [] → (∃ ciphertext, openCiphertext env filename = .ok ciphertext) →
    (run env queue (start env)).2.aggCalls ≠ []
  placed : ∀ call ∈ (run env queue (start env)).2.aggCalls, Placed call

variable {env : SessionEnv Cid Ciphertext Share} {raw : RawPartialDecryptionMessage Share}

theorem Committee.head {pks : List LagPublicKey} (h : Committee pks) :
    ∃ pk, pks.head? = some pk ∧ pk.position < pks.length := by
  obtain ⟨pk, rest, rfl⟩ := List.exists_cons_of_ne_nil h.nonempty
  have hmem := h.positions.mem_iff.mp
    (List.mem_map_of_mem (List.mem_cons_self (a := pk) (l := rest)))
  exact ⟨pk, rfl, List.mem_range.mp hmem⟩

theorem selector_getD (i : Nat) : selector[i]?.getD false = true ↔ i = 0 := by
  rcases i with _ | _ | i <;> simp [selector, maxCommitteeSize]

theorem placed_iff {pk : LagPublicKey} {n : Nat} (raw : RawPartialDecryptionMessage Share)
    (zero : Share) (ciphertext : Ciphertext) (hpos : pk.position < n) :
    Placed (⟨(List.replicate n zero).set pk.position raw.partialDecryption, ciphertext, selector,
      [raw]⟩ : AggCall Ciphertext Share) ↔
      raw.index = 0 ∧ (pk.position = 0 ∨ raw.partialDecryption = zero) := by
  have hindex : raw.index.toNat = 0 ↔ raw.index = 0 := by
    rw [← UInt8.toNat_inj]
    rfl
  have hslot : ((List.replicate n zero).set pk.position raw.partialDecryption)[0]? =
      some raw.partialDecryption ↔ pk.position = 0 ∨ raw.partialDecryption = zero := by
    have hn : 0 < n := by omega
    by_cases hp : pk.position = 0
    · simp [hp, hn]
    · simp [hp, hn, eq_comm]
  constructor
  · intro h
    have hzero : raw.index.toNat = 0 := by
      obtain ⟨m, hm, hi⟩ := (h.selected 0).mp ((selector_getD 0).mpr rfl)
      rwa [← List.mem_singleton.mp hm]
    have hstored := h.stored raw (List.mem_singleton_self raw)
    rw [hzero] at hstored
    exact ⟨hindex.mp hzero, hslot.mp hstored⟩
  · intro h
    have hzero := hindex.mpr h.1
    refine ⟨fun m hm => ?_, fun i => ?_⟩
    · rw [List.mem_singleton.mp hm, hzero]
      exact hslot.mpr h.2
    · change selector[i]?.getD false = true ↔ ∃ m ∈ [raw], m.index.toNat = i
      rw [selector_getD]
      simp [hzero, eq_comm]

/-- The index of a message is never read. So the shares are in their places
exactly when the first message is worker zero's and the first key that of
position zero (or the share is the value of an empty slot). -/
theorem shares_placed_iff (filename : Bytes) (connections : List Bytes)
    (hcommittee : Committee env.lagPks)
    (hfile : ∀ m ∈ forwarded env.shareOfBytes connections, m.filename = filename) :
    SharesPlaced env filename (forwarded env.shareOfBytes connections) ↔
      ((∃ ciphertext, openCiphertext env filename = .ok ciphertext) →
        ∀ m ∈ (forwarded env.shareOfBytes connections).head?, m.index = 0 ∧
          ((∃ pk ∈ env.lagPks.head?, pk.position = 0) ∨ m.partialDecryption = env.zeroShare)) := by
  obtain ⟨pk, hpk, hpos⟩ := hcommittee.head
  cases hqueue : forwarded env.shareOfBytes connections with
  | nil =>
    constructor
    · intro _ _ m hm
      simp at hm
    · intro _
      exact ⟨fun hne => absurd rfl hne, fun call hcall => by simp [run, start] at hcall⟩
  | cons raw queue =>
    have hname : raw.filename = filename := hfile raw (by simp [hqueue])
    have hrun := (run_cons env raw queue (start env)).1
    by_cases hopen : ∃ ciphertext, openCiphertext env filename = .ok ciphertext
    · obtain ⟨ciphertext, hct⟩ := hopen
      have hcalls := (handle_reaches ⟨⟨pk, hpk, hpos, rfl⟩, hname.symm ▸ hct⟩).1
      rw [← hrun] at hcalls
      have hplaced := placed_iff raw env.zeroShare ciphertext hpos
      constructor
      · intro h _ m hm
        obtain rfl : raw = m := by simpa using hm
        have hcall := h.placed _ (hcalls ▸ List.mem_singleton_self _)
        obtain ⟨hindex, hslot⟩ := hplaced.mp hcall
        exact ⟨hindex, hslot.imp (fun hp => ⟨pk, hpk, hp⟩) id⟩
      · intro h
        obtain ⟨hindex, hslot⟩ := h ⟨ciphertext, hct⟩ raw rfl
        refine ⟨fun _ _ => by simp [hcalls], fun call hcall => ?_⟩
        rw [hcalls, List.mem_singleton] at hcall
        rw [hcall]
        refine hplaced.mpr ⟨hindex, hslot.imp (fun hp => ?_) id⟩
        obtain ⟨pk', hpk', hp⟩ := hp
        obtain rfl : pk = pk' := Option.some.inj (hpk.symm.trans hpk')
        exact hp
    · have hstuck := (handle_stuck env raw fun shares ciphertext hreach =>
        hopen ⟨ciphertext, hname ▸ hreach.2⟩).2.1
      rw [← hrun] at hstuck
      constructor
      · intro _ hyes
        exact absurd hyes hopen
      · intro _
        exact ⟨fun _ hyes => absurd hyes hopen, fun call hcall => by simp [hstuck] at hcall⟩

def sampleEnv : SessionEnv Bytes Bytes Bytes where
  cid := ⟨id, some, fun _ => []⟩
  ciphertextOfBytes := some
  shareOfBytes := some
  zeroShare := []
  lagPks := [⟨0, 0⟩, ⟨1, 1⟩]
  aggDec _ ciphertext _ := some ciphertext
  blake2 _ := beArr 32 0
  chain := ⟨fun _ _ => .ok [0, 1, 0, 4, 0], fun _ => .ok none⟩
  intentStore := beArr 32 0
  docRead _ := .ok (some [2, 4, 9])
  fs := ⟨fun _ => true, fun _ _ => true⟩

def fromWorkerOne : List Bytes := [[4, 102, 1, 4, 7]]

theorem forwarded_fromWorkerOne :
    forwarded sampleEnv.shareOfBytes fromWorkerOne = [⟨[102], 1, [7]⟩] := rfl

theorem sample_committee : Committee sampleEnv.lagPks := ⟨by decide, by decide⟩

theorem worker_one_misplaced : Committee sampleEnv.lagPks ∧
    (∀ m ∈ forwarded sampleEnv.shareOfBytes fromWorkerOne, m.filename = [102]) ∧
    ¬ SharesPlaced sampleEnv [102] (forwarded sampleEnv.shareOfBytes fromWorkerOne) := by
  refine ⟨sample_committee, by simp [forwarded_fromWorkerOne], fun h => ?_⟩
  rw [forwarded_fromWorkerOne] at h
  have hplaced := h.placed ⟨[[7], []], [9], selector, [⟨[102], 1, [7]⟩]⟩ List.mem_cons_self
  have hstored := hplaced.stored _ List.mem_cons_self
  simp at hstored

theorem shares_placed_iff_worker_one :
    SharesPlaced sampleEnv [102] (forwarded sampleEnv.shareOfBytes fromWorkerOne) ↔
      ((∃ ciphertext, openCiphertext sampleEnv [102] = .ok ciphertext) →
        ∀ m ∈ (forwarded sampleEnv.shareOfBytes fromWorkerOne).head?, m.index = 0 ∧
          ((∃ pk ∈ sampleEnv.lagPks.head?, pk.position = 0) ∨ m.partialDecryption = [])) :=
  shares_placed_iff [102] fromWorkerOne sample_committee (by simp [forwarded_fromWorkerOne])

end Shares

section Requested

/-- The session writes for messages about the requested file only, from its
ciphertext and to its place, and waits through all others. -/
structure OnlyRequested (env : SessionEnv Cid Ciphertext Share) (filename : Str)
    (queue : List (RawPartialDecryptionMessage Share)) : Prop where
  answers : ∀ file ∈ (run env queue (start env)).2.written,
    file.message.filename = asBytes filename
  registered : ∀ file ∈ (run env queue (start env)).2.written,
    openCiphertext env (asBytes filename) = .ok file.ciphertext
  inside : ∀ file ∈ (run env queue (start env)).2.written,
    file.path = filepath filename ∧ Inside ptDir file.path
  waits : ∀ pre, pre <+: queue → (∀ m ∈ pre, m.filename ≠ asBytes filename) →
    (run env pre (start env)).1 = .waiting ∧ (run env pre (start env)).2.written = []

def Writes (env : SessionEnv Cid Ciphertext Share) (raw : RawPartialDecryptionMessage Share) :
    Prop :=
  ∃ shares ciphertext saved, Reaches env raw shares ciphertext ∧
    saveToStore env raw shares ciphertext = .ok saved

variable {env : SessionEnv Cid Ciphertext Share} {raw : RawPartialDecryptionMessage Share}

theorem written_of_writes (queue : List (RawPartialDecryptionMessage Share))
    (h : Writes env raw) : ∃ file ∈ (run env (raw :: queue) (start env)).2.written,
      file.message = raw := by
  obtain ⟨shares, ciphertext, ⟨path, data⟩, hreach, hsave⟩ := h
  have hwritten := (handle_reaches hreach).2
  rw [hsave] at hwritten
  rw [(run_cons env raw queue (start env)).1, hwritten]
  exact ⟨_, List.mem_cons_self, rfl⟩

theorem written_cases {queue : List (RawPartialDecryptionMessage Share)}
    {file : WrittenFile Ciphertext Share}
    (h : file ∈ (run env (raw :: queue) (start env)).2.written) :
    Writes env raw ∧ file.message = raw ∧
      openCiphertext env raw.filename = .ok file.ciphertext ∧
      ∃ filename, raw.filename = asBytes filename ∧ file.path = filepath filename := by
  rw [(run_cons env raw queue (start env)).1] at h
  by_cases hreach : ∃ shares ciphertext, Reaches env raw shares ciphertext
  · obtain ⟨shares, ciphertext, hreach⟩ := hreach
    rw [(handle_reaches hreach).2] at h
    cases hsave : saveToStore env raw shares ciphertext with
    | ok saved =>
      obtain ⟨path, data⟩ := saved
      rw [hsave] at h
      obtain rfl := List.mem_singleton.mp h
      obtain ⟨filename, hname, -, -, -, hpath⟩ := saveToStore_eq_ok.mp hsave
      exact ⟨⟨shares, ciphertext, _, hreach, hsave⟩, rfl, hreach.2, filename, hname, hpath.symm⟩
    | err e => simp [hsave] at h
    | panic => simp [hsave] at h
  · have hstuck := (handle_stuck env raw fun shares ciphertext hr =>
      hreach ⟨shares, ciphertext, hr⟩).2.2
    simp [hstuck] at h

/-- The requested filename is not looked at again. So the session keeps to it
exactly when the first message names it and its path stays in the directory. -/
theorem only_requested_iff (env : SessionEnv Cid Ciphertext Share) (filename : Str)
    (connections : List Bytes) :
    OnlyRequested env filename (forwarded env.shareOfBytes connections) ↔
      ∀ m ∈ (forwarded env.shareOfBytes connections).head?, m.filename = asBytes filename ∧
        (Writes env m → StaysInside filename) := by
  cases forwarded env.shareOfBytes connections with
  | nil =>
    constructor
    · intro _ m hm
      simp at hm
    · intro _
      refine ⟨?_, ?_, ?_, fun pre hpre _ => ?_⟩
      iterate 3 exact fun file hfile => by simp [run, start] at hfile
      rw [List.prefix_nil.mp hpre]
      exact ⟨rfl, rfl⟩
  | cons raw queue =>
    constructor
    · intro h m hm
      obtain rfl : raw = m := by simpa using hm
      have hname : raw.filename = asBytes filename := by
        by_contra hne
        have hwaits := (h.waits [raw] (by simp) (by simpa using hne)).1
        exact (run_cons env raw [] (start env)).2 hwaits
      refine ⟨hname, fun hwrites => ?_⟩
      obtain ⟨file, hfile, -⟩ := written_of_writes queue hwrites
      obtain ⟨hpath, hin⟩ := h.inside file hfile
      exact inside_filepath.mp (hpath ▸ hin)
    · intro h
      obtain ⟨hname, hstays⟩ := h raw rfl
      refine ⟨fun file hfile => ?_, fun file hfile => ?_, fun file hfile => ?_,
        fun pre hpre hother => ?_⟩
      · obtain ⟨-, hm, -⟩ := written_cases hfile
        rw [hm, hname]
      · obtain ⟨-, -, hopen, -⟩ := written_cases hfile
        rw [← hname, hopen]
      · obtain ⟨hwrites, -, -, name, hasname, hpath⟩ := written_cases hfile
        have heq : name = filename := asBytes_injective (hasname.symm.trans hname)
        subst heq
        exact ⟨hpath, hpath ▸ inside_filepath.mpr (hstays hwrites)⟩
      · cases pre with
        | nil => exact ⟨rfl, rfl⟩
        | cons m pre =>
          obtain ⟨rest, hrest⟩ := hpre
          obtain rfl : m = raw := (List.cons.inj hrest).1
          exact absurd hname (hother m List.mem_cons_self)

def fromStranger : List Bytes := [[16, 46, 46, 47, 120, 0, 4, 7]]

/-- While `f` is waited for, a file outside of the directory is written. -/
theorem stranger_writes_outside :
    (run sampleEnv (forwarded sampleEnv.shareOfBytes fromStranger) (start sampleEnv)).2.written.map
      (fun file => file.path) = ["tmp/plaintexts/../x".toList] ∧
    ¬ OnlyRequested sampleEnv "f".toList (forwarded sampleEnv.shareOfBytes fromStranger) := by
  have hqueue : forwarded sampleEnv.shareOfBytes fromStranger =
      [⟨[46, 46, 47, 120], 0, [7]⟩] := rfl
  rw [hqueue]
  refine ⟨rfl, fun h => ?_⟩
  have hname := h.answers ⟨_, [9], [9], ⟨[46, 46, 47, 120], 0, [7]⟩⟩ List.mem_cons_self
  revert hname
  decide

end Requested

end DecryptSession

end Fangorn
