import Fangorn.PoolClient
import Fangorn.WorkerLiveness

/-! The way of a request from the pool to its share: `PollingWatcher::watch`
(`pool/watcher.rs`) and the worker of `spawn_pool_watcher` (`node/service.rs`),
two tasks with a queue between them. -/

namespace Fangorn

open Rust Ink Scale GadgetRegistry

namespace Worker

variable {σ Cid Ciphertext Addr : Type}

section Echo

variable (P : Primitives) (env : WorkerEnv Cid Ciphertext Addr) (req : DecryptionRequest)

def Satisfying : Prop :=
  ∃ witness cid intents, Hex.decode req.witnessHex = some witness ∧
    Registered env req.filename cid intents ∧
    (deployed P env.chain).verifyIntents intents witness = .ok true

/-- The share for an accepted request, its ciphertext being in the document. -/
def ShareFor (receiver : Addr) (msgBytes : Bytes) : Prop :=
  ∃ witness cid intents content announcement rest ciphertext share,
    Hex.decode req.witnessHex = some witness ∧ Registered env req.filename cid intents ∧
    (deployed P env.chain).verifyIntents intents witness = .ok true ∧
    env.docRead (env.lib.cid.toString cid) = .ok (some content) ∧
    Announcement.codec.decode content = some (announcement, rest) ∧
    env.lib.ciphertextOfBytes announcement.data = some ciphertext ∧
    env.lib.partialDecryption ciphertext = some share ∧ env.index < 256 ∧
    PartialDecryptionMessage.codec.encode ⟨req.filename, UInt8.ofNat env.index, share⟩ =
      some msgBytes ∧
    env.lib.endpointOfBytes req.location = some receiver

/-- The receiver takes the message to its end and sends it back. -/
structure SendsBack (conn : Connection) (msgBytes : Bytes) : Prop where
  openBi : conn.openBi = true
  writeAll : conn.writeAll = true
  finish : conn.finish = true
  response : conn.response = some msgBytes

def Echoed (msgBytes : Bytes) : Prop :=
  ∃ receiver conn, ShareFor P env req receiver msgBytes ∧ env.connect receiver = some conn ∧
    SendsBack conn msgBytes

def delivers : Bool :=
  match prepare (deployed P env.chain) env req with
  | .ok (some release) =>
    match env.connect release.receiver with
    | some conn =>
      conn.openBi && conn.writeAll && conn.finish && conn.response == some release.msgBytes
    | none => false
  | _ => false

end Echo

variable {P : Primitives} {env : WorkerEnv Cid Ciphertext Addr} {req : DecryptionRequest}
  {attest : DecryptionRequest → σ → Outcome Unit σ}

theorem shareFor_iff {receiver : Addr} {msgBytes : Bytes} :
    ShareFor P env req receiver msgBytes ↔ ∃ release,
      prepare (deployed P env.chain) env req = .ok (some release) ∧
      release.receiver = receiver ∧ release.msgBytes = msgBytes := by
  constructor
  · intro h
    obtain ⟨witness, cid, intents, content, ⟨tag, data⟩, rest, ciphertext, share, hw, hreg, hv,
      hread, hdec, hct, hshare, hlt, hmsg, hrec⟩ := h
    have hfetch := (IrohDocStore.fetch_eq_some env.lib.cid).mpr ⟨content, tag, rest, hread, hdec⟩
    have hrel := releaseShare_eq_some_iff.mpr ⟨data, ciphertext, share, msgBytes, receiver, hfetch,
      hct, hshare, hlt, hmsg, hrec, rfl⟩
    have hget := getIntent_eq_some_iff.mpr hreg
    exact ⟨_, prepare_eq_some_iff.mpr ⟨witness, cid, intents, hw, hget, hv, hrel⟩, rfl, rfl⟩
  · intro h
    obtain ⟨release, hprep, rfl, rfl⟩ := h
    obtain ⟨witness, cid, intents, hw, hget, hv, hrel⟩ := prepare_eq_some_iff.mp hprep
    obtain ⟨data, ciphertext, share, _, _, hfetch, hct, hshare, hlt, hmsg, hrec, rfl⟩ :=
      releaseShare_eq_some_iff.mp hrel
    obtain ⟨content, tag, rest, hread, hdec⟩ :=
      (IrohDocStore.fetch_eq_some env.lib.cid).mp hfetch
    exact ⟨witness, cid, intents, content, ⟨tag, data⟩, rest, ciphertext, share, hw,
      getIntent_eq_some_iff.mp hget, hv, hread, hdec, hct, hshare, hlt, hmsg, hrec⟩

theorem ShareFor.receiver {receiver : Addr} {msgBytes : Bytes}
    (h : ShareFor P env req receiver msgBytes) :
    env.lib.endpointOfBytes req.location = some receiver := by
  obtain ⟨_, _, _, _, _, _, _, _, h⟩ := h
  exact h.2.2.2.2.2.2.2.2.2

theorem delivers_iff : delivers P env req = true ↔ ∃ msgBytes, Echoed P env req msgBytes := by
  constructor
  · intro h
    unfold delivers at h
    cases hprep : prepare (deployed P env.chain) env req with
    | err e => simp [hprep] at h
    | panic => simp [hprep] at h
    | ok found =>
      cases found with
      | none => simp [hprep] at h
      | some release =>
        cases hconn : env.connect release.receiver with
        | none => simp [hprep, hconn] at h
        | some conn =>
          simp only [hprep, hconn, Bool.and_eq_true, beq_iff_eq] at h
          obtain ⟨⟨⟨hopen, hwrite⟩, hfinish⟩, hresponse⟩ := h
          have hshare := shareFor_iff.mpr ⟨release, hprep, rfl, rfl⟩
          exact ⟨_, _, conn, hshare, hconn, hopen, hwrite, hfinish, hresponse⟩
  · intro h
    obtain ⟨msgBytes, receiver, conn, hshare, hconn, hecho⟩ := h
    obtain ⟨release, hprep, rfl, rfl⟩ := shareFor_iff.mp hshare
    simp [delivers, hprep, hconn, hecho.openBi, hecho.writeAll, hecho.finish, hecho.response]

theorem deliver_eq_panic {release : Release Cid Ciphertext Addr} {w : World σ Cid Ciphertext Addr}
    (h : (deliver env attest req release w).1 = .panic) :
    ∃ conn, env.connect release.receiver = some conn ∧ SendsBack conn release.msgBytes ∧
      release.msgBytes.length ≤ 1000 ∧ ∀ pool, attest req w.pool ≠ .ok pool := by
  unfold deliver at h
  cases hconn : env.connect release.receiver with
  | none => simp [hconn] at h
  | some conn =>
    obtain ⟨openBi, writeAll, finish, response⟩ := conn
    rw [hconn] at h
    dsimp only at h
    split_ifs at h with hopen hwrite hfinish
    cases response with
    | none => cases h
    | some response =>
      dsimp only at h
      split_ifs at h with hlong heq
      subst heq
      refine ⟨_, rfl, ⟨?_, ?_, ?_, rfl⟩, by omega, fun pool hpool => ?_⟩
      · simpa using hopen
      · simpa using hwrite
      · simpa using hfinish
      · rw [hpool] at h
        cases h

/-- A serviceable request panics only where its attestation fails. -/
theorem process_ne_panic {w : World σ Cid Ciphertext Addr} (hs : Serviceable P env req)
    (hattest : ∀ msgBytes, Echoed P env req msgBytes → msgBytes.length ≤ 1000 →
      ∃ pool, attest req w.pool = .ok pool) :
    (processDecryptionRequest (deployed P env.chain) env attest req w).1 ≠ .panic := by
  have hprep := prepare_serviceable.mpr hs
  unfold processDecryptionRequest
  cases he : prepare (deployed P env.chain) env req with
  | err e => simp
  | panic => exact absurd he hprep
  | ok found =>
    cases found with
    | none => simp
    | some release =>
      intro hpanic
      obtain ⟨conn, hconn, hecho, hlen, hfail⟩ := deliver_eq_panic hpanic
      have hshare := shareFor_iff.mpr ⟨release, he, rfl, rfl⟩
      obtain ⟨pool, hpool⟩ := hattest _ ⟨_, conn, hshare, hconn, hecho⟩ hlen
      exact hfail pool hpool

end Worker

/-- The watcher and the worker, with what the polls returned and what became of
it. The calls of both go to the world outside. -/
structure PoolTasks (σ Cid Ciphertext Addr : Type) where
  watching : Bool
  seen : List Bytes
  listed : List DecryptionRequest
  queue : List DecryptionRequest
  working : Bool
  processing : Option DecryptionRequest
  world : World σ Cid Ciphertext Addr
  outside : WorkerEnv Cid Ciphertext Addr
  polled : List DecryptionRequest
  delivered : List DecryptionRequest
  undelivered : List DecryptionRequest

inductive TaskEvent (σ Cid Ciphertext Addr : Type) where
  | poll (answer : Option Bytes)
  | send
  | take
  | process (env : WorkerEnv Cid Ciphertext Addr) (attest : DecryptionRequest → σ → Outcome Unit σ)
  | change (outside : WorkerEnv Cid Ciphertext Addr) (pool : σ)

namespace PoolTasks

variable {σ Cid Ciphertext Addr : Type}

def decodePoll (answer : Option Bytes) : Option (List DecryptionRequest) := do
  let data ← answer
  let (decoded, _) ← DecryptionRequest.codec.seq.decode data.tail
  some decoded

/-- A failed poll ends the watcher. -/
def poll (answer : Option Bytes) (t : PoolTasks σ Cid Ciphertext Addr) :
    PoolTasks σ Cid Ciphertext Addr :=
  match decodePoll answer with
  | none => { t with watching := false }
  | some requests => { t with listed := requests, polled := t.polled ++ requests }

section Tasks

variable (P : Primitives)

/-- The id counts as seen before the request is sent, and sending fails when
the worker is gone. The lock on the seen ids is held meanwhile. -/
def send (req : DecryptionRequest) (rest : List DecryptionRequest)
    (t : PoolTasks σ Cid Ciphertext Addr) : PoolTasks σ Cid Ciphertext Addr :=
  match req.id P.sha256 with
  | none => { t with watching := false, listed := [] }
  | some id =>
    if id ∈ t.seen then { t with listed := rest }
    else if t.working then
      { t with listed := rest, seen := id :: t.seen, queue := t.queue ++ [req] }
    else { t with watching := false, listed := [], seen := id :: t.seen }

/-- A panic ends the worker, and the queue is dropped with it. -/
def process (env : WorkerEnv Cid Ciphertext Addr)
    (attest : DecryptionRequest → σ → Outcome Unit σ) (req : DecryptionRequest)
    (t : PoolTasks σ Cid Ciphertext Addr) : PoolTasks σ Cid Ciphertext Addr :=
  let (outcome, world) :=
    Worker.processDecryptionRequest (deployed P env.chain) env attest req t.world
  let t := if Worker.delivers P env req then { t with delivered := t.delivered ++ [req] }
    else { t with undelivered := t.undelivered ++ [req] }
  match outcome with
  | .panic => { t with processing := none, world := world, working := false, queue := [] }
  | _ => { t with processing := none, world := world }

inductive Step : TaskEvent σ Cid Ciphertext Addr → PoolTasks σ Cid Ciphertext Addr →
    PoolTasks σ Cid Ciphertext Addr → Prop
  | poll (answer : Option Bytes) (t : PoolTasks σ Cid Ciphertext Addr) : t.watching = true →
      t.listed = [] → Step (.poll answer) t (poll answer t)
  | send (req : DecryptionRequest) (rest : List DecryptionRequest)
      (t : PoolTasks σ Cid Ciphertext Addr) : t.watching = true → t.listed = req :: rest →
      Step .send t (send P req rest t)
  | take (req : DecryptionRequest) (rest : List DecryptionRequest)
      (t : PoolTasks σ Cid Ciphertext Addr) : t.working = true → t.processing = none →
      t.queue = req :: rest → Step .take t { t with queue := rest, processing := some req }
  | process (env : WorkerEnv Cid Ciphertext Addr)
      (attest : DecryptionRequest → σ → Outcome Unit σ) (req : DecryptionRequest)
      (t : PoolTasks σ Cid Ciphertext Addr) : t.working = true → t.processing = some req →
      Step (.process env attest) t (process P env attest req t)
  | change (outside : WorkerEnv Cid Ciphertext Addr) (pool : σ)
      (t : PoolTasks σ Cid Ciphertext Addr) :
      Step (.change outside pool) t
        { t with outside := outside, world := { t.world with pool := pool } }

def start (outside : WorkerEnv Cid Ciphertext Addr) (pool : σ) :
    PoolTasks σ Cid Ciphertext Addr where
  watching := true
  seen := []
  listed := []
  queue := []
  working := true
  processing := none
  world := ⟨pool, []⟩
  outside := outside
  polled := []
  delivered := []
  undelivered := []

/-- The next successful poll that lists it queues it. -/
def WillQueue (req : DecryptionRequest) (t : PoolTasks σ Cid Ciphertext Addr) : Prop :=
  t.watching = true ∧ ∃ id, req.id P.sha256 = some id ∧ id ∉ t.seen

def NoneLost (t : PoolTasks σ Cid Ciphertext Addr) : Prop :=
  ∀ req ∈ t.polled, Worker.Satisfying P t.outside req →
    req ∈ t.queue ∨ t.processing = some req ∨ req ∈ t.delivered ∨ WillQueue P req t

structure Served (env : WorkerEnv Cid Ciphertext Addr)
    (attest : DecryptionRequest → σ → Outcome Unit σ) (req : DecryptionRequest)
    (t : PoolTasks σ Cid Ciphertext Addr) : Prop where
  serviceable : Worker.Serviceable P env req
  attested : ∀ msgBytes, Worker.Echoed P env req msgBytes → msgBytes.length ≤ 1000 →
    ∃ pool, attest req t.world.pool = .ok pool
  echoed : Worker.Satisfying P t.outside req → ∃ msgBytes, Worker.Echoed P env req msgBytes

def Favourable : TaskEvent σ Cid Ciphertext Addr → PoolTasks σ Cid Ciphertext Addr → Prop
  | .poll answer, t => ∀ requests, decodePoll answer = some requests →
      Set.InjOn (DecryptionRequest.id P.sha256) {req | req ∈ t.polled ++ requests}
  | .process env attest, t => ∀ req, t.processing = some req → Served P env attest req t
  | .change outside _, t => ∀ req ∈ t.undelivered, ¬ Worker.Satisfying P outside req
  | .send, _ => True
  | .take, _ => True

def AnyStep (t t' : PoolTasks σ Cid Ciphertext Addr) : Prop := ∃ event, Step P event t t'

def FavourableStep (t t' : PoolTasks σ Cid Ciphertext Addr) : Prop :=
  ∃ event, Favourable P event t ∧ Step P event t t'

end Tasks

section Run

variable {P : Primitives} {t t' : PoolTasks σ Cid Ciphertext Addr} {req : DecryptionRequest}

def Handled (req : DecryptionRequest) (t : PoolTasks σ Cid Ciphertext Addr) : Prop :=
  req ∈ t.queue ∨ t.processing = some req ∨ req ∈ t.delivered ∨ req ∈ t.undelivered

structure Tracked (P : Primitives) (t : PoolTasks σ Cid Ciphertext Addr) : Prop where
  working : t.working = true
  listed : t.listed ≠ [] → t.watching = true
  polled : ∀ req ∈ t.listed, req ∈ t.polled
  named : ∀ req ∈ t.polled, ∃ id, req.id P.sha256 = some id
  distinct : Set.InjOn (DecryptionRequest.id P.sha256) {req | req ∈ t.polled}
  seen : ∀ id ∈ t.seen, ∃ req ∈ t.polled, req.id P.sha256 = some id ∧ Handled req t
  unseen : ∀ req ∈ t.polled, ∀ id, req.id P.sha256 = some id → id ∉ t.seen → req ∈ t.listed
  undelivered : ∀ req ∈ t.undelivered, ¬ Worker.Satisfying P t.outside req

/-- Seen requests stay handled when a step hands each of them on. -/
theorem Tracked.seen_imp (h : Tracked P t)
    (himp : ∀ req, Handled req t → Handled req t') : ∀ id ∈ t.seen,
    ∃ req ∈ t.polled, req.id P.sha256 = some id ∧ Handled req t' := by
  intro id hid
  obtain ⟨req, hmem, hreq, hhandled⟩ := h.seen id hid
  exact ⟨req, hmem, hreq, himp req hhandled⟩

theorem decodePoll_named {answer : Option Bytes} {requests : List DecryptionRequest}
    (h : decodePoll answer = some requests) (hmem : req ∈ requests) :
    ∃ id, req.id P.sha256 = some id := by
  simp only [decodePoll, Option.bind_eq_bind, Option.bind_eq_some_iff, Prod.exists,
    Option.some.injEq] at h
  obtain ⟨data, -, _, rest, hdec, rfl⟩ := h
  obtain ⟨e, he, -⟩ := (DecryptionRequest.codec.seq.spec _ _ _).mp hdec
  have hall := (Codec.seq_encode_isSome _).mp (Option.isSome_iff_exists.mpr ⟨e, he⟩)
  obtain ⟨bytes, hbytes⟩ := Option.isSome_iff_exists.mp (hall.2 req hmem)
  exact ⟨_, by rw [DecryptionRequest.id, hbytes]; rfl⟩

theorem poll_tracked (h : Tracked P t) (hwatch : t.watching = true) (hlisted : t.listed = [])
    {answer : Option Bytes} (hf : Favourable P (.poll answer) t) : Tracked P (poll answer t) := by
  have hseen : ∀ req ∈ t.polled, ∀ id, req.id P.sha256 = some id → id ∈ t.seen := by
    intro req hmem id hid
    by_contra hnot
    have hlist := h.unseen req hmem id hid hnot
    rw [hlisted] at hlist
    exact List.not_mem_nil hlist
  unfold poll
  cases hdec : decodePoll answer with
  | none =>
    exact ⟨h.working, fun hne => absurd hlisted hne, h.polled, h.named, h.distinct, h.seen,
      h.unseen, h.undelivered⟩
  | some requests =>
    refine ⟨h.working, fun _ => hwatch, fun req hmem => List.mem_append_right _ hmem, ?_,
      hf requests hdec, ?_, ?_, h.undelivered⟩
    · intro req hmem
      rcases List.mem_append.mp hmem with hold | hnew
      · exact h.named req hold
      · exact decodePoll_named hdec hnew
    · intro id hid
      obtain ⟨req, hmem, hreq, hhandled⟩ := h.seen id hid
      exact ⟨req, List.mem_append_left _ hmem, hreq, hhandled⟩
    · intro req hmem id hid hnot
      rcases List.mem_append.mp hmem with hold | hnew
      · exact absurd (hseen req hold id hid) hnot
      · exact hnew

theorem send_tracked (h : Tracked P t) (hwatch : t.watching = true)
    {rest : List DecryptionRequest} (hlisted : t.listed = req :: rest) :
    Tracked P (send P req rest t) := by
  have hmem : req ∈ t.polled := h.polled req (hlisted ▸ List.mem_cons_self)
  have hrest : ∀ r ∈ rest, r ∈ t.polled := fun r hr =>
    h.polled r (hlisted ▸ List.mem_cons_of_mem _ hr)
  obtain ⟨id, hid⟩ := h.named req hmem
  have hunseen : ∀ r ∈ t.polled, ∀ i, r.id P.sha256 = some i → i ∉ t.seen →
      r = req ∨ r ∈ rest := by
    intro r hr i hi hnot
    have hlist := h.unseen r hr i hi hnot
    rw [hlisted] at hlist
    exact List.mem_cons.mp hlist
  by_cases hs : id ∈ t.seen
  · have hstep : send P req rest t = { t with listed := rest } := by simp [send, hid, hs]
    rw [hstep]
    refine ⟨h.working, fun _ => hwatch, hrest, h.named, h.distinct, h.seen, ?_, h.undelivered⟩
    intro r hr i hi hnot
    rcases hunseen r hr i hi hnot with rfl | hr'
    · obtain rfl : id = i := Option.some.inj (hid.symm.trans hi)
      exact absurd hs hnot
    · exact hr'
  · have hstep : send P req rest t =
        { t with listed := rest, seen := id :: t.seen, queue := t.queue ++ [req] } := by
      simp [send, hid, hs, h.working]
    rw [hstep]
    refine ⟨h.working, fun _ => hwatch, hrest, h.named, h.distinct, ?_, ?_, h.undelivered⟩
    · intro i hi
      rcases List.mem_cons.mp hi with rfl | hi
      · exact ⟨req, hmem, hid, Or.inl (List.mem_append_right _ List.mem_cons_self)⟩
      · refine h.seen_imp (fun r hr => ?_) i hi
        exact hr.imp_left fun hq => List.mem_append_left _ hq
    · intro r hr i hi hnot
      rw [List.mem_cons, not_or] at hnot
      rcases hunseen r hr i hi hnot.2 with rfl | hr'
      · obtain rfl : id = i := Option.some.inj (hid.symm.trans hi)
        exact absurd rfl hnot.1
      · exact hr'

theorem take_tracked (h : Tracked P t) (hidle : t.processing = none)
    {rest : List DecryptionRequest} (hqueue : t.queue = req :: rest) :
    Tracked P { t with queue := rest, processing := some req } := by
  refine ⟨h.working, h.listed, h.polled, h.named, h.distinct, h.seen_imp fun r hr => ?_, h.unseen,
    h.undelivered⟩
  rcases hr with hq | hp | hrest
  · rw [hqueue, List.mem_cons] at hq
    rcases hq with rfl | hq
    · exact Or.inr (Or.inl rfl)
    · exact Or.inl hq
  · rw [hidle] at hp
    cases hp
  · exact Or.inr (Or.inr hrest)

theorem process_eq {env : WorkerEnv Cid Ciphertext Addr}
    {attest : DecryptionRequest → σ → Outcome Unit σ} (hs : Served P env attest req t) :
    ∃ world, process P env attest req t =
      if Worker.delivers P env req then
        { t with processing := none, world := world, delivered := t.delivered ++ [req] }
      else
        { t with processing := none, world := world, undelivered := t.undelivered ++ [req] } := by
  have hnp := Worker.process_ne_panic (w := t.world) hs.serviceable hs.attested
  unfold process
  rcases ho : Worker.processDecryptionRequest (deployed P env.chain) env attest req t.world with
    ⟨outcome, world⟩
  rw [ho] at hnp
  refine ⟨world, ?_⟩
  cases outcome with
  | panic => exact absurd rfl hnp
  | ok u => by_cases hd : Worker.delivers P env req = true <;> simp [hd]
  | err e => by_cases hd : Worker.delivers P env req = true <;> simp [hd]

theorem process_tracked (h : Tracked P t) (hproc : t.processing = some req)
    {env : WorkerEnv Cid Ciphertext Addr} {attest : DecryptionRequest → σ → Outcome Unit σ}
    (hs : Served P env attest req t) : Tracked P (process P env attest req t) := by
  obtain ⟨world, hstep⟩ := process_eq hs
  rw [hstep]
  by_cases hd : Worker.delivers P env req = true
  · rw [if_pos hd]
    refine ⟨h.working, h.listed, h.polled, h.named, h.distinct, h.seen_imp fun r hr => ?_,
      h.unseen, h.undelivered⟩
    rcases hr with hq | hp | hdone | hund
    · exact Or.inl hq
    · obtain rfl := Option.some.inj (hproc.symm.trans hp)
      exact Or.inr (Or.inr (Or.inl (List.mem_append_right _ List.mem_cons_self)))
    · exact Or.inr (Or.inr (Or.inl (List.mem_append_left _ hdone)))
    · exact Or.inr (Or.inr (Or.inr hund))
  · rw [if_neg hd]
    refine ⟨h.working, h.listed, h.polled, h.named, h.distinct, h.seen_imp fun r hr => ?_,
      h.unseen, fun r hr => ?_⟩
    · rcases hr with hq | hp | hdone | hund
      · exact Or.inl hq
      · obtain rfl := Option.some.inj (hproc.symm.trans hp)
        exact Or.inr (Or.inr (Or.inr (List.mem_append_right _ List.mem_cons_self)))
      · exact Or.inr (Or.inr (Or.inl hdone))
      · exact Or.inr (Or.inr (Or.inr (List.mem_append_left _ hund)))
    · rcases List.mem_append.mp hr with hold | hnew
      · exact h.undelivered r hold
      · rw [List.mem_singleton.mp hnew]
        exact fun hsat => hd (Worker.delivers_iff.mpr (hs.echoed hsat))

theorem step_tracked (h : Tracked P t) (hstep : FavourableStep P t t') : Tracked P t' := by
  obtain ⟨event, hf, hstep⟩ := hstep
  cases hstep with
  | poll answer t hwatch hlisted => exact poll_tracked h hwatch hlisted hf
  | send req rest t hwatch hlisted => exact send_tracked h hwatch hlisted
  | take req rest t _ hidle hqueue => exact take_tracked h hidle hqueue
  | process env attest req t _ hproc => exact process_tracked h hproc (hf req hproc)
  | change outside pool t =>
    exact ⟨h.working, h.listed, h.polled, h.named, h.distinct, h.seen, h.unseen, hf⟩

theorem run_tracked {outside : WorkerEnv Cid Ciphertext Addr} {pool : σ}
    (hrun : Relation.ReflTransGen (FavourableStep P) (start outside pool) t) : Tracked P t := by
  induction hrun with
  | refl =>
    have hnone : ∀ {α : Type} {p : α → Prop}, ∀ x ∈ ([] : List α), p x := fun x hx =>
      absurd hx List.not_mem_nil
    exact ⟨rfl, fun hne => absurd rfl hne, hnone, hnone, fun x hx => absurd hx List.not_mem_nil,
      hnone, hnone, hnone⟩
  | tail _ hstep ih => exact step_tracked ih hstep

theorem noneLost_of_tracked (h : Tracked P t) : NoneLost P t := by
  intro req hmem hsat
  obtain ⟨id, hid⟩ := h.named req hmem
  by_cases hs : id ∈ t.seen
  · obtain ⟨r, hr, hri, hhandled⟩ := h.seen id hs
    obtain rfl := h.distinct hr hmem (hri.trans hid.symm)
    rcases hhandled with hq | hp | hdone | hund
    · exact Or.inl hq
    · exact Or.inr (Or.inl hp)
    · exact Or.inr (Or.inr (Or.inl hdone))
    · exact absurd hsat (h.undelivered r hund)
  · have hlist := h.unseen req hmem id hid hs
    exact Or.inr (Or.inr (Or.inr ⟨h.listed (List.ne_nil_of_mem hlist), id, hid, hs⟩))

/-- No run loses a request whose witness is satisfying, as long as each such
request is served when its turn comes, and none ends the worker. -/
theorem none_lost_of_run {outside : WorkerEnv Cid Ciphertext Addr} {pool : σ}
    (hrun : Relation.ReflTransGen (FavourableStep P) (start outside pool) t) : NoneLost P t :=
  noneLost_of_tracked (run_tracked hrun)

end Run

section Sample

def lockedPredicate : Bytes :=
  4 :: 32 :: asBytes "Password".toList ++ 128 :: List.replicate 32 0

/-- A file behind a password; the answer of the document is `found`. -/
def lockedEnv (found : Option Bytes) : WorkerEnv Bytes Bytes Bytes where
  lib := Worker.byteLib
  blake2 _ := beArr 32 0
  chain := ⟨fun _ _ => .ok (0 :: 1 :: 4 :: 1 :: 172 :: lockedPredicate), fun _ => .ok none⟩
  intentStore := beArr 32 0
  docRead _ := .ok found
  index := 0
  connect _ := some ⟨true, true, true, some [4, 102, 0, 4, 1]⟩

def lockedRequest : DecryptionRequest := ⟨[102], asBytes "040473".toList, []⟩

def ciphertextEntry : Bytes := [2, 4, 1]

def lockedAnswer : Bytes := 0 :: 4 :: 4 :: 102 :: 24 :: asBytes "040473".toList ++ [0]

theorem decodePoll_locked : decodePoll (some lockedAnswer) = some [lockedRequest] := by
  decide

theorem locked_satisfying : Worker.Satisfying Worker.plainPrimitives
    (lockedEnv (some ciphertextEntry)) lockedRequest := by
  refine ⟨[4, 4, 115], [1], [⟨"Password".toList, List.replicate 32 0, none⟩], rfl, ?_, rfl⟩
  exact Worker.getIntent_eq_some_iff.mp rfl

def lockedTaken : PoolTasks Unit Bytes Bytes Bytes :=
  { start (lockedEnv (some ciphertextEntry)) () with
    seen := [(beArr 32 0).1]
    processing := some lockedRequest
    polled := [lockedRequest] }

theorem lockedTaken_reached : Relation.ReflTransGen (FavourableStep Worker.plainPrimitives)
    (start (lockedEnv (some ciphertextEntry)) ()) lockedTaken := by
  let t₀ : PoolTasks Unit Bytes Bytes Bytes := start (lockedEnv (some ciphertextEntry)) ()
  let t₁ : PoolTasks Unit Bytes Bytes Bytes :=
    { t₀ with listed := [lockedRequest], polled := [lockedRequest] }
  let t₂ : PoolTasks Unit Bytes Bytes Bytes :=
    { t₁ with listed := [], seen := [(beArr 32 0).1], queue := [lockedRequest] }
  have hpoll : FavourableStep Worker.plainPrimitives t₀ t₁ := by
    refine ⟨.poll (some lockedAnswer), fun requests hdec => ?_, ?_⟩
    · obtain rfl : [lockedRequest] = requests :=
        Option.some.inj (decodePoll_locked.symm.trans hdec)
      intro r hr r' hr' _
      exact (List.mem_singleton.mp hr).trans (List.mem_singleton.mp hr').symm
    · have hstep := Step.poll (P := Worker.plainPrimitives) (some lockedAnswer) t₀ rfl rfl
      rwa [poll, decodePoll_locked] at hstep
  have hsend : FavourableStep Worker.plainPrimitives t₁ t₂ :=
    ⟨.send, trivial, .send lockedRequest [] t₁ rfl rfl⟩
  have htake : FavourableStep Worker.plainPrimitives t₂ lockedTaken :=
    ⟨.take, trivial, .take lockedRequest [] t₂ rfl rfl rfl⟩
  exact ((Relation.ReflTransGen.single hpoll).tail hsend).tail htake

/-- The ciphertext is not yet in the document of the worker: the request is
seen, and never queued again. -/
theorem unsynchronised_request_lost : ∃ t, Relation.ReflTransGen (AnyStep Worker.plainPrimitives)
    (start (lockedEnv (some ciphertextEntry)) ()) t ∧ ¬ NoneLost Worker.plainPrimitives t := by
  have htaken : Relation.ReflTransGen (AnyStep Worker.plainPrimitives)
      (start (lockedEnv (some ciphertextEntry)) ()) lockedTaken :=
    lockedTaken_reached.lift (fun t => t) fun _ _ ⟨event, _, hstep⟩ => ⟨event, hstep⟩
  have hprocess : AnyStep Worker.plainPrimitives lockedTaken
      { lockedTaken with processing := none, undelivered := [lockedRequest] } :=
    ⟨_, .process (lockedEnv none) (fun _ pool => .ok pool) lockedRequest lockedTaken rfl rfl⟩
  refine ⟨_, htaken.tail hprocess, fun h => ?_⟩
  obtain hq | hp | hdone | ⟨-, id, hid, hseen⟩ :=
    h lockedRequest List.mem_cons_self locked_satisfying
  · exact List.not_mem_nil hq
  · cases hp
  · exact List.not_mem_nil hdone
  · obtain rfl : (beArr 32 0).1 = id := Option.some.inj hid
    exact hseen List.mem_cons_self

theorem none_lost_of_run_locked : NoneLost Worker.plainPrimitives
    { lockedTaken with
      processing := none
      world := ⟨(), [⟨[1], [1], ⟨[102], 0, [1]⟩, [4, 102, 0, 4, 1], []⟩]⟩
      delivered := [lockedRequest] } := by
  have hne : Worker.prepare (deployed Worker.plainPrimitives
      (lockedEnv (some ciphertextEntry)).chain) (lockedEnv (some ciphertextEntry))
        lockedRequest ≠ .panic := by
    have hprep : Worker.prepare (deployed Worker.plainPrimitives
        (lockedEnv (some ciphertextEntry)).chain) (lockedEnv (some ciphertextEntry))
          lockedRequest = .ok (some ⟨[1], [1], ⟨[102], 0, [1]⟩, [4, 102, 0, 4, 1], []⟩) := rfl
    rw [hprep]
    simp
  have hserved : Served Worker.plainPrimitives (lockedEnv (some ciphertextEntry))
      (fun _ pool => .ok pool) lockedRequest lockedTaken :=
    ⟨Worker.prepare_serviceable.mp hne, fun _ _ _ => ⟨(), rfl⟩, fun _ => Worker.delivers_iff.mp rfl⟩
  refine none_lost_of_run (lockedTaken_reached.tail ⟨.process (lockedEnv (some ciphertextEntry))
    (fun _ pool => .ok pool), fun req hreq => ?_, ?_⟩)
  · obtain rfl : lockedRequest = req := Option.some.inj hreq
    exact hserved
  · exact .process (lockedEnv (some ciphertextEntry)) _ lockedRequest lockedTaken rfl rfl

end Sample

end PoolTasks

end Fangorn
