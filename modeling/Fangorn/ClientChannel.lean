import Fangorn.RequestSubmission
import Fangorn.Lib.Channel

/-! The channel on which a session waits (`handle_decrypt` in
`crypto/cipher.rs`): the node of `client/node.rs` gives its sender to the handler
of partial decryptions, the node of `node/node.rs` drops it when it is built. -/

namespace Fangorn

open Rust Ink Scale SubstrateBackend

inductive Alpn where
  | partialDecryption
  | gossip
  | blobs
  | docs
  deriving DecidableEq

/-- The protocols of the router, whether it is up, the bytes of the connections
that a handler of partial decryptions is at work on, and the senders of the
channel behind `pd_rx`. -/
structure PdNode where
  accepts : List Alpn
  up : Bool
  handlers : List Bytes
  senders : Nat

/-- A peer connects and sends its bytes, a handler goes on, the router shuts down
(as it may when a handler panics), or the task behind the channel is woken. -/
inductive NodeEvent where
  | connection (alpn : Alpn) (bytes : Bytes)
  | handle (i : Nat)
  | shutdown
  | poll

namespace PdNode

variable {Share : Type} (shareOfBytes : Bytes → Option Share)

def client : PdNode := ⟨[.partialDecryption, .gossip, .blobs, .docs], true, [], 1⟩

def network : PdNode := ⟨[.gossip, .blobs, .docs], true, [], 0⟩

def step (event : NodeEvent) (node : PdNode) :
    PdNode × List (Channel.Event (RawPartialDecryptionMessage Share)) :=
  match event with
  | .connection alpn bytes =>
    if node.up ∧ alpn = .partialDecryption ∧ alpn ∈ node.accepts then
      ({ node with handlers := node.handlers ++ [bytes] }, [])
    else (node, [])
  | .handle i =>
    match node.handlers[i]? with
    | none => (node, [])
    | some bytes =>
      ({ node with handlers := node.handlers.eraseIdx i },
        (PartialDecryptionHandler.forwarded shareOfBytes [bytes]).map .send)
  | .shutdown => ({ node with up := false, handlers := [] }, [])
  | .poll => (node, [.poll])

/-- What becomes of the node, and what reaches its channel. -/
def trace : List NodeEvent → PdNode →
    PdNode × List (Channel.Event (RawPartialDecryptionMessage Share))
  | [], node => (node, [])
  | event :: events, node =>
    let next := step shareOfBytes event node
    let rest := trace events next.1
    (rest.1, next.2 ++ rest.2)

def arrivals (events : List NodeEvent) : List Bytes :=
  events.flatMap fun event =>
    match event with
    | .connection .partialDecryption bytes => [bytes]
    | _ => []

variable {shareOfBytes} {node : PdNode} {event : NodeEvent} {events : List NodeEvent}

theorem arrivals_cons : arrivals (event :: events) = arrivals [event] ++ arrivals events := by
  rw [arrivals, List.flatMap_cons]
  exact congrArg (· ++ _) (List.append_nil _).symm

theorem forwarded_append (as bs : List Bytes) :
    PartialDecryptionHandler.forwarded shareOfBytes (as ++ bs) =
      PartialDecryptionHandler.forwarded shareOfBytes as ++
        PartialDecryptionHandler.forwarded shareOfBytes bs :=
  List.filterMap_append

theorem sends_map (raws : List (RawPartialDecryptionMessage Share)) :
    Channel.sends (raws.map Channel.Event.send) = raws := by
  induction raws with
  | nil => rfl
  | cons raw raws ih => exact congrArg (raw :: ·) ih

variable (shareOfBytes event node) in
theorem step_handles : ∃ handled,
    Channel.sends (step shareOfBytes event node).2 =
      PartialDecryptionHandler.forwarded shareOfBytes handled ∧
    (handled ++ (step shareOfBytes event node).1.handlers).Subperm
      (node.handlers ++ arrivals [event]) ∧
    (.partialDecryption ∈ node.accepts → node.up = true → event ≠ .shutdown →
      (handled ++ (step shareOfBytes event node).1.handlers).Perm
          (node.handlers ++ arrivals [event]) ∧
        (step shareOfBytes event node).1.accepts = node.accepts ∧
        (step shareOfBytes event node).1.up = true) := by
  have hsame (h : arrivals [event] = []) :
      ([] ++ node.handlers).Perm (node.handlers ++ arrivals [event]) := by
    rw [h, List.append_nil]
    exact .refl _
  cases event with
  | connection alpn bytes =>
    unfold step
    dsimp only
    split_ifs with haccepted
    · obtain ⟨-, rfl, -⟩ := haccepted
      exact ⟨[], rfl, .refl _, fun _ hup _ => ⟨.refl _, rfl, hup⟩⟩
    · refine ⟨[], rfl, (List.sublist_append_left _ _).subperm, fun hin hup _ => ?_⟩
      have hother : alpn ≠ .partialDecryption := by
        rintro rfl
        exact haccepted ⟨hup, rfl, hin⟩
      have harrives : arrivals [.connection alpn bytes] = [] := by
        cases alpn <;> first | rfl | exact absurd rfl hother
      exact ⟨hsame harrives, rfl, hup⟩
  | handle i =>
    unfold step
    dsimp only
    cases hbytes : node.handlers[i]? with
    | none => exact ⟨[], rfl, (hsame rfl).subperm, fun _ hup _ => ⟨hsame rfl, rfl, hup⟩⟩
    | some bytes =>
      obtain ⟨hi, rfl⟩ := List.getElem?_eq_some_iff.mp hbytes
      have hperm : ([node.handlers[i]] ++ node.handlers.eraseIdx i).Perm
          (node.handlers ++ arrivals [.handle i]) :=
        (List.getElem_cons_eraseIdx_perm hi).trans (hsame rfl)
      exact ⟨_, sends_map _, hperm.subperm, fun _ hup _ => ⟨hperm, rfl, hup⟩⟩
  | shutdown => exact ⟨[], rfl, List.nil_subperm, fun _ _ hno => absurd rfl hno⟩
  | poll => exact ⟨[], rfl, (hsame rfl).subperm, fun _ hup _ => ⟨hsame rfl, rfl, hup⟩⟩

variable (shareOfBytes events node) in
theorem trace_handles : ∃ handled,
    Channel.sends (trace shareOfBytes events node).2 =
      PartialDecryptionHandler.forwarded shareOfBytes handled ∧
    (handled ++ (trace shareOfBytes events node).1.handlers).Subperm
      (node.handlers ++ arrivals events) ∧
    (.partialDecryption ∈ node.accepts → node.up = true → .shutdown ∉ events →
      (handled ++ (trace shareOfBytes events node).1.handlers).Perm
        (node.handlers ++ arrivals events)) := by
  induction events generalizing node with
  | nil =>
    have hsame : ([] ++ node.handlers).Perm (node.handlers ++ arrivals []) :=
      .of_eq (List.append_nil _).symm
    exact ⟨[], rfl, hsame.subperm, fun _ _ _ => hsame⟩
  | cons event events ih =>
    obtain ⟨first, hsends, hsub, hperm⟩ := step_handles shareOfBytes node event
    obtain ⟨rest, hsends', hsub', hperm'⟩ := ih (step shareOfBytes event node).1
    rw [arrivals_cons, ← List.append_assoc]
    refine ⟨first ++ rest, ?_, ?_, fun hin hup hno => ?_⟩
    · rw [trace, Channel.sends_append, hsends, hsends', forwarded_append]
    · rw [List.append_assoc]
      refine ((List.subperm_append_left first).mpr hsub').trans ?_
      rw [← List.append_assoc]
      exact (List.subperm_append_right _).mpr hsub
    · rw [List.mem_cons, not_or] at hno
      obtain ⟨hfirst, haccepts, hup'⟩ := hperm hin hup (Ne.symm hno.1)
      rw [List.append_assoc]
      refine ((hperm' (haccepts ▸ hin) hup' hno.2).append_left first).trans ?_
      rw [← List.append_assoc]
      exact hfirst.append_right _

theorem trace_polls : (trace shareOfBytes events node).2.any Channel.Event.isPoll = true ↔
    NodeEvent.poll ∈ events := by
  induction events generalizing node with
  | nil => simp [trace]
  | cons event events ih =>
    rw [trace, List.any_append, Bool.or_eq_true, ih, List.mem_cons]
    refine or_congr_left ?_
    cases event with
    | connection alpn bytes =>
      unfold step
      dsimp only
      split_ifs <;> simp
    | handle i =>
      unfold step
      dsimp only
      cases node.handlers[i]? <;> simp [Channel.Event.isPoll]
    | shutdown => simp [step]
    | poll => simp [step, Channel.Event.isPoll]

end PdNode

namespace DecryptSession

variable {Cid Ciphertext Share : Type} (env : SessionEnv Cid Ciphertext Share)

def body (raw : RawPartialDecryptionMessage Share)
    (state : SessionStatus × Session Ciphertext Share) :
    Bool × SessionStatus × Session Ciphertext Share :=
  match handleMessage env raw state.2 with
  | (.ok _, s) => (true, .complete, s)
  | (_, s) => (true, .panicked, s)

def task (node : PdNode) (events : List NodeEvent) :
    Channel.Task (SessionStatus × Session Ciphertext Share) :=
  (Channel.run (body env) (PdNode.trace env.shareOfBytes events node).2
    (⟨[], node.senders⟩, .running (.waiting, start env))).2

variable {env} in
theorem task_network (events : List NodeEvent) : task env .network events =
    if (PdNode.trace env.shareOfBytes events .network).2.any Channel.Event.isPoll then
      .closed (.waiting, start env)
    else .running (.waiting, start env) := by
  rw [task]
  exact congrArg Prod.snd (Channel.run_deserted _ _)

end DecryptSession

namespace RequestSubmission

inductive Ending where
  | waiting
  | complete
  | panicked
  deriving DecidableEq

def Ending.ofStatus : SessionStatus → Ending
  | .waiting => .waiting
  | .complete => .complete
  | .panicked => .panicked

/-- `done_rx.await.unwrap()`: the sender is used at the end of the loop's body,
and dropped when the task ends without. -/
def Ending.ofTask {σ : Type} : Channel.Task (SessionStatus × σ) → Ending × σ
  | .running (_, s) => (.waiting, s)
  | .left (status, s) => (.ofStatus status, s)
  | .closed (_, s) => (.panicked, s)

section Nodes

variable (blake2 : Bytes → Arr 32) (K : PoolConsts) (t : Transport) (caller : AccountId)
  (location : Bytes) (filename : Str) {Cid Ciphertext Share : Type}
  (env : SessionEnv Cid Ciphertext Share)

def handleDecryptOn (node : PdNode) (events : List NodeEvent) (witnessString : Str)
    (s : RequestPool) : Option (Ending × Session Ciphertext Share) × RequestPool :=
  match requestDecrypt blake2 K t caller location filename (parseWitnesses witnessString) s with
  | (.ok _, s') => (some (Ending.ofTask (DecryptSession.task env node events)), s')
  | (_, s') => (none, s')

/-- The node that `handle_decrypt` is given has no handler for shares and no
sender: whatever reaches it, no session completes, none receives or writes
anything, and each that is woken after its request ends in a panic. -/
theorem network_node_never_decrypts (events : List NodeEvent) (witnessString : Str)
    (s : RequestPool) :
    ∀ r ∈ (handleDecryptOn blake2 K t caller location filename env .network events witnessString
      s).1, r.1 ≠ .complete ∧ r.2.received = [] ∧ r.2.written = [] ∧
        (NodeEvent.poll ∈ events → r.1 = .panicked) := by
  intro r hr
  unfold handleDecryptOn at hr
  rcases hreq : requestDecrypt blake2 K t caller location filename
    (parseWitnesses witnessString) s with ⟨o, s'⟩
  rw [hreq] at hr
  cases o with
  | err e => cases hr
  | panic => cases hr
  | ok u =>
    dsimp only at hr
    rw [Option.mem_some_iff, DecryptSession.task_network] at hr
    split_ifs at hr with hwoken
    · subst hr
      exact ⟨nofun, rfl, rfl, fun _ => rfl⟩
    · subst hr
      exact ⟨nofun, rfl, rfl, fun hpoll => absurd (PdNode.trace_polls.mpr hpoll) hwoken⟩

end Nodes

def shareThenWoken : List NodeEvent := [.connection .partialDecryption [4, 102, 1, 4, 7], .poll]

theorem network_node_never_decrypts_share : ∃ final,
    (handleDecryptOn blake2OfRequest .deployed ⟨true, true⟩ (beArr 32 7) [] "f".toList
      DecryptSession.sampleEnv .network shareThenWoken [] RequestPool.emptyPool).1 =
      some (.panicked, final) ∧ final.written = [] := by
  have henc : (DecryptionRequest.codec.encode passwordRequest).isSome := by decide
  have hok := requestDecrypt_of_encodable blake2OfRequest .deployed ⟨true, true⟩ (beArr 32 7)
    RequestPool.emptyPool request_password henc
  obtain ⟨r, hr⟩ : ∃ r, (handleDecryptOn blake2OfRequest .deployed ⟨true, true⟩ (beArr 32 7) []
      "f".toList DecryptSession.sampleEnv .network shareThenWoken [] RequestPool.emptyPool).1 =
      some r := by
    rw [handleDecryptOn, hok]
    exact ⟨_, rfl⟩
  obtain ⟨-, -, hwritten, hpanics⟩ := network_node_never_decrypts blake2OfRequest .deployed
    ⟨true, true⟩ (beArr 32 7) [] "f".toList DecryptSession.sampleEnv shareThenWoken []
    RequestPool.emptyPool r hr
  obtain ⟨ending, final⟩ := r
  obtain rfl : ending = .panicked := hpanics (List.mem_cons_of_mem _ List.mem_cons_self)
  exact ⟨final, hr, hwritten⟩

end RequestSubmission

end Fangorn
