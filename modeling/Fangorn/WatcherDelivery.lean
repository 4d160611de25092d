import Fangorn.PoolWatcher

/-! What `PollingWatcher::watch` sends over many polls (`pool/watcher.rs`). -/

namespace Fangorn

open Rust Scale

theorem DecryptionRequest.id_inj {sha256 : Bytes → Arr 32} {encodings : Set Bytes}
    (hfree : Set.InjOn sha256 encodings) {req req' : DecryptionRequest} {id : Bytes}
    (hreq : ∀ e, codec.encode req = some e → e ∈ encodings)
    (hreq' : ∀ e, codec.encode req' = some e → e ∈ encodings)
    (hid : req.id sha256 = some id) (hid' : req'.id sha256 = some id) : req = req' := by
  obtain ⟨e, he, rfl⟩ := Option.map_eq_some_iff.mp hid
  obtain ⟨e', he', hsame⟩ := Option.map_eq_some_iff.mp hid'
  obtain rfl : e' = e := hfree (hreq' e' he') (hreq e he) (Subtype.ext hsame)
  have hdec := (codec.decode_encode he').symm.trans (codec.decode_encode he)
  simp only [Option.some.injEq, Prod.mk.injEq, and_true] at hdec
  exact hdec.symm

namespace PoolTasks

variable {σ Cid Ciphertext Addr : Type}

section Loops

variable (P : Primitives)

/-- The loop over the requests of one poll. -/
def sendListed : List DecryptionRequest → PoolTasks σ Cid Ciphertext Addr →
    PoolTasks σ Cid Ciphertext Addr
  | [], t => t
  | req :: rest, t => if t.watching then sendListed rest (send P req rest t) else t

/-- The loop over the polls, as long as none fails. -/
def watch : List (Option Bytes) → PoolTasks σ Cid Ciphertext Addr →
    PoolTasks σ Cid Ciphertext Addr
  | [], t => t
  | answer :: answers, t =>
    if t.watching then watch answers (sendListed P (poll answer t).listed (poll answer t)) else t

end Loops

/-- The hash tells all requests of the list apart. -/
def CollisionFree (sha256 : Bytes → Arr 32) (requests : List DecryptionRequest) : Prop :=
  Set.InjOn sha256 {e | ∃ req ∈ requests, DecryptionRequest.codec.encode req = some e}

variable {P : Primitives} {t : PoolTasks σ Cid Ciphertext Addr}

theorem send_listed {req : DecryptionRequest} {rest : List DecryptionRequest}
    (h : (send P req rest t).watching = true) : (send P req rest t).listed = rest := by
  unfold send at h ⊢
  cases hid : req.id P.sha256 with
  | none => simp [hid] at h
  | some id =>
    simp only [hid] at h ⊢
    split_ifs at h ⊢ with hs hw
    · rfl
    · rfl

theorem sendListed_run {requests : List DecryptionRequest}
    (h : t.watching = true → t.listed = requests) :
    Relation.ReflTransGen (AnyStep P) t (sendListed P requests t) := by
  induction requests generalizing t with
  | nil => exact .refl
  | cons req rest ih =>
    rw [sendListed]
    split_ifs with hwatch
    · have hstep : AnyStep P t (send P req rest t) := ⟨.send, .send req rest t hwatch (h hwatch)⟩
      exact (ih fun hw => send_listed hw).head hstep
    · exact .refl

theorem sendListed_listed {requests : List DecryptionRequest}
    (h : t.watching = true → t.listed = requests)
    (hw : (sendListed P requests t).watching = true) : (sendListed P requests t).listed = [] := by
  induction requests generalizing t with
  | nil => exact h hw
  | cons req rest ih =>
    rw [sendListed] at hw ⊢
    split_ifs at hw ⊢ with hwatch
    · exact ih (fun hs => send_listed hs) hw
    · exact absurd hw hwatch

theorem watch_run {answers : List (Option Bytes)} (h : t.watching = true → t.listed = []) :
    Relation.ReflTransGen (AnyStep P) t (watch P answers t) := by
  induction answers generalizing t with
  | nil => exact .refl
  | cons answer answers ih =>
    rw [watch]
    split_ifs with hwatch
    · have hpoll : AnyStep P t (poll answer t) :=
        ⟨.poll answer, .poll answer t hwatch (h hwatch)⟩
      have hsend := sendListed_run (P := P) (t := poll answer t) fun _ => rfl
      exact (hsend.head hpoll).trans (ih (sendListed_listed fun _ => rfl))
    · exact .refl

theorem eraseDups_concat (done : List DecryptionRequest) (req : DecryptionRequest) :
    (done ++ [req]).eraseDups =
      if req ∈ done then done.eraseDups else done.eraseDups ++ [req] := by
  rw [List.eraseDups_append]
  by_cases h : req ∈ done <;> simp [List.removeAll, List.eraseDups_cons, h]

theorem nodup_eraseDups (done : List DecryptionRequest) : done.eraseDups.Nodup := by
  induction done using List.reverseRecOn with
  | nil => simp
  | append_singleton done req ih =>
    rw [eraseDups_concat]
    split_ifs with h
    · exact ih
    · rw [← List.concat_eq_append]
      exact List.Nodup.concat (by simpa using h) ih

/-- After the requests in `done`: each was sent where it appeared first. -/
structure Watched (P : Primitives) (done : List DecryptionRequest)
    (t : PoolTasks σ Cid Ciphertext Addr) : Prop where
  watching : t.watching = true
  working : t.working = true
  sent : t.queue = done.eraseDups
  seen : ∀ id, id ∈ t.seen ↔ ∃ req ∈ done, req.id P.sha256 = some id

theorem send_watched {done rest : List DecryptionRequest} {req : DecryptionRequest}
    (h : Watched P done t) (hfree : CollisionFree P.sha256 (done ++ [req])) {id : Bytes}
    (hid : req.id P.sha256 = some id) : Watched P (done ++ [req]) (send P req rest t) := by
  have henc {r : DecryptionRequest} (hr : r ∈ done ++ [req]) : ∀ e,
      DecryptionRequest.codec.encode r = some e →
      e ∈ {e | ∃ req' ∈ done ++ [req], DecryptionRequest.codec.encode req' = some e} :=
    fun e he => ⟨r, hr, he⟩
  have hlast : req ∈ done ++ [req] := List.mem_append_right _ List.mem_cons_self
  have hiff : id ∈ t.seen ↔ req ∈ done := by
    rw [h.seen]
    constructor
    · intro hh
      obtain ⟨r, hr, hr'⟩ := hh
      have hold : r ∈ done ++ [req] := List.mem_append_left _ hr
      obtain rfl := DecryptionRequest.id_inj hfree (henc hold) (henc hlast) hr' hid
      exact hr
    · intro hmem
      exact ⟨req, hmem, hid⟩
  have hseen (i : Bytes) : (∃ r ∈ done ++ [req], r.id P.sha256 = some i) ↔
      i ∈ t.seen ∨ i = id := by
    simp only [List.mem_append, List.mem_singleton, or_and_right, exists_or, exists_eq_left,
      h.seen, hid, Option.some.injEq, eq_comm (a := i)]
  by_cases hs : id ∈ t.seen
  · have hstep : send P req rest t = { t with listed := rest } := by simp [send, hid, hs]
    rw [hstep]
    refine ⟨h.watching, h.working, ?_, fun i => ?_⟩
    · rw [eraseDups_concat, if_pos (hiff.mp hs)]
      exact h.sent
    · rw [hseen]
      exact ⟨Or.inl, fun hi => hi.elim (fun hi => hi) fun hi => hi ▸ hs⟩
  · have hstep : send P req rest t =
        { t with listed := rest, seen := id :: t.seen, queue := t.queue ++ [req] } := by
      simp [send, hid, hs, h.working]
    rw [hstep]
    refine ⟨h.watching, h.working, ?_, fun i => ?_⟩
    · rw [eraseDups_concat, if_neg fun hmem => hs (hiff.mpr hmem), ← h.sent]
    · rw [hseen, List.mem_cons, or_comm]

theorem sendListed_watched {done requests : List DecryptionRequest} (h : Watched P done t)
    (hfree : CollisionFree P.sha256 (done ++ requests))
    (hnamed : ∀ req ∈ requests, ∃ id, req.id P.sha256 = some id) :
    Watched P (done ++ requests) (sendListed P requests t) := by
  induction requests generalizing done t with
  | nil => simpa [sendListed] using h
  | cons req rest ih =>
    rw [List.forall_mem_cons] at hnamed
    obtain ⟨id, hid⟩ := hnamed.1
    have happend : done ++ req :: rest = done ++ [req] ++ rest := by simp
    rw [happend] at hfree ⊢
    have hstep : CollisionFree P.sha256 (done ++ [req]) := by
      refine hfree.mono fun e he => ?_
      obtain ⟨r, hr, he⟩ := he
      exact ⟨r, List.mem_append_left _ hr, he⟩
    rw [sendListed, if_pos h.watching]
    exact ih (send_watched h hstep hid) hfree hnamed.2

theorem poll_watched {done poll' : List DecryptionRequest} {answer : Option Bytes}
    (h : Watched P done t) (hpoll : decodePoll answer = some poll') :
    Watched P done (poll answer t) ∧ (poll answer t).listed = poll' := by
  rw [poll, hpoll]
  exact ⟨⟨h.watching, h.working, h.sent, h.seen⟩, rfl⟩

theorem watch_watched {done : List DecryptionRequest} {answers : List (Option Bytes)}
    {polls : List (List DecryptionRequest)} (h : Watched P done t)
    (hpolls : List.Forall₂ (fun answer poll => decodePoll answer = some poll) answers polls)
    (hfree : CollisionFree P.sha256 (done ++ polls.flatten)) :
    Watched P (done ++ polls.flatten) (watch P answers t) := by
  induction hpolls generalizing done t with
  | nil => simpa [watch] using h
  | @cons answer requests answers polls hanswer _ ih =>
    obtain ⟨hpolled, hlisted⟩ := poll_watched h hanswer
    rw [List.flatten_cons, ← List.append_assoc] at hfree ⊢
    have hstep : CollisionFree P.sha256 (done ++ requests) := by
      refine hfree.mono fun e he => ?_
      obtain ⟨r, hr, he⟩ := he
      exact ⟨r, List.mem_append_left _ hr, he⟩
    rw [watch, if_pos h.watching, hlisted]
    exact ih (sendListed_watched hpolled hstep fun req hmem => decodePoll_named hanswer hmem) hfree

/-- The requests of all polls go to the channel in the order of their first
appearance, and each of them once. -/
theorem watch_sends {answers : List (Option Bytes)} {polls : List (List DecryptionRequest)}
    (hpolls : List.Forall₂ (fun answer poll => decodePoll answer = some poll) answers polls)
    (hfree : CollisionFree P.sha256 polls.flatten) (outside : WorkerEnv Cid Ciphertext Addr)
    (pool : σ) :
    (watch P answers (start outside pool)).queue = polls.flatten.eraseDups ∧
      (watch P answers (start outside pool)).queue.Nodup ∧
      ∀ req, req ∈ (watch P answers (start outside pool)).queue ↔
        ∃ poll ∈ polls, req ∈ poll := by
  have hstart : Watched P [] (start outside pool) := ⟨rfl, rfl, rfl, by simp [start]⟩
  have hsent := (watch_watched hstart hpolls hfree).sent
  rw [List.nil_append] at hsent
  rw [hsent]
  exact ⟨rfl, nodup_eraseDups _, by simp⟩

def request : DecryptionRequest := ⟨[102], [], []⟩

def elsewhere : DecryptionRequest := ⟨[102], [], [1]⟩

/-- A hash that tells these two apart. -/
def lengthPrimitives : Primitives :=
  { Worker.plainPrimitives with sha256 := fun e => beArr 32 e.length }

def twoAnswers : List (Option Bytes) :=
  [some [0, 8, 4, 102, 0, 0, 4, 102, 0, 0], some [0, 8, 4, 102, 0, 4, 1, 4, 102, 0, 0]]

theorem twoAnswers_polls : List.Forall₂ (fun answer poll => decodePoll answer = some poll)
    twoAnswers [[request, request], [elsewhere, request]] :=
  .cons (by decide) (.cons (by decide) .nil)

theorem collisionFree_twoAnswers : CollisionFree lengthPrimitives.sha256
    [[request, request], [elsewhere, request]].flatten := by
  have henc : ∀ e ∈ {e | ∃ req ∈ [[request, request], [elsewhere, request]].flatten,
      DecryptionRequest.codec.encode req = some e}, e = [4, 102, 0, 0] ∨ e = [4, 102, 0, 4, 1] := by
    intro e he
    obtain ⟨req, hreq, he⟩ := he
    have hreq : req = request ∨ req = elsewhere ∨ req = request := by simpa using hreq
    rcases hreq with rfl | rfl | rfl
    · exact Or.inl (Option.some.inj he).symm
    · exact Or.inr (Option.some.inj he).symm
    · exact Or.inl (Option.some.inj he).symm
  have hne : lengthPrimitives.sha256 [4, 102, 0, 0] ≠
      lengthPrimitives.sha256 [4, 102, 0, 4, 1] := by
    decide
  intro e he e' he' hsame
  rcases henc e he with rfl | rfl
  · rcases henc e' he' with rfl | rfl
    · rfl
    · exact absurd hsame hne
  · rcases henc e' he' with rfl | rfl
    · exact absurd hsame.symm hne
    · rfl

theorem watch_sends_twoAnswers :
    (watch lengthPrimitives twoAnswers (start (lockedEnv none) ())).queue =
      [request, elsewhere] := by
  have hsends := (watch_sends twoAnswers_polls collisionFree_twoAnswers (lockedEnv none) ()).1
  rw [hsends]
  decide

end PoolTasks

end Fangorn
