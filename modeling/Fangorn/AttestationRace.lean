import Fangorn.WorkerLiveness
import Fangorn.PoolClient

/-! The race for an attestation: several workers hold one request, deliver
their shares and submit to the pool contract in any order. -/

namespace Fangorn

open Rust Ink Scale

namespace Worker

variable {Cid Ciphertext Addr σ : Type}

def Echoes (registry : GadgetRegistry) (env : WorkerEnv Cid Ciphertext Addr)
    (req : DecryptionRequest) : Prop :=
  ∃ release, prepare registry env req = .ok (some release) ∧
    env.connect release.receiver = some ⟨true, true, true, some release.msgBytes⟩ ∧
    release.msgBytes.length ≤ 1000

theorem process_of_echoes {registry : GadgetRegistry} {env : WorkerEnv Cid Ciphertext Addr}
    {req : DecryptionRequest} (h : Echoes registry env req)
    (attest : DecryptionRequest → σ → Outcome Unit σ) (w : World σ Cid Ciphertext Addr) :
    ((processDecryptionRequest registry env attest req w).1 = .ok () ∧
      attest req w.pool = .ok (processDecryptionRequest registry env attest req w).2.pool) ∨
    ((processDecryptionRequest registry env attest req w).1 = .panic ∧
      (∀ pool, attest req w.pool ≠ .ok pool) ∧
      (processDecryptionRequest registry env attest req w).2.pool = w.pool) := by
  obtain ⟨release, hprep, hconn, hlen⟩ := h
  have hshort : ¬ 1000 < release.msgBytes.length := by omega
  simp only [processDecryptionRequest, hprep, deliver, hconn, Bool.not_true, if_neg hshort,
    Bool.false_eq_true, if_false]
  cases ha : attest req w.pool with
  | ok pool => exact Or.inl ⟨rfl, rfl⟩
  | err e => exact Or.inr ⟨rfl, fun pool => nofun, rfl⟩
  | panic => exact Or.inr ⟨rfl, fun pool => nofun, rfl⟩

end Worker

namespace AttestationRace

open Worker

inductive Phase where
  | waiting
  | holding
  | ended (outcome : Outcome Str Unit)

structure RaceState where
  pool : RequestPool
  phase : AccountId → Phase

section Steps

variable (blake2 sha256 : Bytes → Arr 32) (K : PoolConsts)

def submitAttestation (worker : AccountId) (req : DecryptionRequest) (pool : RequestPool) :
    Outcome Unit RequestPool := do
  let id ← .expect (req.id sha256)
  InkContractPool.submitPartialAttestation blake2 K worker id [] pool

variable (registry : GadgetRegistry) (Cid Ciphertext Addr : Type) (req : DecryptionRequest)

/-- A worker takes the request from the pool, or carries its call through to
the attestation on the pool as it is by then. -/
inductive RaceStep : RaceState → RaceState → Prop
  | take (worker : AccountId) (s : RaceState) : worker ∈ s.pool.authorizedWorkers →
      req ∈ s.pool.readAll → s.phase worker = .waiting →
      RaceStep s { s with phase := Function.update s.phase worker .holding }
  | finish (worker : AccountId) (env : WorkerEnv Cid Ciphertext Addr) (s : RaceState)
      (o : Outcome Str Unit) (w : World RequestPool Cid Ciphertext Addr) :
      s.phase worker = .holding → Echoes registry env req →
      processDecryptionRequest registry env (submitAttestation blake2 sha256 K worker) req
        ⟨s.pool, []⟩ = (o, w) →
      RaceStep s ⟨w.pool, Function.update s.phase worker (.ended o)⟩

structure Settled (s : RaceState) : Prop where
  fulfilled : ∃ v, s.pool.getAttestation (RequestPool.requestId blake2 req) = some v
  survived : ∀ worker o, s.phase worker = .ended o → o ≠ .panic

end Steps

variable {blake2 sha256 : Bytes → Arr 32} {K : PoolConsts} {registry : GadgetRegistry}
  {Cid Ciphertext Addr : Type} {req : DecryptionRequest} {s t : RaceState}

theorem submitAttestation_not_ok (h : InkContractPool.DistinctSelectors blake2)
    (worker : AccountId) (pool pool' : RequestPool) :
    submitAttestation blake2 sha256 K worker req pool ≠ .ok pool' := by
  intro hok
  obtain ⟨id, -, hsub⟩ := Outcome.bind_eq_ok.mp hok
  exact InkContractPool.submit_not_ok h worker id [] pool pool' hsub

theorem step_stops (h : InkContractPool.DistinctSelectors blake2)
    (hstep : RaceStep blake2 sha256 K registry Cid Ciphertext Addr req s t) :
    t.pool = s.pool ∧ ∀ worker o, t.phase worker = .ended o →
      s.phase worker = .ended o ∨ o = .panic := by
  cases hstep with
  | take w _ _ _ _ =>
    refine ⟨rfl, fun worker o ho => Or.inl ?_⟩
    by_cases hw : worker = w
    · subst hw
      simp at ho
    · simpa [Function.update_of_ne hw] using ho
  | finish w env _ o world hhold hecho hproc =>
    have hcases := process_of_echoes hecho (submitAttestation blake2 sha256 K w)
      (⟨s.pool, []⟩ : World RequestPool Cid Ciphertext Addr)
    rw [hproc] at hcases
    rcases hcases with ⟨-, hok⟩ | ⟨hpanic, -, hpool⟩
    · exact False.elim (submitAttestation_not_ok h w s.pool world.pool hok)
    · refine ⟨hpool, fun worker o' ho => ?_⟩
      by_cases hw : worker = w
      · subst hw
        simp only [Function.update_self, Phase.ended.injEq] at ho
        exact Or.inr (ho ▸ hpanic)
      · exact Or.inl (by simpa [Function.update_of_ne hw] using ho)

/-- In every run each worker that gets as far as its attestation is stopped by
it, and the request stays open. -/
theorem race_never_settled (h : InkContractPool.DistinctSelectors blake2) {pool : RequestPool}
    (hopen : pool.getAttestation (RequestPool.requestId blake2 req) = none)
    (hrun : Relation.ReflTransGen (RaceStep blake2 sha256 K registry Cid Ciphertext Addr req)
      ⟨pool, fun _ => .waiting⟩ s) :
    (s.pool = pool ∧ ∀ worker o, s.phase worker = .ended o → o = .panic) ∧
      ¬ Settled blake2 req s := by
  have hinv : s.pool = pool ∧ ∀ worker o, s.phase worker = .ended o → o = .panic := by
    induction hrun with
    | refl => exact ⟨rfl, fun worker o ho => nomatch ho⟩
    | tail _ hstep ih =>
      obtain ⟨hpool, hphase⟩ := step_stops h hstep
      refine ⟨hpool.trans ih.1, fun worker o ho => ?_⟩
      rcases hphase worker o ho with hold | hnew
      · exact ih.2 worker o hold
      · exact hnew
  refine ⟨hinv, fun hsettled => ?_⟩
  obtain ⟨v, hv⟩ := hsettled.fulfilled
  rw [hinv.1, hopen] at hv
  cases hv

section Alone

open InkContractPool

/-- The file `f` without intents, its ciphertext in the document, and a
receiver that sends the message back. -/
def echoEnv : WorkerEnv Bytes Bytes Bytes where
  lib := byteLib
  blake2 := blake2OfNames
  chain := ⟨fun _ _ => .ok [0, 1, 0, 4, 0], fun _ => .ok none⟩
  intentStore := beArr 32 0
  docRead _ := .ok (some [2, 0])
  index := 0
  connect _ := some ⟨true, true, true, some [4, 102, 0, 0]⟩

def echoRegistry : GadgetRegistry := .deployed plainPrimitives echoEnv.chain

theorem echoes_sample : Echoes echoRegistry echoEnv sampleRequest :=
  ⟨⟨[], [], ⟨[102], 0, []⟩, [4, 102, 0, 0], []⟩, rfl, rfl, by decide⟩

def raceStart : RaceState := ⟨openPool, fun _ => .waiting⟩

def raceLost : RaceState :=
  ⟨openPool, Function.update (Function.update (fun _ => .waiting) (beArr 32 1) .holding)
    (beArr 32 1) (.ended .panic)⟩

abbrev EchoStep : RaceState → RaceState → Prop :=
  RaceStep blake2OfNames sha256OfSample .deployed echoRegistry Bytes Bytes Bytes sampleRequest

theorem raceLost_reached : Relation.ReflTransGen EchoStep raceStart raceLost := by
  have hholding : EchoStep raceStart
      ⟨openPool, Function.update (fun _ => .waiting) (beArr 32 1) .holding⟩ :=
    .take (beArr 32 1) raceStart (by decide) (by decide) rfl
  refine (Relation.ReflTransGen.single hholding).tail ?_
  have hpanic := process_of_echoes echoes_sample
    (submitAttestation blake2OfNames sha256OfSample .deployed (beArr 32 1))
    (⟨openPool, []⟩ : World RequestPool Bytes Bytes Bytes)
  rcases hp : processDecryptionRequest echoRegistry echoEnv
      (submitAttestation blake2OfNames sha256OfSample .deployed (beArr 32 1)) sampleRequest
      (⟨openPool, []⟩ : World RequestPool Bytes Bytes Bytes) with ⟨o, w⟩
  rw [hp] at hpanic
  rcases hpanic with ⟨-, hok⟩ | ⟨hp', -, hpool⟩
  · exact absurd hok (submitAttestation_not_ok distinctSelectors_sample _ _ _)
  · obtain ⟨pool, sent⟩ := w
    obtain rfl : o = .panic := hp'
    obtain rfl : pool = openPool := hpool
    exact .finish (beArr 32 1) echoEnv _ .panic ⟨_, sent⟩ (by simp) echoes_sample hp

/-- Its share arrived and was sent back; the pool refuses the attestation, and
the request stays open for good. -/
theorem lone_worker_lost : openPool.getAttestation
      (RequestPool.requestId blake2OfNames sampleRequest) = none ∧
    Relation.ReflTransGen EchoStep raceStart raceLost ∧
    raceLost.phase (beArr 32 1) = .ended .panic ∧
    ¬ Settled blake2OfNames sampleRequest raceLost := by
  have hended : raceLost.phase (beArr 32 1) = .ended .panic := by
    simp only [raceLost, Function.update_self]
  exact ⟨rfl, raceLost_reached, hended, fun h => h.survived _ _ hended rfl⟩

theorem race_never_settled_alone :
    (raceLost.pool = openPool ∧ ∀ worker o, raceLost.phase worker = .ended o → o = .panic) ∧
      ¬ Settled blake2OfNames sampleRequest raceLost :=
  race_never_settled distinctSelectors_sample rfl raceLost_reached

end Alone

end AttestationRace

end Fangorn
