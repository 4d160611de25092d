import Fangorn.Lib.Repeats
import Fangorn.PoolAttestations

/-! The combined attestation that `finalize_request` records, over whole runs:
the counter counts workers, and the loop goes over the list of them, in which
nothing keeps an account from standing twice. -/

namespace Fangorn

open Rust Ink

inductive PoolCall where
  | add (request : DecryptionRequest)
  | submit (caller : AccountId) (id : Bytes) (attestation : Attestation)

namespace RequestPool

section Definitions

variable (blake2 : Bytes → Arr 32) (K : PoolConsts)

def exec (s : RequestPool) : PoolCall → RequestPool
  | .add request => (RequestPool.add blake2 request s).2
  | .submit caller id attestation => (submitPartialAttestation K caller id attestation s).2

def run (s : RequestPool) (calls : List PoolCall) : RequestPool := calls.foldl (exec blake2 K) s

/-- Each worker that attested is in it once, in the order of the list, and they
are as many as the threshold asks for. -/
def CombinedOnce (id : Bytes) (v : Attestation) (s : RequestPool) : Prop :=
  ∃ contributors : List AccountId, contributors.Sublist s.authorizedWorkers ∧
    contributors.Nodup ∧ (∀ w, w ∈ contributors ↔ w ∈ s.attesters id) ∧
    contributors.length = K.threshold ∧
    v = (contributors.filterMap fun w => s.partialAttestations (id, w)).flatten

structure Completes (caller : AccountId) (id : Bytes) (s : RequestPool) : Prop
    extends Accepted caller id s where
  reached : K.threshold ≤ s.getAttestationCount id + 1

def attestationsWith (caller : AccountId) (id : Bytes) (a : Attestation) (s : RequestPool)
    (w : AccountId) : Option Attestation :=
  s.partialAttestations.insert (id, caller) a (id, w)

/-- Every combined attestation of every state of a run takes each worker once. -/
def CombinesOnce (s₀ : RequestPool) (calls : List PoolCall) : Prop :=
  ∀ pre id v, pre <+: calls → (run blake2 K s₀ pre).getAttestation id = some v →
    CombinedOnce K id v (run blake2 K s₀ pre)

/-- When a submission completes a request, the workers that are listed more than
once have attested it with nothing, or not at all. -/
def RepeatsHarmless (s₀ : RequestPool) (calls : List PoolCall) : Prop :=
  ∀ pre caller id a, pre ++ [.submit caller id a] <+: calls →
    Completes K caller id (run blake2 K s₀ pre) →
    Repeats.Harmless (attestationsWith caller id a (run blake2 K s₀ pre)) s₀.authorizedWorkers

end Definitions

variable {blake2 : Bytes → Arr 32} {K : PoolConsts} {s s₀ : RequestPool} {workers : List AccountId}

variable (blake2 K) in
theorem exec_step (s : RequestPool) (c : PoolCall) : Step blake2 K s (exec blake2 K s c) := by
  cases c with
  | add request => exact .add request s
  | submit caller id a => exact .submit caller id a s

theorem run_concat (calls : List PoolCall) (c : PoolCall) :
    run blake2 K s (calls ++ [c]) = exec blake2 K (run blake2 K s calls) c :=
  List.foldl_concat ..

theorem run_reachable (hnew : new K workers = some s₀) (calls : List PoolCall) :
    Reachable blake2 K (run blake2 K s₀ calls) := by
  refine ⟨workers, s₀, hnew, ?_⟩
  induction calls using List.reverseRecOn with
  | nil => exact .refl
  | append_singleton calls c ih =>
    rw [run_concat]
    exact ih.tail (exec_step blake2 K _ c)

theorem exec_workers (c : PoolCall) :
    (exec blake2 K s c).authorizedWorkers = s.authorizedWorkers := by
  cases c with
  | add request => exact (add_frame blake2 s request).1
  | submit caller id a =>
    rcases submit_cases (K := K) caller id a s with ⟨e, hrefused⟩ | ⟨-, hstored⟩
    · rw [exec, hrefused]
    · rw [exec, hstored]
      exact storePartial_workers K caller id a s

theorem run_workers (s : RequestPool) (calls : List PoolCall) :
    (run blake2 K s calls).authorizedWorkers = s.authorizedWorkers := by
  induction calls using List.reverseRecOn with
  | nil => rfl
  | append_singleton calls c ih => rw [run_concat, exec_workers, ih]

theorem completes_of_recorded {caller : AccountId} {id i : Bytes} {a v : Attestation}
    (hbefore : s.getAttestation i = none)
    (hafter : (submitPartialAttestation K caller id a s).2.getAttestation i = some v) :
    i = id ∧ Completes K caller id s := by
  rcases submit_cases (K := K) caller id a s with ⟨e, hrefused⟩ | ⟨hacc, hstored⟩
  · rw [hrefused, hbefore] at hafter
    cases hafter
  · rw [hstored, storePartial_getAttestation] at hafter
    split_ifs at hafter with hreached
    · obtain ⟨rfl, hle⟩ := hreached
      exact ⟨rfl, hacc, by omega⟩
    · rw [hbefore] at hafter
      cases hafter

section Recording

variable {caller : AccountId} {id : Bytes} (h : Attested K s)
include h

/-- The threshold is not passed: the count was below it before. -/
theorem ncard_of_completes (a : Attestation) (hc : Completes K caller id s) :
    ((storePartial K caller id a s).attesters id).ncard = K.threshold := by
  have hbelow : ¬ K.threshold ≤ s.getAttestationCount id := by
    rw [h.counted id, ← h.fulfilled id]
    exact Bool.eq_false_iff.mp hc.unfulfilled
  have hreached := hc.reached
  rw [storePartial_attesters, if_pos rfl, (h.ncard_insert hc.toAccepted).1]
  omega

variable (hW : K.totalWorkers < 2 ^ 32)
include hW

theorem storePartial_recorded (a : Attestation) (hc : Completes K caller id s) :
    (storePartial K caller id a s).getAttestation id =
      some (s.authorizedWorkers.filterMap (attestationsWith caller id a s)).flatten := by
  have hle := (h.ncard_insert hc.toAccepted).2
  have hreached := hc.reached
  rw [storePartial_getAttestation, if_pos ⟨rfl, by omega⟩]
  rfl

theorem combinedOnce_iff (a : Attestation) (hc : Completes K caller id s) :
    (∀ v, (storePartial K caller id a s).getAttestation id = some v →
      CombinedOnce K id v (storePartial K caller id a s)) ↔
      Repeats.Harmless (attestationsWith caller id a s) s.authorizedWorkers := by
  have hrecorded := storePartial_recorded h hW a hc
  have hafter := storePartial_attested hW h a hc.toAccepted
  have hpieces : (fun w => (storePartial K caller id a s).partialAttestations (id, w)) =
      attestationsWith caller id a s := by
    rw [storePartial_partials]
    rfl
  have hattester (w : AccountId) : w ∈ (storePartial K caller id a s).attesters id ↔
      (attestationsWith caller id a s w).isSome = true := by
    rw [← congrFun hpieces w]
    rfl
  constructor
  · intro hv
    obtain ⟨contributors, hsub, hnodup, -, -, hcombined⟩ := hv _ hrecorded
    rw [storePartial_workers] at hsub
    rw [hpieces] at hcombined
    exact Repeats.harmless_of_flatten_eq hsub hnodup hcombined
  · intro hharmless v hv
    obtain rfl := Option.some.inj (hrecorded.symm.trans hv)
    let contributors := s.authorizedWorkers.dedup.filter fun w =>
      (attestationsWith caller id a s w).isSome
    have hnodup : contributors.Nodup := (List.nodup_dedup _).filter _
    have hmem (w : AccountId) :
        w ∈ contributors ↔ w ∈ (storePartial K caller id a s).attesters id := by
      rw [List.mem_filter, List.mem_dedup, hattester]
      refine ⟨fun hw => hw.2, fun hw => ⟨?_, hw⟩⟩
      have hworker := hafter.authorized id w ((hattester w).mpr hw)
      rwa [storePartial_workers] at hworker
    have hset : ↑contributors.toFinset = (storePartial K caller id a s).attesters id := by
      ext w
      rw [List.coe_toFinset]
      exact hmem w
    have hlength : contributors.length = K.threshold := by
      rw [← ncard_of_completes h a hc, ← hset, Set.ncard_coe_finset,
        List.toFinset_card_of_nodup hnodup]
    refine ⟨contributors, ?_, hnodup, hmem, hlength, ?_⟩
    · rw [storePartial_workers]
      exact List.filter_sublist.trans (List.dedup_sublist _)
    · rw [hpieces, List.filterMap_filter, ← Repeats.flatten_dedup hharmless]
      congr 2
      funext w
      cases attestationsWith caller id a s w <;> rfl

end Recording

theorem CombinedOnce.congr {s' : RequestPool} {id : Bytes} {v : Attestation}
    (h : CombinedOnce K id v s) (hworkers : s'.authorizedWorkers = s.authorizedWorkers)
    (hpartials : ∀ w, s'.partialAttestations (id, w) = s.partialAttestations (id, w)) :
    CombinedOnce K id v s' := by
  obtain ⟨contributors, hsub, hnodup, hmem, hlength, rfl⟩ := h
  refine ⟨contributors, hworkers ▸ hsub, hnodup, fun w => ?_, hlength, ?_⟩
  · rw [hmem]
    simp only [attesters, Mapping.contains, Set.mem_ofPred_eq, hpartials]
  · simp only [hpartials]

theorem exec_partials_of_recorded {id : Bytes} {v : Attestation} (h : s.getAttestation id = some v)
    (c : PoolCall) (w : AccountId) :
    (exec blake2 K s c).partialAttestations (id, w) = s.partialAttestations (id, w) := by
  cases c with
  | add request => exact congrFun (add_frame blake2 s request).2.1 _
  | submit caller i a =>
    rcases submit_cases (K := K) caller i a s with ⟨e, hrefused⟩ | ⟨hacc, hstored⟩
    · rw [exec, hrefused]
    · have hne : id ≠ i := by
        rintro rfl
        have hfulfilled := Mapping.contains_iff.mpr ⟨v, h⟩
        exact Bool.false_ne_true (hacc.unfulfilled.symm.trans hfulfilled)
      rw [exec, hstored, storePartial_partials]
      exact Mapping.insert_of_ne _ _ fun he => hne (congrArg Prod.fst he)

theorem recorded_of_exec {id : Bytes} {v : Attestation} {c : PoolCall}
    (hbefore : s.getAttestation id = none)
    (hafter : (exec blake2 K s c).getAttestation id = some v) :
    ∃ caller a, c = .submit caller id a ∧ Completes K caller id s := by
  cases c with
  | add request =>
    obtain ⟨-, -, -, hsame⟩ := add_frame blake2 s request
    have hnone := (congrFun hsame id).trans hbefore
    cases hnone.symm.trans hafter
  | submit caller i a =>
    obtain ⟨rfl, hc⟩ := completes_of_recorded hbefore hafter
    exact ⟨caller, a, rfl, hc⟩

section Run

variable (hK : 0 < K.threshold) (hW : K.totalWorkers < 2 ^ 32) (hnew : new K workers = some s₀)
include hK hnew

theorem run_attested (calls : List PoolCall) (hW : K.totalWorkers < 2 ^ 32) :
    Attested K (run blake2 K s₀ calls) :=
  reachable_attested hK hW (run_reachable hnew calls)

include hW

theorem combinedOnce_concat_iff {pre : List PoolCall} {caller : AccountId} {id : Bytes}
    (a : Attestation) (hc : Completes K caller id (run blake2 K s₀ pre)) :
    (∀ v, (run blake2 K s₀ (pre ++ [.submit caller id a])).getAttestation id = some v →
      CombinedOnce K id v (run blake2 K s₀ (pre ++ [.submit caller id a]))) ↔
      Repeats.Harmless (attestationsWith caller id a (run blake2 K s₀ pre))
        s₀.authorizedWorkers := by
  have hexec : run blake2 K s₀ (pre ++ [.submit caller id a]) =
      storePartial K caller id a (run blake2 K s₀ pre) := by
    rw [run_concat, exec, submit_of_accepted a hc.toAccepted]
  have hiff := combinedOnce_iff (run_attested hK hnew pre hW) hW a hc
  rwa [run_workers, ← hexec] at hiff

theorem harmless_of_combinesOnce {calls : List PoolCall} (h : CombinesOnce blake2 K s₀ calls) :
    RepeatsHarmless blake2 K s₀ calls := by
  intro pre caller id a hpre hc
  exact (combinedOnce_concat_iff hK hW hnew a hc).mp fun v hv => h _ id v hpre hv

theorem combinesOnce_of_harmless {calls : List PoolCall}
    (h : RepeatsHarmless blake2 K s₀ calls) : CombinesOnce blake2 K s₀ calls := by
  intro pre
  induction pre using List.reverseRecOn with
  | nil =>
    intro id v _ hv
    obtain ⟨-, rfl⟩ := new_eq_some.mp hnew
    cases hv
  | append_singleton pre c ih =>
    intro id v hpre hv
    cases hbefore : (run blake2 K s₀ pre).getAttestation id with
    | none =>
      rw [run_concat] at hv
      obtain ⟨caller, a, rfl, hc⟩ := recorded_of_exec hbefore hv
      have hharmless := h pre caller id a hpre hc
      rw [← run_concat] at hv
      exact (combinedOnce_concat_iff hK hW hnew a hc).mpr hharmless v hv
    | some v' =>
      -- recorded before, and left alone since
      have hkept := step_getAttestation (exec_step blake2 K _ c) hbefore
      rw [run_concat] at hv ⊢
      obtain rfl : v' = v := Option.some.inj (hkept.symm.trans hv)
      have hold := ih id v' ((List.prefix_append ..).trans hpre) hbefore
      exact hold.congr (exec_workers c) (exec_partials_of_recorded hbefore c)

/-- The loop of `finalize_request` goes over the list, and the counter counts
accounts. So they agree in a run exactly when no worker that is listed more than
once has attested a completed request with anything. -/
theorem combined_once_iff (calls : List PoolCall) :
    CombinesOnce blake2 K s₀ calls ↔ RepeatsHarmless blake2 K s₀ calls := by
  constructor
  · exact harmless_of_combinesOnce hK hW hnew
  · exact combinesOnce_of_harmless hK hW hnew

end Run

def twicePool : RequestPool :=
  { emptyPool with authorizedWorkers := [Scale.beArr 32 1, Scale.beArr 32 1] }

def oneAttested : List PoolCall :=
  [.add ⟨[97, 98], [], []⟩, .submit (Scale.beArr 32 1) idOfAb [7]]

theorem attestation_combined_twice :
    new .deployed [Scale.beArr 32 1, Scale.beArr 32 1] = some twicePool ∧
    (run blake2OfAb .deployed twicePool oneAttested).getAttestation idOfAb = some [7, 7] ∧
    ¬ CombinesOnce blake2OfAb .deployed twicePool oneAttested := by
  have hrecorded : (run blake2OfAb .deployed twicePool oneAttested).getAttestation idOfAb =
      some [7, 7] := by decide
  have hpartial : (run blake2OfAb .deployed twicePool oneAttested).partialAttestations
      (idOfAb, Scale.beArr 32 1) = some [7] := by decide
  refine ⟨rfl, hrecorded, fun h => ?_⟩
  obtain ⟨contributors, hsub, -, -, hlength, hcombined⟩ :=
    h oneAttested idOfAb [7, 7] List.prefix_rfl hrecorded
  obtain ⟨w, rfl⟩ := List.length_eq_one_iff.mp hlength
  obtain rfl : w = Scale.beArr 32 1 := by
    have hmem := hsub.subset List.mem_cons_self
    rw [run_workers] at hmem
    simpa [twicePool] using hmem
  rw [List.filterMap_cons, hpartial] at hcombined
  cases hcombined

theorem combined_once_iff_oneAttested :
    CombinesOnce blake2OfAb .deployed emptyPool oneAttested := by
  have hnew : new .deployed emptyPool.authorizedWorkers = some emptyPool := rfl
  refine (combined_once_iff (by decide) (by decide) hnew oneAttested).mpr ?_
  intro pre caller id a _ _
  exact Repeats.harmless_of_nodup (by decide)

def submissions (id : Bytes) (ws : List AccountId) : List PoolCall :=
  ws.map fun w => .submit w id [1]

section Lists

variable (hnew : new K workers = some s₀)
include hnew

theorem workers_of_new : s₀.authorizedWorkers = workers := by
  obtain ⟨-, rfl⟩ := new_eq_some.mp hnew
  rfl

variable (blake2) in
theorem run_added (r : DecryptionRequest) :
    (run blake2 K s₀ [.add r]).requests.contains (requestId blake2 r) = true ∧
    ∀ w, (run blake2 K s₀ [.add r]).partialAttestations (requestId blake2 r, w) = none := by
  obtain ⟨-, rfl⟩ := new_eq_some.mp hnew
  simp [run, exec, add, Mapping.contains]

variable (hK : 0 < K.threshold) (hW : K.totalWorkers < 2 ^ 32)
include hK hW

/-- With fewer attestations than the threshold, the next worker's is accepted. -/
theorem accepted_of_partials {calls : List PoolCall} {id : Bytes} {ws : List AccountId}
    {x : AccountId} (hnodup : (ws ++ [x]).Nodup) (hx : x ∈ workers)
    (hlen : ws.length < K.threshold)
    (hstored : (run blake2 K s₀ calls).requests.contains id = true)
    (hpartials : ∀ w, (run blake2 K s₀ calls).partialAttestations (id, w) =
      if w ∈ ws then some [1] else none) :
    Accepted x id (run blake2 K s₀ calls) ∧
      (run blake2 K s₀ calls).getAttestationCount id = ws.length := by
  have hattested : Attested K (run blake2 K s₀ calls) := run_attested hK hnew calls hW
  obtain ⟨hws, -, hne⟩ := List.nodup_append.mp hnodup
  have hset : (run blake2 K s₀ calls).attesters id = ↑ws.toFinset := by
    ext w
    by_cases hw : w ∈ ws <;> simp [attesters, Mapping.contains, hpartials, hw]
  have hcount : ((run blake2 K s₀ calls).attesters id).ncard = ws.length := by
    rw [hset, Set.ncard_coe_finset, List.toFinset_card_of_nodup hws]
  refine ⟨⟨?_, hstored, ?_, ?_⟩, (hattested.counted id).trans hcount⟩
  · rw [run_workers, workers_of_new hnew]
    exact hx
  · have hopen : ¬ ((run blake2 K s₀ calls).getAttestation id).isSome = true := by
      rw [hattested.fulfilled id, hcount]
      omega
    exact Bool.eq_false_iff.mpr hopen
  · have hxs : x ∉ ws := fun hmem => hne x hmem x List.mem_cons_self rfl
    rw [Mapping.contains, hpartials, if_neg hxs]
    rfl

variable (blake2) in
/-- Different workers attest an added request one after the other. -/
theorem run_submissions (r : DecryptionRequest) {ws : List AccountId} (hnodup : ws.Nodup)
    (hsub : ∀ w ∈ ws, w ∈ workers) (hlen : ws.length ≤ K.threshold) :
    (run blake2 K s₀ (.add r :: submissions (requestId blake2 r) ws)).requests.contains
        (requestId blake2 r) = true ∧
      ∀ w, (run blake2 K s₀ (.add r :: submissions (requestId blake2 r) ws)).partialAttestations
        (requestId blake2 r, w) = if w ∈ ws then some [1] else none := by
  induction ws using List.reverseRecOn with
  | nil =>
    obtain ⟨hstored, hnone⟩ := run_added blake2 hnew r
    refine ⟨hstored, fun w => ?_⟩
    rw [if_neg List.not_mem_nil]
    exact hnone w
  | append_singleton ws x ih =>
    rw [List.length_append, List.length_singleton] at hlen
    have hws : ws.Nodup := (List.nodup_append.mp hnodup).1
    obtain ⟨hstored, hpartials⟩ := ih hws (fun w hw => hsub w (List.mem_append_left _ hw))
      (by omega)
    have hx : x ∈ workers := hsub x (List.mem_append_right _ List.mem_cons_self)
    obtain ⟨hacc, -⟩ := accepted_of_partials hnew hK hW hnodup hx (by omega) hstored hpartials
    have hrun : run blake2 K s₀ (.add r :: submissions (requestId blake2 r) (ws ++ [x])) =
        storePartial K x (requestId blake2 r) [1]
          (run blake2 K s₀ (.add r :: submissions (requestId blake2 r) ws)) := by
      rw [submissions, List.map_append, ← List.cons_append]
      exact (run_concat ..).trans (congrArg Prod.snd (submit_of_accepted [1] hacc))
    rw [hrun, (storePartial_requests ..).1]
    refine ⟨hstored, fun w => ?_⟩
    rw [storePartial_partials, Mapping.insert_apply, hpartials]
    by_cases hw : w = x
    · simp [hw]
    · simp [hw]

/-- No more workers attest than stand in the list without its repetitions. -/
theorem threshold_le_of_completes {calls : List PoolCall} {caller : AccountId} {id : Bytes}
    (hc : Completes K caller id (run blake2 K s₀ calls)) :
    K.threshold ≤ workers.dedup.length := by
  have hattested : Attested K (run blake2 K s₀ calls) := run_attested hK hnew calls hW
  have hafter := storePartial_attested hW hattested [] hc.toAccepted
  have hsub : (storePartial K caller id [] (run blake2 K s₀ calls)).attesters id ⊆
      ↑workers.toFinset := by
    intro w hw
    have hworker := hafter.authorized id w hw
    rw [storePartial_workers, run_workers, workers_of_new hnew] at hworker
    simpa using hworker
  calc K.threshold
      = ((storePartial K caller id [] (run blake2 K s₀ calls)).attesters id).ncard :=
        (ncard_of_completes hattested [] hc).symm
    _ ≤ Set.ncard ↑workers.toFinset := Set.ncard_le_ncard hsub (Finset.finite_toSet _)
    _ = workers.dedup.length := by rw [Set.ncard_coe_finset, List.card_toFinset]

variable (blake2) in
theorem exists_completes {x : AccountId} (hmem : x ∈ workers)
    (henough : K.threshold ≤ workers.dedup.length) :
    ∃ calls id, Completes K x id (run blake2 K s₀ calls) := by
  let others := (workers.dedup.erase x).take (K.threshold - 1)
  have hothers : ∀ w ∈ others, w ∈ workers := fun w hw =>
    List.mem_dedup.mp (List.mem_of_mem_erase (List.mem_of_mem_take hw))
  have hnodup : (others ++ [x]).Nodup := by
    have herase : (workers.dedup.erase x).Nodup := (List.nodup_dedup _).erase x
    rw [← List.concat_eq_append]
    refine List.Nodup.concat (fun hw => ?_) (herase.sublist (List.take_sublist ..))
    exact (List.nodup_dedup workers).not_mem_erase (List.mem_of_mem_take hw)
  have hlen : others.length = K.threshold - 1 := by
    have herase := List.length_erase_of_mem (List.mem_dedup.mpr hmem)
    rw [List.length_take, herase]
    omega
  let request : DecryptionRequest := ⟨[], [], []⟩
  obtain ⟨hstored, hpartials⟩ := run_submissions blake2 hnew hK hW request
    (List.nodup_append.mp hnodup).1 hothers (by omega)
  obtain ⟨hacc, hcount⟩ :=
    accepted_of_partials hnew hK hW hnodup hmem (by omega) hstored hpartials
  exact ⟨_, _, hacc, by omega⟩

/-- A list under which all runs go well has no worker twice, or too few for
anything to be completed. -/
theorem always_combines_once_iff :
    (∀ calls, CombinesOnce blake2 K s₀ calls) ↔
      workers.Nodup ∨ workers.dedup.length < K.threshold := by
  constructor
  · intro h
    by_contra hno
    rw [not_or, Nat.not_lt] at hno
    obtain ⟨hrepeat, henough⟩ := hno
    obtain ⟨x, hx⟩ := List.exists_duplicate_iff_not_nodup.mpr hrepeat
    obtain ⟨calls, id, hc⟩ := exists_completes blake2 hnew hK hW hx.mem henough
    have hharmless := harmless_of_combinesOnce hK hW hnew (h (calls ++ [.submit x id [1]]))
    rw [← workers_of_new hnew] at hx
    have hempty := hharmless calls x id [1] List.prefix_rfl hc x hx [1] (Mapping.insert_self ..)
    cases hempty
  · intro h calls
    apply combinesOnce_of_harmless hK hW hnew
    intro pre caller id a _ hc
    rw [workers_of_new hnew]
    rcases h with hnodup | hfew
    · exact Repeats.harmless_of_nodup hnodup
    · have henough := threshold_le_of_completes hnew hK hW hc
      omega

end Lists

end RequestPool

end Fangorn
