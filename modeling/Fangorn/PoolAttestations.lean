import Fangorn.RequestPool
import Mathlib.Data.Set.Card

/-! The attestations a request pool collects: who may submit one, how they are
counted, and when the combined attestation of a request is stored. -/

namespace Fangorn

open Rust Ink

namespace RequestPool

def attesters (s : RequestPool) (id : Bytes) : Set AccountId :=
  {w | s.partialAttestations.contains (id, w) = true}

/-- The bookkeeping of `submit_partial_attestation` over its five storage items. -/
structure Attested (K : PoolConsts) (s : RequestPool) : Prop where
  workers : s.authorizedWorkers.length = K.totalWorkers
  authorized : ∀ id, ∀ w ∈ s.attesters id, w ∈ s.authorizedWorkers
  stored : ∀ id, ∀ w ∈ s.attesters id, s.requests.contains id
  counted : ∀ id, s.getAttestationCount id = (s.attesters id).ncard
  fulfilled : ∀ id, (s.getAttestation id).isSome ↔ K.threshold ≤ (s.attesters id).ncard

section Submission

theorem finalizeRequest_getAttestation (id i : Bytes) (s : RequestPool) :
    (finalizeRequest id s).getAttestation i =
      if i = id then
        some (s.authorizedWorkers.filterMap fun w => s.partialAttestations (id, w)).flatten
      else s.getAttestation i :=
  Mapping.insert_apply ..

variable (K : PoolConsts) (caller : AccountId) (id : Bytes) (a : Attestation) (s : RequestPool)

theorem storePartial_workers :
    (storePartial K caller id a s).authorizedWorkers = s.authorizedWorkers := by
  simp only [storePartial]
  split_ifs <;> rfl

theorem storePartial_partials : (storePartial K caller id a s).partialAttestations =
    s.partialAttestations.insert (id, caller) a := by
  simp only [storePartial]
  split_ifs <;> rfl

theorem storePartial_count (i : Bytes) : (storePartial K caller id a s).getAttestationCount i =
    if i = id then min (s.getAttestationCount id + 1) (2 ^ 32 - 1)
    else s.getAttestationCount i := by
  have hcounts : (storePartial K caller id a s).attestationCounts =
      s.attestationCounts.insert id (min (s.getAttestationCount id + 1) (2 ^ 32 - 1)) := by
    simp only [storePartial]
    split_ifs <;> rfl
  rw [getAttestationCount, hcounts, Mapping.insert_apply]
  by_cases hi : i = id
  · rw [if_pos hi, if_pos hi]
    rfl
  · rw [if_neg hi, if_neg hi]
    rfl

theorem storePartial_getAttestation (i : Bytes) :
    (storePartial K caller id a s).getAttestation i =
      if i = id ∧ K.threshold ≤ min (s.getAttestationCount id + 1) (2 ^ 32 - 1) then
        some (s.authorizedWorkers.filterMap fun w =>
          s.partialAttestations.insert (id, caller) a (id, w)).flatten
      else s.getAttestation i := by
  simp only [storePartial]
  by_cases ht : K.threshold ≤ min (s.getAttestationCount id + 1) (2 ^ 32 - 1)
  · rw [if_pos ht, finalizeRequest_getAttestation]
    by_cases hi : i = id
    · rw [if_pos hi, if_pos ⟨hi, ht⟩]
    · rw [if_neg hi, if_neg fun hh => hi hh.1]
      rfl
  · rw [if_neg ht, if_neg fun hh => ht hh.2]
    rfl

theorem storePartial_attesters (i : Bytes) : (storePartial K caller id a s).attesters i =
    if i = id then insert caller (s.attesters id) else s.attesters i := by
  ext w
  simp only [attesters, storePartial_partials, Mapping.contains, Mapping.insert_apply,
    Set.mem_ofPred_eq, Prod.mk.injEq]
  by_cases hi : i = id
  · by_cases hw : w = caller
    · simp [hi, hw]
    · simp [hi, hw]
  · simp [hi]

end Submission

variable {blake2 : Bytes → Arr 32} {K : PoolConsts} {s : RequestPool}

theorem new_attested (hK : 0 < K.threshold) {workers : List AccountId}
    (h : new K workers = some s) : Attested K s := by
  obtain ⟨hlen, rfl⟩ := new_eq_some.mp h
  have hnone : ∀ id w, w ∉ attesters (RequestPool.mk .new [] .new .new .new workers 0) id := by
    intro id w
    simp [attesters, Mapping.contains]
  have hempty : ∀ id, attesters (RequestPool.mk .new [] .new .new .new workers 0) id = ∅ :=
    fun id => Set.eq_empty_of_forall_notMem (hnone id)
  refine ⟨hlen, fun id w hw => absurd hw (hnone id w), fun id w hw => absurd hw (hnone id w),
    fun id => ?_, fun id => ?_⟩
  · simp [hempty, getAttestationCount]
  · simp [hempty, getAttestation, hK.ne']

/-- At most as many accounts attest as there are workers, so a count never
reaches the bound at which it would stop growing. -/
theorem Attested.ncard_le (h : Attested K s) {t : Set AccountId}
    (ht : ∀ w ∈ t, w ∈ s.authorizedWorkers) : t.Finite ∧ t.ncard ≤ K.totalWorkers := by
  have hsub : t ⊆ ↑s.authorizedWorkers.toFinset := fun w hw => by simpa using ht w hw
  have hfin := Set.Finite.subset (Finset.finite_toSet _) hsub
  refine ⟨hfin, ?_⟩
  calc t.ncard ≤ Set.ncard ↑s.authorizedWorkers.toFinset :=
        Set.ncard_le_ncard hsub (Finset.finite_toSet _)
    _ = s.authorizedWorkers.toFinset.card := Set.ncard_coe_finset _
    _ ≤ s.authorizedWorkers.length := List.toFinset_card_le _
    _ = K.totalWorkers := h.workers

theorem add_attested (h : Attested K s) (r : DecryptionRequest) :
    Attested K (add blake2 r s).2 := by
  cases hc : s.requests.contains (requestId blake2 r) with
  | true => rwa [add_of_contains hc]
  | false =>
    rw [add_of_not_contains hc]
    refine ⟨h.workers, h.authorized, fun id w hw => ?_, h.counted, h.fulfilled⟩
    have hs := h.stored id w hw
    by_cases he : id = requestId blake2 r
    · simp [he, Mapping.contains]
    · simpa [Mapping.contains, Mapping.insert_of_ne _ _ he] using hs

theorem Attested.insert_authorized (h : Attested K s) {caller : AccountId} {id : Bytes}
    (hacc : Accepted caller id s) :
    ∀ w ∈ insert caller (s.attesters id), w ∈ s.authorizedWorkers := by
  intro w hw
  rcases hw with rfl | hw
  · exact hacc.worker
  · exact h.authorized id w hw

/-- An accepted submission is by a worker that has not been counted yet. -/
theorem Attested.ncard_insert (h : Attested K s) {caller : AccountId} {id : Bytes}
    (hacc : Accepted caller id s) :
    (insert caller (s.attesters id)).ncard = s.getAttestationCount id + 1 ∧
      s.getAttestationCount id + 1 ≤ K.totalWorkers := by
  have hnot : caller ∉ s.attesters id := by simp [attesters, hacc.unattested]
  have hcard := Set.ncard_insert_of_notMem hnot (h.ncard_le (h.authorized id)).1
  rw [← h.counted id] at hcard
  have hle := (h.ncard_le (h.insert_authorized hacc)).2
  rw [hcard] at hle
  exact ⟨hcard, hle⟩

theorem storePartial_attested (hW : K.totalWorkers < 2 ^ 32) (h : Attested K s)
    {caller : AccountId} {id : Bytes} (a : Attestation) (hacc : Accepted caller id s) :
    Attested K (storePartial K caller id a s) := by
  obtain ⟨hcard, hle⟩ := h.ncard_insert hacc
  have hcount : min (s.getAttestationCount id + 1) (2 ^ 32 - 1) =
      (insert caller (s.attesters id)).ncard := by omega
  refine ⟨?_, fun i w hw => ?_, fun i w hw => ?_, fun i => ?_, fun i => ?_⟩
  · rw [storePartial_workers]
    exact h.workers
  · rw [storePartial_workers]
    rw [storePartial_attesters] at hw
    by_cases hi : i = id
    · rw [if_pos hi] at hw
      exact h.insert_authorized hacc w hw
    · rw [if_neg hi] at hw
      exact h.authorized i w hw
  · rw [(storePartial_requests caller id a s).1]
    rw [storePartial_attesters] at hw
    by_cases hi : i = id
    · rw [hi]
      exact hacc.stored
    · rw [if_neg hi] at hw
      exact h.stored i w hw
  · rw [storePartial_count, storePartial_attesters]
    by_cases hi : i = id
    · rw [if_pos hi, if_pos hi, hcount]
    · rw [if_neg hi, if_neg hi, h.counted]
  · rw [storePartial_getAttestation, storePartial_attesters, hcount]
    by_cases hi : i = id
    · subst hi
      by_cases ht : K.threshold ≤ (insert caller (s.attesters i)).ncard
      · simp [ht]
      · -- below the threshold it was not fulfilled before either
        have hful := h.fulfilled i
        have hbelow : ¬ K.threshold ≤ (s.attesters i).ncard := by
          have := h.counted i
          omega
        simpa [ht, hbelow] using hful
    · simpa [hi] using h.fulfilled i

theorem submit_attested (hW : K.totalWorkers < 2 ^ 32) (h : Attested K s) (caller : AccountId)
    (id : Bytes) (a : Attestation) : Attested K (submitPartialAttestation K caller id a s).2 := by
  rcases submit_cases (K := K) caller id a s with ⟨e, hrefused⟩ | ⟨hacc, hstored⟩
  · rwa [hrefused]
  · rw [hstored]
    exact storePartial_attested hW h a hacc

theorem reachable_attested (hK : 0 < K.threshold) (hW : K.totalWorkers < 2 ^ 32)
    (h : Reachable blake2 K s) : Attested K s := by
  obtain ⟨workers, s₀, hnew, hrun⟩ := h
  induction hrun with
  | refl => exact new_attested hK hnew
  | tail _ hstep ih =>
    cases hstep with
    | add r => exact add_attested ih r
    | submit caller id a => exact submit_attested hW ih caller id a

theorem submit_error {caller : AccountId} {id : Bytes} {a : Attestation} {e : PoolError}
    (h : (submitPartialAttestation K caller id a s).1 = .error e) :
    (submitPartialAttestation K caller id a s).2 = s := by
  rcases submit_cases (K := K) caller id a s with ⟨_, hrefused⟩ | ⟨-, hstored⟩
  · rw [hrefused]
  · rw [hstored] at h
    cases h

theorem add_error {r : DecryptionRequest} {e : PoolError} (h : (add blake2 r s).1 = .error e) :
    (add blake2 r s).2 = s := by
  cases hc : s.requests.contains (requestId blake2 r) with
  | true => rw [add_of_contains hc]
  | false => simp [add_of_not_contains hc] at h

/-- A stored combined attestation is never written again: the request counts
as fulfilled from then on, and a submission for it is refused. -/
theorem step_getAttestation {s' : RequestPool} {id : Bytes} {v : Attestation}
    (hs : Step blake2 K s s') (h : s.getAttestation id = some v) :
    s'.getAttestation id = some v := by
  cases hs with
  | add r =>
    obtain ⟨-, -, -, hsame⟩ := add_frame blake2 s r
    exact (congrFun hsame id).trans h
  | submit caller i a =>
    rcases submit_cases (K := K) caller i a s with ⟨e, hrefused⟩ | ⟨hacc, hstored⟩
    · rwa [hrefused]
    · have hne : id ≠ i := by
        rintro rfl
        have hfulfilled := Mapping.contains_iff.mpr ⟨v, h⟩
        exact Bool.false_ne_true (hacc.unfulfilled.symm.trans hfulfilled)
      rwa [hstored, storePartial_getAttestation, if_neg fun hh => hne hh.1]

theorem run_getAttestation {s' : RequestPool} {id : Bytes} {v : Attestation}
    (hs : Relation.ReflTransGen (Step blake2 K) s s') (h : s.getAttestation id = some v) :
    s'.getAttestation id = some v := by
  induction hs with
  | refl => exact h
  | tail _ hstep ih => exact step_getAttestation hstep ih

/-- What the pool's storage says about attestations, for any two constants of
type `u32`: counts are numbers of distinct workers, and the combined
attestation is there from the threshold on, for good. -/
theorem attestations_of_reachable (hK : 0 < K.threshold) (hW : K.totalWorkers < 2 ^ 32)
    (h : Reachable blake2 K s) :
    (∀ id, s.getAttestationCount id = (s.attesters id).ncard ∧
      (∀ w ∈ s.attesters id, w ∈ s.authorizedWorkers ∧ s.requests.contains id) ∧
      ((s.getAttestation id).isSome ↔ K.threshold ≤ (s.attesters id).ncard) ∧
      ∀ v s', s.getAttestation id = some v → Relation.ReflTransGen (Step blake2 K) s s' →
        s'.getAttestation id = some v) ∧
    (∀ r e, (add blake2 r s).1 = .error e → (add blake2 r s).2 = s) ∧
    ∀ caller id a e, (submitPartialAttestation K caller id a s).1 = .error e →
      (submitPartialAttestation K caller id a s).2 = s := by
  have ha := reachable_attested hK hW h
  refine ⟨fun id => ⟨ha.counted id, ?_, ha.fulfilled id, ?_⟩, fun r e => add_error,
    fun caller id a e => submit_error⟩
  · exact fun w hw => ⟨ha.authorized id w hw, ha.stored id w hw⟩
  · exact fun v s' hv hrun => run_getAttestation hrun hv

def idOfAb : Bytes := requestId blake2OfAb ⟨[97, 98], [], []⟩

def attestedPool : RequestPool :=
  (submitPartialAttestation .deployed (Scale.beArr 32 1) idOfAb [7] poolOfAb).2

theorem attestations_of_reachable_attestedPool :
    attestedPool.getAttestation idOfAb = some [7] ∧
      attestedPool.getAttestationCount idOfAb = (attestedPool.attesters idOfAb).ncard := by
  have hrun : Reachable blake2OfAb .deployed attestedPool :=
    ⟨emptyPool.authorizedWorkers, emptyPool, rfl,
      (Relation.ReflTransGen.single (.add ⟨[97, 98], [], []⟩ emptyPool)).tail (.submit ..)⟩
  exact ⟨by decide, ((attestations_of_reachable (by decide) (by decide) hrun).1 idOfAb).1⟩

end RequestPool

end Fangorn
