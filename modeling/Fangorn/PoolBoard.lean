import Fangorn.CombinedAttestation
import Fangorn.Lib.Board

/-! The request pool as a board of polls, one for each request id: the contract
stores of a poll just what decides it, and its answers are those of the board. -/

namespace Fangorn

open Rust Ink

def PoolCall.act (blake2 : Bytes → Arr 32) : PoolCall → Board.Act Bytes AccountId Attestation
  | .add request => .post (RequestPool.requestId blake2 request)
  | .submit caller id attestation => .vote caller id attestation

def PoolError.refusal : PoolError → Board.Refusal
  | .requestAlreadyExists => .posted
  | .requestNotFound => .unknown
  | .alreadyFulfilled => .closed
  | .unauthorized => .stranger
  | .alreadyAttested => .repeated

namespace RequestPool

def reply (blake2 : Bytes → Arr 32) (K : PoolConsts) (s : RequestPool) :
    PoolCall → Except PoolError Unit
  | .add request => (RequestPool.add blake2 request s).1
  | .submit caller id attestation => (submitPartialAttestation K caller id attestation s).1

/-- The state as it reads after these acts on the board. -/
structure Keeps (K : PoolConsts) (workers : List AccountId)
    (acts : List (Board.Act Bytes AccountId Attestation)) (s : RequestPool) : Prop where
  electorate : s.authorizedWorkers = workers
  posted : ∀ id, s.requests.contains id = (Board.poll workers acts id).isSome
  partials : ∀ id w, s.partialAttestations (id, w) =
    Board.ballot ((Board.votes workers acts id).take K.threshold) w
  counted : ∀ id, s.getAttestationCount id =
    ((Board.votes workers acts id).take K.threshold).length
  recorded : ∀ id, s.getAttestation id =
    (Board.verdict K.threshold workers (Board.votes workers acts id)).map List.flatten

variable {blake2 : Bytes → Arr 32} {K : PoolConsts} {workers : List AccountId}
  {acts : List (Board.Act Bytes AccountId Attestation)} {s s₀ : RequestPool}

theorem new_keeps (hK : 0 < K.threshold) (h : new K workers = some s) : Keeps K workers [] s := by
  obtain ⟨-, rfl⟩ := new_eq_some.mp h
  have hopen : Board.verdict K.threshold workers
      ([] : List (AccountId × Attestation)) = none := if_neg (by simpa using hK.ne')
  refine ⟨rfl, fun id => rfl, fun id w => ?_, fun id => ?_, fun id => ?_⟩
  · simp [Board.votes, Board.poll, Board.ballot]
  · simp [Board.votes, Board.poll, getAttestationCount]
  · simp [Board.votes, Board.poll, hopen, getAttestation]

theorem Keeps.add (h : Keeps K workers acts s) (r : DecryptionRequest) :
    Keeps K workers (acts ++ [.post (requestId blake2 r)]) (add blake2 r s).2 := by
  obtain ⟨hworkers, hpartials, hcounts, hrecorded⟩ := add_frame blake2 s r
  refine ⟨hworkers.trans h.electorate, fun id => ?_, fun id w => ?_, fun id => ?_, fun id => ?_⟩
  · have hold := h.posted id
    rw [Board.poll_concat, Board.step]
    by_cases hid : requestId blake2 r = id
    · subst hid
      rw [if_pos rfl, Option.isSome_some]
      cases hc : s.requests.contains (requestId blake2 r) with
      | true => rw [add_of_contains hc, hc]
      | false => simp [add_of_not_contains hc, Mapping.contains]
    · rw [if_neg hid, ← hold]
      cases hc : s.requests.contains (requestId blake2 r) with
      | true => rw [add_of_contains hc]
      | false =>
        simp [add_of_not_contains hc, Mapping.contains, Mapping.insert_of_ne _ _ (Ne.symm hid)]
  · rw [Board.votes_post, hpartials]
    exact h.partials id w
  · rw [Board.votes_post, getAttestationCount, hcounts]
    exact h.counted id
  · rw [Board.votes_post, getAttestation, hrecorded]
    exact h.recorded id

theorem Keeps.fulfilled (h : Keeps K workers acts s) (id : Bytes) :
    s.fulfilledAttestations.contains id = true ↔
      K.threshold ≤ (Board.votes workers acts id).length := by
  show (s.getAttestation id).isSome = true ↔ _
  rw [h.recorded id, Option.isSome_map, Board.verdict_isSome]

theorem Keeps.attested (h : Keeps K workers acts s) {id : Bytes} (w : AccountId)
    (hopen : (Board.votes workers acts id).length < K.threshold) :
    s.partialAttestations.contains (id, w) = true ↔ w ∈ Board.voters workers acts id := by
  rw [Mapping.contains, h.partials, List.take_of_length_le hopen.le]
  exact Board.ballot_isSome

theorem Keeps.accepted_iff (h : Keeps K workers acts s) {caller : AccountId} {id : Bytes} :
    Accepted caller id s ↔ Board.Counts workers acts caller id ∧
      (Board.votes workers acts id).length < K.threshold := by
  have hfulfilled := h.fulfilled id
  constructor
  · intro hacc
    have hopen : (Board.votes workers acts id).length < K.threshold := by
      by_contra hlt
      exact Bool.false_ne_true (hacc.unfulfilled.symm.trans (hfulfilled.mpr (by omega)))
    refine ⟨⟨h.electorate ▸ hacc.worker, ?_, fun hvoted => ?_⟩, hopen⟩
    · rw [← h.posted]
      exact hacc.stored
    · exact Bool.false_ne_true (hacc.unattested.symm.trans ((h.attested _ hopen).mpr hvoted))
  · rintro ⟨hcounts, hopen⟩
    refine ⟨h.electorate ▸ hcounts.1, (h.posted id).trans hcounts.2.1, ?_, ?_⟩
    · rw [← Bool.not_eq_true, hfulfilled]
      omega
    · rw [← Bool.not_eq_true, h.attested caller hopen]
      exact hcounts.2.2

theorem Keeps.refuse (h : Keeps K workers acts s) {caller : AccountId} {id : Bytes}
    (a : Attestation) (hno : ¬ Accepted caller id s) :
    Keeps K workers (acts ++ [.vote caller id a]) s := by
  rw [h.accepted_iff] at hno
  have htake (i : Bytes) : (Board.votes workers (acts ++ [.vote caller id a]) i).take K.threshold =
      (Board.votes workers acts i).take K.threshold := by
    refine Board.take_votes_vote fun hcounts => hno ?_
    obtain ⟨rfl, hcounts⟩ := hcounts
    exact hcounts
  refine ⟨h.electorate, fun i => ?_, fun i w => ?_, fun i => ?_, fun i => ?_⟩
  · rw [h.posted, Board.isSome_vote]
  · rw [h.partials, htake]
  · rw [h.counted, htake]
  · rw [h.recorded, Board.verdict_congr (htake i)]

theorem Keeps.store (h : Keeps K workers acts s) (hT : K.threshold < 2 ^ 32) {caller : AccountId}
    {id : Bytes} (a : Attestation) (hacc : Accepted caller id s) :
    Keeps K workers (acts ++ [.vote caller id a]) (storePartial K caller id a s) := by
  obtain ⟨hcounts, hopen⟩ := h.accepted_iff.mp hacc
  have hlen : s.getAttestationCount id = (Board.votes workers acts id).length := by
    rw [h.counted, List.take_of_length_le hopen.le]
  have hcount : min (s.getAttestationCount id + 1) (2 ^ 32 - 1) =
      (Board.votes workers acts id).length + 1 := by omega
  have hother (i : Bytes) (hi : i ≠ id) :
      Board.votes workers (acts ++ [.vote caller id a]) i = Board.votes workers acts i :=
    Board.votes_of_not_counts fun hh => hi hh.1.symm
  have hnew : (Board.votes workers (acts ++ [.vote caller id a]) id).take K.threshold =
      Board.votes workers acts id ++ [(caller, a)] := by
    rw [Board.votes_of_counts hcounts, List.take_of_length_le]
    rw [List.length_append, List.length_singleton]
    omega
  have hkept (w : AccountId) : s.partialAttestations (id, w) =
      Board.ballot (Board.votes workers acts id) w := by
    rw [h.partials, List.take_of_length_le hopen.le]
  have hpartials (w : AccountId) : s.partialAttestations.insert (id, caller) a (id, w) =
      Board.ballot (Board.votes workers acts id ++ [(caller, a)]) w := by
    rw [Mapping.insert_apply, Board.ballot_concat, ← hkept]
    by_cases hw : w = caller
    · subst hw
      have hnone := hacc.unattested
      rw [Mapping.contains, Option.isSome_eq_false_iff, Option.isNone_iff_eq_none] at hnone
      rw [if_pos rfl, if_pos rfl, hnone, Option.none_or]
    · have hne : (id, w) ≠ (id, caller) := fun he => hw (congrArg Prod.snd he)
      rw [if_neg hne, if_neg (Ne.symm hw), Option.or_none]
  refine ⟨?_, fun i => ?_, fun i w => ?_, fun i => ?_, fun i => ?_⟩
  · rw [storePartial_workers]
    exact h.electorate
  · rw [(storePartial_requests caller id a s).1, h.posted, Board.isSome_vote]
  · rw [storePartial_partials]
    by_cases hi : i = id
    · subst hi
      rw [hnew, hpartials]
    · rw [hother i hi, ← h.partials]
      exact Mapping.insert_of_ne _ _ fun he => hi (congrArg Prod.fst he)
  · rw [storePartial_count]
    by_cases hi : i = id
    · subst hi
      rw [if_pos rfl, hnew, hcount, List.length_append, List.length_singleton]
    · rw [if_neg hi, hother i hi, h.counted]
  · rw [storePartial_getAttestation, hcount]
    by_cases hi : i = id
    · subst hi
      rw [Board.verdict, Board.votes_of_counts hcounts, List.length_append, List.length_singleton]
      by_cases hreach : K.threshold ≤ (Board.votes workers acts i).length + 1
      · rw [if_pos ⟨rfl, hreach⟩, if_pos hreach, ← Board.votes_of_counts hcounts, hnew,
          h.electorate]
        simp only [hpartials, Option.map_some]
      · have hbelow : ¬ K.threshold ≤ (Board.votes workers acts i).length := by omega
        rw [if_neg fun hh => hreach hh.2, if_neg hreach, h.recorded, Board.verdict, if_neg hbelow]
    · rw [if_neg fun hh => hi hh.1, hother i hi, h.recorded]

theorem Keeps.exec (h : Keeps K workers acts s) (hT : K.threshold < 2 ^ 32) (c : PoolCall) :
    Keeps K workers (acts ++ [c.act blake2]) (exec blake2 K s c) := by
  cases c with
  | add r => exact h.add r
  | submit caller id a =>
    show Keeps K workers _ (submitPartialAttestation K caller id a s).2
    by_cases hacc : Accepted caller id s
    · rw [submit_of_accepted a hacc]
      exact h.store hT a hacc
    · rcases submit_cases (K := K) caller id a s with ⟨e, hrefused⟩ | ⟨hyes, -⟩
      · rw [hrefused]
        exact h.refuse a hacc
      · exact absurd hyes hacc

theorem run_keeps (hK : 0 < K.threshold) (hT : K.threshold < 2 ^ 32)
    (hnew : new K workers = some s₀) (calls : List PoolCall) :
    Keeps K workers (calls.map (PoolCall.act blake2)) (run blake2 K s₀ calls) := by
  induction calls using List.reverseRecOn with
  | nil => exact new_keeps hK hnew
  | append_singleton calls c ih =>
    rw [run_concat, List.map_append, List.map_singleton]
    exact ih.exec hT c

theorem Keeps.reply (h : Keeps K workers acts s) (c : PoolCall) :
    (reply blake2 K s c).mapError PoolError.refusal =
      Board.answer K.threshold workers acts (c.act blake2) := by
  cases c with
  | add r =>
    show ((RequestPool.add blake2 r s).1).mapError _ = if _ then _ else _
    rw [← h.posted]
    cases hc : s.requests.contains (requestId blake2 r) with
    | true =>
      rw [add_of_contains hc]
      rfl
    | false =>
      rw [add_of_not_contains hc]
      rfl
  | submit caller id a =>
    have hposted := h.posted id
    have hfulfilled := h.fulfilled id
    show ((submitPartialAttestation K caller id a s).1).mapError _ = Board.answer _ _ _ (.vote ..)
    rw [submitPartialAttestation, Board.answer_vote, h.electorate]
    by_cases hworker : caller ∉ workers
    · rw [if_pos hworker, if_pos hworker]
      rfl
    rw [if_neg hworker, if_neg hworker, hposted, Option.not_isSome]
    by_cases hnone : (Board.poll workers acts id).isNone = true
    · rw [if_pos hnone, if_pos hnone]
      rfl
    rw [if_neg hnone, if_neg hnone]
    by_cases hfull : K.threshold ≤ (Board.votes workers acts id).length
    · rw [if_pos (hfulfilled.mpr hfull), if_pos hfull]
      rfl
    rw [if_neg (mt hfulfilled.mp hfull), if_neg hfull]
    have hattested := h.attested caller (Nat.lt_of_not_le hfull)
    by_cases hvoted : caller ∈ Board.voters workers acts id
    · rw [if_pos (hattested.mpr hvoted), if_pos hvoted]
      rfl
    · rw [if_neg (mt hattested.mp hvoted), if_neg hvoted]
      rfl

def Attests (blake2 : Bytes → Arr 32) (calls : List PoolCall) (id : Bytes) (w : AccountId) : Prop :=
  ∃ pre a request, pre ++ [.submit w id a] <+: calls ∧ .add request ∈ pre ∧
    requestId blake2 request = id

theorem attests_iff_voted {calls : List PoolCall} {id : Bytes} {w : AccountId} :
    Attests blake2 calls id w ↔ Board.Voted (calls.map (PoolCall.act blake2)) id w := by
  constructor
  · rintro ⟨pre, a, request, hpre, hadd, rfl⟩
    refine ⟨pre.map (PoolCall.act blake2), a, ?_, List.mem_map.mpr ⟨_, hadd, rfl⟩⟩
    have hmap := hpre.map (PoolCall.act blake2)
    rwa [List.map_append] at hmap
  · rintro ⟨acts, a, ⟨rest, hacts⟩, hpost⟩
    obtain ⟨front, calls', rfl, hfront, -⟩ := List.map_eq_append_iff.mp hacts.symm
    obtain ⟨pre, last, rfl, rfl, hlast⟩ := List.map_eq_append_iff.mp hfront
    obtain ⟨c, tail, rfl, hc, htail⟩ := List.map_eq_cons_iff.mp hlast
    obtain rfl : tail = [] := List.map_eq_nil_iff.mp htail
    obtain ⟨call, hcall, hact⟩ := List.mem_map.mp hpost
    cases c with
    | add request => cases hc
    | submit caller i b =>
      obtain ⟨rfl, rfl, rfl⟩ := Board.Act.vote.inj hc
      cases call with
      | add request =>
        exact ⟨pre, b, request, List.prefix_append .., hcall, Board.Act.post.inj hact⟩
      | submit _ _ _ => cases hact

theorem run_isSome (hK : 0 < K.threshold) (hT : K.threshold < 2 ^ 32)
    (hnew : new K workers = some s₀) (calls : List PoolCall) (id : Bytes) :
    ((run blake2 K s₀ calls).getAttestation id).isSome ↔
      K.threshold ≤
        {w | w ∈ workers ∧ Board.Voted (calls.map (PoolCall.act blake2)) id w}.ncard := by
  rw [(run_keeps hK hT hnew calls).recorded id, Option.isSome_map, Board.verdict_isSome,
    Board.length_votes]

/-- Every answer the pool gives in a run, and every combined attestation and
count that it reports, are those of the board: a request is decided by the first
attestations that make the threshold, one for each worker. -/
theorem pool_refines_board (hK : 0 < K.threshold) (hT : K.threshold < 2 ^ 32)
    (hnew : new K workers = some s₀) (calls : List PoolCall) :
    (∀ call, (reply blake2 K (run blake2 K s₀ calls) call).mapError PoolError.refusal =
      Board.answer K.threshold workers (calls.map (PoolCall.act blake2)) (call.act blake2)) ∧
    ∀ id,
      (run blake2 K s₀ calls).getAttestation id =
        (Board.verdict K.threshold workers
          (Board.votes workers (calls.map (PoolCall.act blake2)) id)).map List.flatten ∧
      (run blake2 K s₀ calls).getAttestationCount id =
        min K.threshold (Board.votes workers (calls.map (PoolCall.act blake2)) id).length := by
  have hkeeps : Keeps K workers (calls.map (PoolCall.act blake2)) (run blake2 K s₀ calls) :=
    run_keeps hK hT hnew calls
  refine ⟨hkeeps.reply, fun id => ⟨hkeeps.recorded id, ?_⟩⟩
  rw [hkeeps.counted id, List.length_take]

/-- The second worker is too late for a request that one attestation decides. -/
theorem pool_refines_board_closed :
    Board.answer 1 emptyPool.authorizedWorkers (oneAttested.map (PoolCall.act blake2OfAb))
      (.vote (Scale.beArr 32 2) idOfAb [8]) = .error .closed := by
  have hnew : new .deployed emptyPool.authorizedWorkers = some emptyPool := rfl
  have hrefused : (reply blake2OfAb .deployed (run blake2OfAb .deployed emptyPool oneAttested)
      (.submit (Scale.beArr 32 2) idOfAb [8])).mapError PoolError.refusal = .error .closed := rfl
  rw [← hrefused]
  exact ((pool_refines_board (by decide) (by decide) hnew oneAttested).1
    (.submit (Scale.beArr 32 2) idOfAb [8])).symm

/-- In any run, a request is fulfilled exactly when as many workers as the
threshold asks for have submitted something for it since it was added. -/
theorem fulfilled_iff_quorum (hK : 0 < K.threshold) (hT : K.threshold < 2 ^ 32)
    (hnew : new K workers = some s₀) (calls : List PoolCall) (id : Bytes) :
    ((run blake2 K s₀ calls).getAttestation id).isSome ↔
      K.threshold ≤ {w | w ∈ workers ∧ Attests blake2 calls id w}.ncard := by
  rw [run_isSome hK hT hnew]
  simp only [attests_iff_voted]

theorem fulfilled_iff_quorum_one :
    1 ≤ {w | w ∈ emptyPool.authorizedWorkers ∧ Attests blake2OfAb oneAttested idOfAb w}.ncard := by
  have hnew : new .deployed emptyPool.authorizedWorkers = some emptyPool := rfl
  refine (fulfilled_iff_quorum (by decide) (by decide) hnew oneAttested idOfAb).mp ?_
  decide

/-- Which requests are fulfilled in the end does not depend on the order in which
the submissions come in. -/
theorem submissions_any_order (hK : 0 < K.threshold) (hT : K.threshold < 2 ^ 32)
    (hnew : new K workers = some s₀) (calls : List PoolCall) {more more' : List PoolCall}
    (hperm : more.Perm more') (hsubmit : ∀ request, .add request ∉ more) (id : Bytes) :
    ((run blake2 K s₀ (calls ++ more)).getAttestation id).isSome ↔
      ((run blake2 K s₀ (calls ++ more')).getAttestation id).isSome := by
  have hvotes (i : Bytes) : .post i ∉ more.map (PoolCall.act blake2) := by
    intro hmem
    obtain ⟨c, hc, hact⟩ := List.mem_map.mp hmem
    cases c with
    | add request => exact hsubmit request hc
    | submit _ _ _ => cases hact
  rw [run_isSome hK hT hnew, run_isSome hK hT hnew, List.map_append, List.map_append]
  simp only [Board.voted_append_perm (hperm.map _) hvotes]

theorem submissions_any_order_two :
    ((run blake2OfAb .deployed emptyPool ([.add ⟨[97, 98], [], []⟩] ++
      [.submit (Scale.beArr 32 2) idOfAb [8],
        .submit (Scale.beArr 32 1) idOfAb [7]])).getAttestation idOfAb).isSome := by
  have hnew : new .deployed emptyPool.authorizedWorkers = some emptyPool := rfl
  have hperm : [PoolCall.submit (Scale.beArr 32 1) idOfAb [7],
      .submit (Scale.beArr 32 2) idOfAb [8]].Perm
      [.submit (Scale.beArr 32 2) idOfAb [8], .submit (Scale.beArr 32 1) idOfAb [7]] :=
    List.Perm.swap _ _ _
  refine (submissions_any_order (by decide) (by decide) hnew [.add ⟨[97, 98], [], []⟩] hperm
    (by simp) idOfAb).mp ?_
  decide

end RequestPool

end Fangorn
