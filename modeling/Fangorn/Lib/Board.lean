import Mathlib.Data.List.Nodup
import Mathlib.Data.Set.Card

/-! A board of polls. A poll is opened by its first posting. The first vote of
each elector in it counts, and the first votes that make the quorum decide it. -/

namespace Board

inductive Act (Id Worker Vote : Type) where
  | post (id : Id)
  | vote (worker : Worker) (id : Id) (vote : Vote)

inductive Refusal where
  | posted
  | stranger
  | unknown
  | closed
  | repeated
  deriving DecidableEq

section Definitions

variable {Id Worker Vote : Type} [DecidableEq Id] [DecidableEq Worker]

/-- The votes of one poll, in the order of their arrival; no list before the
poll is opened. -/
def step (electorate : List Worker) (id : Id) (poll : Option (List (Worker × Vote))) :
    Act Id Worker Vote → Option (List (Worker × Vote))
  | .post i => if i = id then some (poll.getD []) else poll
  | .vote w i v =>
    if i = id ∧ w ∈ electorate then
      poll.map fun votes => if w ∈ votes.map Prod.fst then votes else votes ++ [(w, v)]
    else poll

def poll (electorate : List Worker) (acts : List (Act Id Worker Vote)) (id : Id) :
    Option (List (Worker × Vote)) :=
  acts.foldl (step electorate id) none

def votes (electorate : List Worker) (acts : List (Act Id Worker Vote)) (id : Id) :
    List (Worker × Vote) :=
  (poll electorate acts id).getD []

def voters (electorate : List Worker) (acts : List (Act Id Worker Vote)) (id : Id) :
    List Worker :=
  (votes electorate acts id).map Prod.fst

def ballot (votes : List (Worker × Vote)) (w : Worker) : Option Vote :=
  (votes.find? fun p => decide (p.1 = w)).map Prod.snd

/-- The votes that decide the poll, in the order of the electorate. -/
def verdict (quorum : Nat) (electorate : List Worker) (votes : List (Worker × Vote)) :
    Option (List Vote) :=
  if quorum ≤ votes.length then
    some (electorate.filterMap (ballot (votes.take quorum)))
  else none

/-- What the board says to an act after these acts. -/
def answer (quorum : Nat) (electorate : List Worker) (acts : List (Act Id Worker Vote)) :
    Act Id Worker Vote → Except Refusal Unit
  | .post id => if (poll electorate acts id).isSome then .error .posted else .ok ()
  | .vote w id _ =>
    if w ∉ electorate then .error .stranger
    else if (poll electorate acts id).isNone then .error .unknown
    else if quorum ≤ (votes electorate acts id).length then .error .closed
    else if w ∈ voters electorate acts id then .error .repeated
    else .ok ()

/-- A vote that came in when the poll was open. -/
def Voted (acts : List (Act Id Worker Vote)) (id : Id) (w : Worker) : Prop :=
  ∃ pre v, pre ++ [.vote w id v] <+: acts ∧ .post id ∈ pre

end Definitions

section Histories

variable {Id Worker Vote : Type} [DecidableEq Id] [DecidableEq Worker]
  {electorate : List Worker} {acts : List (Act Id Worker Vote)} {act : Act Id Worker Vote}
  {id : Id} {w : Worker} {quorum : Nat}

omit [DecidableEq Id] in
theorem ballot_isSome {l : List (Worker × Vote)} :
    (ballot l w).isSome ↔ w ∈ l.map Prod.fst := by
  rw [ballot, Option.isSome_map, List.find?_isSome, List.mem_map]
  exact exists_congr fun p => and_congr_right fun _ => decide_eq_true_iff

omit [DecidableEq Id] in
theorem ballot_concat {l : List (Worker × Vote)} {v : Vote} {w' : Worker} :
    ballot (l ++ [(w, v)]) w' = (ballot l w').or (if w = w' then some v else none) := by
  rw [ballot, List.find?_append, Option.map_or]
  by_cases hw : w = w'
  · simp [ballot, hw]
  · simp [ballot, hw]

theorem poll_concat : poll electorate (acts ++ [act]) id =
    step electorate id (poll electorate acts id) act := by
  rw [poll, List.foldl_append]
  rfl

theorem poll_isSome : (poll electorate acts id).isSome ↔ .post id ∈ acts := by
  induction acts using List.reverseRecOn with
  | nil => simp [poll]
  | append_singleton acts act ih =>
    rw [poll_concat, List.mem_append, List.mem_singleton, ← ih]
    cases act with
    | post i =>
      by_cases hi : i = id
      · simp [step, hi]
      · have hne : (Act.post id : Act Id Worker Vote) ≠ .post i := by
          rintro ⟨⟩
          exact hi rfl
        simp [step, hi, hne]
    | vote w i v =>
      by_cases hi : i = id ∧ w ∈ electorate
      · simp [step, hi]
      · simp [step, hi]

theorem answer_vote {v : Vote} : answer quorum electorate acts (.vote w id v) =
    if w ∉ electorate then .error .stranger
    else if (poll electorate acts id).isNone then .error .unknown
    else if quorum ≤ (votes electorate acts id).length then .error .closed
    else if w ∈ voters electorate acts id then .error .repeated
    else .ok () := rfl

theorem isSome_vote {i : Id} {v : Vote} :
    (poll electorate (acts ++ [.vote w i v]) id).isSome = (poll electorate acts id).isSome := by
  rw [Bool.eq_iff_iff, poll_isSome, poll_isSome]
  simp

/-- An act for the poll by someone whose vote in it is new. -/
def Counts (electorate : List Worker) (acts : List (Act Id Worker Vote)) (w : Worker)
    (id : Id) : Prop :=
  w ∈ electorate ∧ (poll electorate acts id).isSome ∧ w ∉ voters electorate acts id

theorem votes_post (i : Id) : votes electorate (acts ++ [.post i]) id =
    votes electorate acts id := by
  rw [votes, poll_concat]
  by_cases hi : i = id
  · rw [step, if_pos hi]
    rfl
  · rw [step, if_neg hi]
    rfl

theorem votes_of_counts {v : Vote} (h : Counts electorate acts w id) :
    votes electorate (acts ++ [.vote w id v]) id = votes electorate acts id ++ [(w, v)] := by
  obtain ⟨hw, hopen, hnew⟩ := h
  obtain ⟨l, hl⟩ := Option.isSome_iff_exists.mp hopen
  rw [voters, votes, hl, Option.getD_some] at hnew
  simp [votes, poll_concat, step, hw, hl, hnew]

theorem votes_of_not_counts {i : Id} {v : Vote} (h : ¬ (i = id ∧ Counts electorate acts w id)) :
    votes electorate (acts ++ [.vote w i v]) id = votes electorate acts id := by
  rw [votes, poll_concat]
  by_cases hi : i = id ∧ w ∈ electorate
  · rw [step, if_pos hi]
    cases hl : poll electorate acts id with
    | none => simp [votes, hl]
    | some l =>
      have hold : w ∈ l.map Prod.fst := by
        by_contra hnew
        refine h ⟨hi.1, hi.2, Option.isSome_iff_exists.mpr ⟨l, hl⟩, ?_⟩
        rwa [voters, votes, hl, Option.getD_some]
      simp [votes, hl, if_pos hold]
  · rw [step, if_neg hi]
    rfl

/-- Either nothing changes in a poll, or a vote in it is added. -/
theorem votes_concat_cases (electorate : List Worker) (acts : List (Act Id Worker Vote))
    (act : Act Id Worker Vote) (id : Id) :
    (∃ w v, act = .vote w id v ∧ Counts electorate acts w id ∧
      votes electorate (acts ++ [act]) id = votes electorate acts id ++ [(w, v)]) ∨
    (∀ w v, act = .vote w id v → ¬ Counts electorate acts w id) ∧
      votes electorate (acts ++ [act]) id = votes electorate acts id := by
  cases act with
  | post i => exact Or.inr ⟨nofun, votes_post i⟩
  | vote w i v =>
    by_cases hcounts : i = id ∧ Counts electorate acts w id
    · obtain ⟨rfl, hcounts⟩ := hcounts
      exact Or.inl ⟨w, v, rfl, hcounts, votes_of_counts hcounts⟩
    · refine Or.inr ⟨?_, votes_of_not_counts hcounts⟩
      rintro w' v' ⟨⟩ hc
      exact hcounts ⟨rfl, hc⟩

theorem voters_nodup : (voters electorate acts id).Nodup := by
  induction acts using List.reverseRecOn with
  | nil => exact List.nodup_nil
  | append_singleton acts act ih =>
    rcases votes_concat_cases electorate acts act id with ⟨w, v, -, hcounts, hvotes⟩ | ⟨-, hvotes⟩
    · rw [voters, hvotes, List.map_append, List.map_singleton, ← List.concat_eq_append]
      exact ih.concat hcounts.2.2
    · rwa [voters, hvotes]

theorem take_votes_vote {i : Id} {v : Vote} (h : ¬ (i = id ∧ Counts electorate acts w id ∧
    (votes electorate acts id).length < quorum)) :
    (votes electorate (acts ++ [.vote w i v]) id).take quorum =
      (votes electorate acts id).take quorum := by
  by_cases hcounts : i = id ∧ Counts electorate acts w id
  · obtain ⟨rfl, hcounts⟩ := hcounts
    have hfull : quorum ≤ (votes electorate acts i).length := by
      by_contra hlt
      exact h ⟨rfl, hcounts, by omega⟩
    rw [votes_of_counts hcounts, List.take_append_of_le_length hfull]
  · rw [votes_of_not_counts hcounts]

omit [DecidableEq Id] [DecidableEq Worker] in
theorem voted_concat : Voted (acts ++ [act]) id w ↔
    Voted acts id w ∨ ∃ v, act = .vote w id v ∧ .post id ∈ acts := by
  constructor
  · intro h
    obtain ⟨pre, v, hpre, hpost⟩ := h
    rcases List.prefix_concat_iff.mp hpre with heq | hprefix
    · obtain ⟨rfl, hact⟩ := List.append_inj' heq rfl
      exact Or.inr ⟨v, (List.singleton_inj.mp hact).symm, hpost⟩
    · exact Or.inl ⟨pre, v, hprefix, hpost⟩
  · intro h
    rcases h with ⟨pre, v, hpre, hpost⟩ | ⟨v, rfl, hpost⟩
    · exact ⟨pre, v, hpre.trans (List.prefix_append ..), hpost⟩
    · exact ⟨acts, v, List.prefix_rfl, hpost⟩

theorem mem_voters : w ∈ voters electorate acts id ↔ w ∈ electorate ∧ Voted acts id w := by
  induction acts using List.reverseRecOn with
  | nil =>
    have hno : ¬ Voted ([] : List (Act Id Worker Vote)) id w := by
      rintro ⟨pre, v, hpre, -⟩
      exact List.append_ne_nil_of_right_ne_nil pre (List.cons_ne_nil _ _) (List.prefix_nil.mp hpre)
    exact ⟨nofun, fun h => absurd h.2 hno⟩
  | append_singleton acts act ih =>
    rw [voted_concat, and_or_left, ← ih]
    rcases votes_concat_cases electorate acts act id with
      ⟨x, v, rfl, hcounts, hvotes⟩ | ⟨hno, hvotes⟩
    · rw [voters, hvotes, List.map_append, List.mem_append, List.map_singleton,
        List.mem_singleton]
      refine or_congr_right ⟨?_, ?_⟩
      · rintro rfl
        exact ⟨hcounts.1, v, rfl, poll_isSome.mp hcounts.2.1⟩
      · rintro ⟨-, v', ⟨⟩, -⟩
        rfl
    · rw [voters, hvotes]
      refine (or_iff_left_of_imp ?_).symm
      rintro ⟨hw, v, rfl, hpost⟩
      by_contra hnew
      exact hno w v rfl ⟨hw, poll_isSome.mpr hpost, hnew⟩

theorem length_votes : (votes electorate acts id).length =
    {w | w ∈ electorate ∧ Voted acts id w}.ncard := by
  have hset : {w | w ∈ electorate ∧ Voted acts id w} = ↑(voters electorate acts id).toFinset := by
    ext w
    rw [List.coe_toFinset]
    exact mem_voters.symm
  rw [hset, Set.ncard_coe_finset, List.toFinset_card_of_nodup voters_nodup, voters,
    List.length_map]

omit [DecidableEq Id] [DecidableEq Worker] in
/-- Postings in front and then votes alone: their order does not matter. -/
theorem voted_append_perm {pre more more' : List (Act Id Worker Vote)} (hperm : more.Perm more')
    (hvotes : ∀ i, .post i ∉ more) : Voted (pre ++ more) id w ↔ Voted (pre ++ more') id w := by
  have hsplit {tail : List (Act Id Worker Vote)} (ht : ∀ i, .post i ∉ tail) :
      Voted (pre ++ tail) id w ↔
        Voted pre id w ∨ ∃ v, .vote w id v ∈ tail ∧ .post id ∈ pre := by
    induction tail using List.reverseRecOn with
    | nil => simp
    | append_singleton tail act ih =>
      have hrest : ∀ i, .post i ∉ tail := fun i hmem => ht i (List.mem_append_left _ hmem)
      have hpost : .post id ∈ pre ++ tail ↔ .post id ∈ pre := by
        rw [List.mem_append]
        exact or_iff_left (hrest id)
      rw [← List.append_assoc, voted_concat, ih hrest, hpost, or_assoc]
      refine or_congr_right ?_
      simp only [List.mem_append, List.mem_singleton, or_and_right, exists_or, eq_comm]
  rw [hsplit hvotes, hsplit fun i hmem => hvotes i (hperm.mem_iff.mpr hmem)]
  simp only [hperm.mem_iff]

theorem verdict_isSome {l : List (Worker × Vote)} :
    (verdict quorum electorate l).isSome ↔ quorum ≤ l.length := by
  unfold verdict
  split_ifs with h
  · exact iff_of_true rfl h
  · exact iff_of_false nofun h

theorem verdict_congr {l l' : List (Worker × Vote)} (h : l'.take quorum = l.take quorum) :
    verdict quorum electorate l' = verdict quorum electorate l := by
  have hlen := congrArg List.length h
  rw [List.length_take, List.length_take] at hlen
  unfold verdict
  rw [h]
  exact if_congr (by omega) rfl rfl

end Histories

end Board
