/-
Voting rounds of one session (`client/consensus/beefy-etf/src/round.rs`).

`Rounds` keeps, for one session, a `RoundTracker` per commitment voted on (the
voters seen, with their signatures), the first vote of every authority for
every block (`previousVotes`, to detect equivocations), and how far the session
is concluded (`bestDone`, `mandatoryDone`).  `Rounds.addVote` is
`Rounds::add_vote` and `Rounds.conclude` is `Rounds::conclude`; `Rounds.call`
is one call of either, the step function of a `Rounds` value's runs.

The spec lemmas say once what one call can do:

* `addVote_of_not_counts` — a stale, invalid or equivocating vote changes
  nothing;
* `addVote_of_counts` — a counted vote records itself in `previousVotes` (if
  it is its author's first for the block) and in its round, which concludes
  when it reaches `threshold`;
* the `conclude_*` lemmas — how `conclude` prunes both maps.
-/
import BeefyEtf.Primitives

namespace BeefyEtf

variable {A S : Type*} [Ord A]

/-- Which validators have signed one commitment, and their signatures. -/
structure RoundTracker (A S : Type*) [Ord A] where
  votes : Std.TreeMap A S

namespace RoundTracker

instance : Inhabited (RoundTracker A S) := ⟨⟨∅⟩⟩

/-- `RoundTracker::add_vote`: a voter already seen is not counted twice. -/
def addVote (rt : RoundTracker A S) (vote : A × S) : RoundTracker A S × Bool :=
  if rt.votes.contains vote.1 then (rt, false)
  else ({ votes := rt.votes.insert vote.1 vote.2 }, true)

/-- `RoundTracker::is_done`. -/
def isDone (rt : RoundTracker A S) (threshold : ℕ) : Bool := threshold ≤ rt.votes.size

@[simp] theorem default_votes : (default : RoundTracker A S).votes = ∅ := rfl

/-- The distinct voters of a round. -/
def voters [DecidableEq A] (rt : RoundTracker A S) : Finset A := rt.votes.keys.toFinset

section Voters

variable [DecidableEq A] [Std.TransOrd A] [Std.LawfulEqOrd A] (rt : RoundTracker A S)

@[simp] theorem mem_voters {a : A} : a ∈ rt.voters ↔ a ∈ rt.votes := by
  simp [voters]

omit [Std.LawfulEqOrd A] in
/-- `votes.len()` counts distinct voters. -/
theorem card_voters : rt.voters.card = rt.votes.size := by
  rw [voters, List.toFinset_card_of_nodup Std.TreeMap.nodup_keys, Std.TreeMap.length_keys]

end Voters

end RoundTracker

/-- `threshold`: how many of `authorities` signatures finalize a block. -/
def threshold (authorities : ℕ) : ℕ := authorities - (authorities - 1) / 3

/-- More than half of the authorities: two thresholds overlap. -/
theorem lt_threshold_add_threshold {n : ℕ} (hn : 0 < n) : n < threshold n + threshold n := by
  unfold threshold
  omega

/-- A non-empty set needs at least one vote. -/
theorem one_le_threshold {n : ℕ} (hn : 0 < n) : 1 ≤ threshold n := by
  unfold threshold
  omega

/-- `VoteImportResult`: what `add_vote` reports. -/
inductive VoteImportResult (A S : Type*) where
  | ok
  | roundConcluded (sc : SignedCommitment S)
  | equivocation (proof : EquivocationProof A S)
  | invalid
  | stale
  deriving DecidableEq, Repr

namespace VoteImportResult

variable {A S : Type*}

/-- The vote was counted: `Ok` or `RoundConcluded`. -/
def isAccepted : VoteImportResult A S → Bool
  | ok | roundConcluded _ => true
  | _ => false

end VoteImportResult

/-- All voting rounds (block numbers) of one session. -/
structure Rounds (A S : Type*) [Ord A] where
  rounds : Std.TreeMap Commitment (RoundTracker A S)
  previousVotes : Std.TreeMap (A × ℕ) (VoteMessage A S)
  sessionStart : ℕ
  validatorSet : ValidatorSet A
  mandatoryDone : Bool
  bestDone : Option ℕ

namespace Rounds

/-- `Rounds::new`. -/
def new (sessionStart : ℕ) (validatorSet : ValidatorSet A) : Rounds A S where
  rounds := ∅
  previousVotes := ∅
  sessionStart := sessionStart
  validatorSet := validatorSet
  mandatoryDone := false
  bestDone := none

/-- `Rounds::validator_set_id`. -/
def validatorSetId (s : Rounds A S) : ℕ := s.validatorSet.id

/-- `Rounds::validators`. -/
def validators (s : Rounds A S) : List A := s.validatorSet.validators

/-- `Rounds::signed_commitment`: one signature slot per validator, in validator order. -/
def signedCommitment (s : Rounds A S) (round : Commitment × RoundTracker A S) :
    SignedCommitment S where
  commitment := round.1
  signatures := s.validators.map fun authorityId => round.2.votes[authorityId]?

/-- The end of `Rounds::add_vote`, for a vote that does not equivocate: count it in the
round of its commitment, and conclude that round once it reaches the threshold. -/
def countVote (s : Rounds A S) (vote : VoteMessage A S) : VoteImportResult A S × Rounds A S :=
  -- `entry(..).or_default()`: the first vote for a commitment opens its round
  let round := s.rounds[vote.commitment]?.getD default
  let added := round.addVote (vote.id, vote.signature)
  let s := { s with rounds := s.rounds.insert vote.commitment added.1 }
  if added.2 && added.1.isDone (threshold s.validatorSet.len) then
    match s.rounds[vote.commitment]? with
    | some round =>
      (.roundConcluded (s.signedCommitment (vote.commitment, round)),
        { s with rounds := s.rounds.erase vote.commitment })
    | none => (.ok, s)
  else (.ok, s)

/-- `Rounds::conclude`: drop this and older (now stale) rounds. -/
def conclude (s : Rounds A S) (roundNum : ℕ) : Rounds A S :=
  { s with
    rounds := s.rounds.filter fun commitment _ => commitment.blockNumber > roundNum
    previousVotes := s.previousVotes.filter fun key _ => key.2 > roundNum
    mandatoryDone := s.mandatoryDone || roundNum == s.sessionStart
    bestDone := s.bestDone.max (some roundNum) }

section

variable [DecidableEq A]

/-- `Rounds::add_vote`. -/
def addVote (s : Rounds A S) (vote : VoteMessage A S) : VoteImportResult A S × Rounds A S :=
  let num := vote.commitment.blockNumber
  let voteKey := (vote.id, num)
  if num < s.sessionStart || s.bestDone.any (num ≤ ·) then (.stale, s)
  else if vote.commitment.validatorSetId ≠ s.validatorSetId then (.invalid, s)
  else if !s.validators.any (vote.id == ·) then (.invalid, s)
  else
    match s.previousVotes[voteKey]? with
    | some previousVote =>
      -- the same key voting for a different payload
      if previousVote.commitment.payload ≠ vote.commitment.payload then
        (.equivocation { first := previousVote, second := vote }, s)
      else s.countVote vote
    | none => { s with previousVotes := s.previousVotes.insert voteKey vote }.countVote vote

/-- One call on a `Rounds` value. -/
inductive Call (A S : Type*) where
  | addVote (vote : VoteMessage A S)
  | conclude (roundNum : ℕ)

/-- The step function of a `Rounds` value: `add_vote` reports a result, `conclude`
none. -/
def call (s : Rounds A S) : Call A S → Option (VoteImportResult A S) × Rounds A S
  | .addVote vote => ((s.addVote vote).1, (s.addVote vote).2)
  | .conclude roundNum => (none, s.conclude roundNum)

end

/-! ### Counting a vote in its round -/

/-- The round of `c` as `add_vote` finds it: empty when none is open. -/
def roundOf (s : Rounds A S) (c : Commitment) : RoundTracker A S := s.rounds[c]?.getD default

/-- The round of `vote`'s commitment with `vote` added. -/
def withVote (s : Rounds A S) (vote : VoteMessage A S) : RoundTracker A S :=
  ⟨(s.roundOf vote.commitment).votes.insert vote.id vote.signature⟩

section CountVote

variable [Std.TransOrd A] {s : Rounds A S} {vote : VoteMessage A S}

/-- The voters of a round once `vote` is in it. -/
theorem mem_withVote [Std.LawfulEqOrd A] {a : A} :
    a ∈ (s.withVote vote).votes ↔ a = vote.id ∨ a ∈ (s.roundOf vote.commitment).votes := by
  rw [withVote, Std.TreeMap.mem_insert, Std.LawfulEqOrd.compare_eq_iff_eq, eq_comm]

/-- A voter of the round `add_vote` finds is a voter of an open round. -/
theorem exists_of_getElem?_roundOf {c : Commitment} {a : A} {sig : S}
    (h : (s.roundOf c).votes[a]? = some sig) :
    ∃ rt, s.rounds[c]? = some rt ∧ rt.votes[a]? = some sig := by
  cases hr : s.rounds[c]? with
  | none => simp [roundOf, hr] at h
  | some rt => exact ⟨rt, rfl, by simpa [roundOf, hr] using h⟩

omit [Std.TransOrd A] in
/-- A voter already in the round is not counted again. -/
theorem countVote_of_mem (h : vote.id ∈ (s.roundOf vote.commitment).votes) :
    s.countVote vote =
      (.ok, { s with rounds := s.rounds.insert vote.commitment (s.roundOf vote.commitment) }) := by
  simp only [roundOf] at h ⊢
  simp [countVote, RoundTracker.addVote, h]

/-- A new voter that completes the threshold concludes the round: it is removed and
its signatures reported. -/
theorem countVote_of_concludes (h : vote.id ∉ (s.roundOf vote.commitment).votes)
    (ht : threshold s.validatorSet.len ≤ (s.roundOf vote.commitment).votes.size + 1) :
    s.countVote vote =
      (.roundConcluded (s.signedCommitment (vote.commitment, s.withVote vote)),
        { s with
          rounds := (s.rounds.insert vote.commitment (s.withVote vote)).erase vote.commitment }) := by
  have hc : (s.roundOf vote.commitment).votes.contains vote.id = false := by
    rw [Bool.eq_false_iff]
    exact fun hc => h (Std.TreeMap.contains_iff_mem.mp hc)
  have hsize : threshold s.validatorSet.len ≤ (s.withVote vote).votes.size := by
    rw [withVote, Std.TreeMap.size_insert, hc]
    simpa using ht
  simp only [withVote, roundOf] at h hsize ⊢
  simp [countVote, RoundTracker.addVote, RoundTracker.isDone, h, hsize, signedCommitment,
    validators]

/-- A new voter below the threshold is added to the round. -/
theorem countVote_of_below (h : vote.id ∉ (s.roundOf vote.commitment).votes)
    (ht : (s.roundOf vote.commitment).votes.size + 1 < threshold s.validatorSet.len) :
    s.countVote vote =
      (.ok, { s with rounds := s.rounds.insert vote.commitment (s.withVote vote) }) := by
  have hc : (s.roundOf vote.commitment).votes.contains vote.id = false := by
    rw [Bool.eq_false_iff]
    exact fun hc => h (Std.TreeMap.contains_iff_mem.mp hc)
  have hsize : ¬ threshold s.validatorSet.len ≤ (s.withVote vote).votes.size := by
    rw [withVote, Std.TreeMap.size_insert, hc]
    simpa using ht
  simp only [withVote, roundOf] at h hsize ⊢
  simp [countVote, RoundTracker.addVote, RoundTracker.isDone, h, hsize]

/-- Counting a vote only touches the rounds. -/
theorem countVote_snd (s : Rounds A S) (vote : VoteMessage A S) :
    (s.countVote vote).2 = { s with rounds := (s.countVote vote).2.rounds } := by
  by_cases h : vote.id ∈ (s.roundOf vote.commitment).votes
  · rw [countVote_of_mem h]
  · by_cases ht : threshold s.validatorSet.len ≤ (s.roundOf vote.commitment).votes.size + 1
    · rw [countVote_of_concludes h ht]
    · rw [countVote_of_below h (by omega)]

@[simp] theorem countVote_previousVotes (s : Rounds A S) (vote : VoteMessage A S) :
    (s.countVote vote).2.previousVotes = s.previousVotes := by
  rw [countVote_snd]

@[simp] theorem countVote_sessionStart (s : Rounds A S) (vote : VoteMessage A S) :
    (s.countVote vote).2.sessionStart = s.sessionStart := by
  rw [countVote_snd]

@[simp] theorem countVote_validatorSet (s : Rounds A S) (vote : VoteMessage A S) :
    (s.countVote vote).2.validatorSet = s.validatorSet := by
  rw [countVote_snd]

@[simp] theorem countVote_mandatoryDone (s : Rounds A S) (vote : VoteMessage A S) :
    (s.countVote vote).2.mandatoryDone = s.mandatoryDone := by
  rw [countVote_snd]

@[simp] theorem countVote_bestDone (s : Rounds A S) (vote : VoteMessage A S) :
    (s.countVote vote).2.bestDone = s.bestDone := by
  rw [countVote_snd]

/-- A counted vote leaves every other commitment's round alone. -/
theorem countVote_rounds_of_ne {c : Commitment} (hc : c ≠ vote.commitment) :
    (s.countVote vote).2.rounds[c]? = s.rounds[c]? := by
  have hc' : ¬ vote.commitment = c := fun h => hc h.symm
  by_cases h : vote.id ∈ (s.roundOf vote.commitment).votes
  · simp [countVote_of_mem h, Std.TreeMap.getElem?_insert, hc']
  · by_cases ht : threshold s.validatorSet.len ≤ (s.roundOf vote.commitment).votes.size + 1
    · simp [countVote_of_concludes h ht, Std.TreeMap.getElem?_erase,
        Std.TreeMap.getElem?_insert, hc']
    · simp [countVote_of_below h (by omega), Std.TreeMap.getElem?_insert, hc']

/-- Every signature in a round after counting `vote` was there before, or is `vote`'s. -/
theorem countVote_entry [Std.LawfulEqOrd A] {c : Commitment} {rt : RoundTracker A S} {a : A} {sig : S}
    (h : (s.countVote vote).2.rounds[c]? = some rt) (ha : rt.votes[a]? = some sig) :
    (∃ rt₀, s.rounds[c]? = some rt₀ ∧ rt₀.votes[a]? = some sig) ∨
      (c = vote.commitment ∧ a = vote.id ∧ sig = vote.signature) := by
  by_cases hc : c = vote.commitment
  swap
  · rw [countVote_rounds_of_ne hc] at h
    exact .inl ⟨rt, h, ha⟩
  subst hc
  -- the round of the vote's own commitment: unchanged, extended by the vote, or removed
  have hold : ∀ rt₀ : RoundTracker A S, rt₀ = s.roundOf vote.commitment →
      rt₀.votes[a]? = some sig →
      ∃ rt₀ : RoundTracker A S, s.rounds[vote.commitment]? = some rt₀ ∧ rt₀.votes[a]? = some sig := by
    rintro rt₀ rfl ha₀
    cases hr : s.rounds[vote.commitment]? with
    | none => simp [roundOf, hr] at ha₀
    | some r => exact ⟨r, rfl, by simpa [roundOf, hr] using ha₀⟩
  by_cases hm : vote.id ∈ (s.roundOf vote.commitment).votes
  · simp only [countVote_of_mem hm, Std.TreeMap.getElem?_insert_self, Option.some.injEq] at h
    exact .inl (hold rt h.symm ha)
  · by_cases ht : threshold s.validatorSet.len ≤ (s.roundOf vote.commitment).votes.size + 1
    · simp [countVote_of_concludes hm ht] at h
    · simp only [countVote_of_below hm (by omega), Std.TreeMap.getElem?_insert_self,
        Option.some.injEq] at h
      subst h
      simp only [withVote, Std.TreeMap.getElem?_insert] at ha
      split at ha
      · rename_i hid
        cases ha
        exact .inr ⟨rfl, (Std.LawfulEqOrd.compare_eq_iff_eq.mp hid).symm, rfl⟩
      · exact .inl (hold _ rfl ha)

/-- When counting concludes the round it reports the round with the vote in it. -/
theorem countVote_fst_eq_roundConcluded {sc : SignedCommitment S} :
    (s.countVote vote).1 = .roundConcluded sc ↔
      vote.id ∉ (s.roundOf vote.commitment).votes ∧
        threshold s.validatorSet.len ≤ (s.roundOf vote.commitment).votes.size + 1 ∧
        sc = s.signedCommitment (vote.commitment, s.withVote vote) := by
  by_cases h : vote.id ∈ (s.roundOf vote.commitment).votes
  · simp [countVote_of_mem h, h]
  · by_cases ht : threshold s.validatorSet.len ≤ (s.roundOf vote.commitment).votes.size + 1
    · simp [countVote_of_concludes h ht, h, ht, eq_comm]
    · simp [countVote_of_below h (by omega), ht]

end CountVote

/-! ### Stale rounds and counted votes -/

/-- Block `num` is no longer voted on: before the session, or concluded. -/
def IsStale (s : Rounds A S) (num : ℕ) : Prop :=
  num < s.sessionStart ∨ ∃ b, s.bestDone = some b ∧ num ≤ b

/-- `add_vote` counts `vote`: it is for a live round of this set, from a member, and does
not contradict its author's first vote for the block. -/
def Counts (s : Rounds A S) (vote : VoteMessage A S) : Prop :=
  ¬ s.IsStale vote.commitment.blockNumber ∧
    vote.commitment.validatorSetId = s.validatorSetId ∧ vote.id ∈ s.validators ∧
    ∀ u, s.previousVotes[(vote.id, vote.commitment.blockNumber)]? = some u →
      u.commitment.payload = vote.commitment.payload

/-- `previousVotes` after a counted vote: its author's first vote for the block is kept. -/
def recordVote (s : Rounds A S) (vote : VoteMessage A S) : Rounds A S :=
  match s.previousVotes[(vote.id, vote.commitment.blockNumber)]? with
  | some _ => s
  | none => { s with
      previousVotes := s.previousVotes.insert (vote.id, vote.commitment.blockNumber) vote }

theorem staleTest_iff (s : Rounds A S) (num : ℕ) :
    (num < s.sessionStart || s.bestDone.any (num ≤ ·)) = true ↔ s.IsStale num := by
  cases h : s.bestDone <;> simp [IsStale, h]

section Record

variable [Std.TransOrd A] [Std.LawfulEqOrd A] {s : Rounds A S} {vote : VoteMessage A S}

omit [Std.TransOrd A] [Std.LawfulEqOrd A] in
/-- Recording a vote only touches `previousVotes`. -/
theorem recordVote_eq (s : Rounds A S) (vote : VoteMessage A S) :
    s.recordVote vote = { s with previousVotes := (s.recordVote vote).previousVotes } := by
  unfold recordVote
  split <;> rfl

omit [Std.TransOrd A] [Std.LawfulEqOrd A] in
@[simp] theorem recordVote_rounds (s : Rounds A S) (vote : VoteMessage A S) :
    (s.recordVote vote).rounds = s.rounds := by
  rw [recordVote_eq]

omit [Std.TransOrd A] [Std.LawfulEqOrd A] in
@[simp] theorem recordVote_validatorSet (s : Rounds A S) (vote : VoteMessage A S) :
    (s.recordVote vote).validatorSet = s.validatorSet := by
  rw [recordVote_eq]

omit [Std.TransOrd A] [Std.LawfulEqOrd A] in
@[simp] theorem recordVote_sessionStart (s : Rounds A S) (vote : VoteMessage A S) :
    (s.recordVote vote).sessionStart = s.sessionStart := by
  rw [recordVote_eq]

omit [Std.TransOrd A] [Std.LawfulEqOrd A] in
@[simp] theorem recordVote_bestDone (s : Rounds A S) (vote : VoteMessage A S) :
    (s.recordVote vote).bestDone = s.bestDone := by
  rw [recordVote_eq]

omit [Std.TransOrd A] [Std.LawfulEqOrd A] in
@[simp] theorem recordVote_mandatoryDone (s : Rounds A S) (vote : VoteMessage A S) :
    (s.recordVote vote).mandatoryDone = s.mandatoryDone := by
  rw [recordVote_eq]

/-- Recording never changes a first vote already there. -/
theorem recordVote_previousVotes_of_some {k : A × ℕ} {u : VoteMessage A S}
    (h : s.previousVotes[k]? = some u) : (s.recordVote vote).previousVotes[k]? = some u := by
  unfold recordVote
  split
  · exact h
  · rename_i hnone
    have hk : ¬ (vote.id, vote.commitment.blockNumber) = k := by
      rintro rfl
      rw [hnone] at h
      cases h
    simp [Std.TreeMap.getElem?_insert, hk, h]

/-- Other keys keep their entry. -/
theorem recordVote_previousVotes_of_ne {k : A × ℕ} (hk : k ≠ (vote.id, vote.commitment.blockNumber)) :
    (s.recordVote vote).previousVotes[k]? = s.previousVotes[k]? := by
  unfold recordVote
  split
  · rfl
  · simp [Std.TreeMap.getElem?_insert, Ne.symm hk]

/-- After recording, the vote's key holds its author's first vote: the one already there,
or this one. -/
theorem recordVote_previousVotes_self :
    (s.recordVote vote).previousVotes[(vote.id, vote.commitment.blockNumber)]? =
      some ((s.previousVotes[(vote.id, vote.commitment.blockNumber)]?).getD vote) := by
  unfold recordVote
  split
  · rename_i u hu
    simp [hu]
  · rename_i hnone
    simp [hnone]

end Record

/-! ### Concluding a round -/

section Conclude

variable [Std.TransOrd A] [Std.LawfulEqOrd A] (s : Rounds A S) (roundNum : ℕ)

omit [Std.TransOrd A] [Std.LawfulEqOrd A] in
@[simp] theorem conclude_sessionStart : (s.conclude roundNum).sessionStart = s.sessionStart := rfl

omit [Std.TransOrd A] [Std.LawfulEqOrd A] in
@[simp] theorem conclude_validatorSet : (s.conclude roundNum).validatorSet = s.validatorSet := rfl

omit [Std.TransOrd A] [Std.LawfulEqOrd A] in
@[simp] theorem conclude_bestDone :
    (s.conclude roundNum).bestDone = s.bestDone.max (some roundNum) := rfl

omit [Std.TransOrd A] [Std.LawfulEqOrd A] in
@[simp] theorem conclude_mandatoryDone :
    (s.conclude roundNum).mandatoryDone = (s.mandatoryDone || roundNum == s.sessionStart) := rfl

omit [Std.TransOrd A] [Std.LawfulEqOrd A] in
/-- `conclude` keeps exactly the rounds above `roundNum`. -/
theorem conclude_rounds_getElem? (c : Commitment) :
    (s.conclude roundNum).rounds[c]? = if roundNum < c.blockNumber then s.rounds[c]? else none := by
  simp only [conclude, Std.TreeMap.getElem?_filter']
  cases s.rounds[c]? <;> split <;> simp_all

/-- `conclude` keeps exactly the first votes above `roundNum`. -/
theorem conclude_previousVotes_getElem? (k : A × ℕ) :
    (s.conclude roundNum).previousVotes[k]? =
      if roundNum < k.2 then s.previousVotes[k]? else none := by
  simp only [conclude, Std.TreeMap.getElem?_filter']
  cases s.previousVotes[k]? <;> split <;> simp_all

omit [Std.TransOrd A] [Std.LawfulEqOrd A] in
/-- After `conclude roundNum`, every block up to `roundNum` is stale. -/
theorem isStale_conclude (num : ℕ) :
    (s.conclude roundNum).IsStale num ↔ s.IsStale num ∨ num ≤ roundNum := by
  unfold IsStale
  cases h : s.bestDone with
  | none => simp [h, Option.max]
  | some b =>
    simp only [conclude_sessionStart, conclude_bestDone, h, Option.max, Option.some.injEq,
      exists_eq_left']
    omega

end Conclude

section Branches

variable [DecidableEq A] {s : Rounds A S} {vote : VoteMessage A S}

theorem memberTest_iff (s : Rounds A S) (a : A) :
    s.validators.any (a == ·) = true ↔ a ∈ s.validators := by
  simp only [List.any_eq_true, beq_iff_eq]
  constructor
  · rintro ⟨x, hx, rfl⟩
    exact hx
  · intro h
    exact ⟨a, h, rfl⟩


theorem addVote_of_isStale (h : s.IsStale vote.commitment.blockNumber) :
    s.addVote vote = (.stale, s) := by
  simp [addVote, (staleTest_iff s _).mpr h]

theorem addVote_of_setId_ne (hl : ¬ s.IsStale vote.commitment.blockNumber)
    (h : vote.commitment.validatorSetId ≠ s.validatorSetId) :
    s.addVote vote = (.invalid, s) := by
  have hst := mt (staleTest_iff s _).mp hl
  simp only [Bool.not_eq_true] at hst
  simp [addVote, hst, h]

theorem addVote_of_not_mem (hl : ¬ s.IsStale vote.commitment.blockNumber)
    (hset : vote.commitment.validatorSetId = s.validatorSetId) (h : vote.id ∉ s.validators) :
    s.addVote vote = (.invalid, s) := by
  have hst := mt (staleTest_iff s _).mp hl
  have hmem := mt (memberTest_iff s vote.id).mp h
  simp only [Bool.not_eq_true] at hst hmem
  simp [addVote, hst, hset, hmem]

theorem addVote_of_equivocates (hl : ¬ s.IsStale vote.commitment.blockNumber)
    (hset : vote.commitment.validatorSetId = s.validatorSetId) (hmem : vote.id ∈ s.validators)
    {u : VoteMessage A S} (hu : s.previousVotes[(vote.id, vote.commitment.blockNumber)]? = some u)
    (hpay : u.commitment.payload ≠ vote.commitment.payload) :
    s.addVote vote = (.equivocation { first := u, second := vote }, s) := by
  have hst := mt (staleTest_iff s _).mp hl
  simp only [Bool.not_eq_true] at hst
  simp [addVote, hst, hset, (memberTest_iff s vote.id).mpr hmem, hu, hpay]

/-- A counted vote is recorded, then counted in its round. -/
theorem addVote_of_counts (h : s.Counts vote) :
    s.addVote vote = (s.recordVote vote).countVote vote := by
  obtain ⟨hl, hset, hmem, hprev⟩ := h
  have hst := mt (staleTest_iff s _).mp hl
  simp only [Bool.not_eq_true] at hst
  cases hu : s.previousVotes[(vote.id, vote.commitment.blockNumber)]? with
  | none => simp [addVote, recordVote, hst, hset, (memberTest_iff s vote.id).mpr hmem, hu]
  | some u => simp [addVote, recordVote, hst, hset, (memberTest_iff s vote.id).mpr hmem, hu,
      hprev u hu]

/-- A vote that `add_vote` does not count is reported stale, invalid or an equivocation
with its author's first vote for the block, and leaves the rounds as they were. -/
theorem addVote_of_not_counts (h : ¬ s.Counts vote) :
    s.addVote vote = (.stale, s) ∨ s.addVote vote = (.invalid, s) ∨
      ∃ u, s.previousVotes[(vote.id, vote.commitment.blockNumber)]? = some u ∧
        u.commitment.payload ≠ vote.commitment.payload ∧
        s.addVote vote = (.equivocation { first := u, second := vote }, s) := by
  by_cases hl : s.IsStale vote.commitment.blockNumber
  · exact .inl (addVote_of_isStale hl)
  by_cases hset : vote.commitment.validatorSetId = s.validatorSetId
  swap
  · exact .inr (.inl (addVote_of_setId_ne hl hset))
  by_cases hmem : vote.id ∈ s.validators
  swap
  · exact .inr (.inl (addVote_of_not_mem hl hset hmem))
  -- the only way left not to count: a first vote for another payload
  have hprev : ∃ u, s.previousVotes[(vote.id, vote.commitment.blockNumber)]? = some u ∧
      u.commitment.payload ≠ vote.commitment.payload := by
    by_contra hno
    push Not at hno
    exact h ⟨hl, hset, hmem, hno⟩
  obtain ⟨u, hu, hpay⟩ := hprev
  exact .inr (.inr ⟨u, hu, hpay, addVote_of_equivocates hl hset hmem hu hpay⟩)

theorem addVote_snd_of_not_counts (h : ¬ s.Counts vote) : (s.addVote vote).2 = s := by
  rcases addVote_of_not_counts h with h | h | ⟨u, -, -, h⟩ <;> rw [h]

/-- A counted vote is reported `Ok` or `RoundConcluded`. -/
theorem addVote_isAccepted_of_counts [Std.TransOrd A] (h : s.Counts vote) :
    (s.addVote vote).1.isAccepted = true := by
  rw [addVote_of_counts h]
  by_cases hm : vote.id ∈ ((s.recordVote vote).roundOf vote.commitment).votes
  · rw [countVote_of_mem hm]
    rfl
  · by_cases ht : threshold (s.recordVote vote).validatorSet.len ≤
        ((s.recordVote vote).roundOf vote.commitment).votes.size + 1
    · rw [countVote_of_concludes hm ht]
      rfl
    · rw [countVote_of_below hm (by omega)]
      rfl

/-- `add_vote` accepts a vote exactly when it counts it. -/
theorem addVote_isAccepted_iff [Std.TransOrd A] :
    (s.addVote vote).1.isAccepted = true ↔ s.Counts vote := by
  constructor
  · intro h
    by_contra hc
    rcases addVote_of_not_counts hc with h' | h' | ⟨u, -, -, h'⟩ <;>
      rw [h'] at h <;> simp [VoteImportResult.isAccepted] at h
  · exact addVote_isAccepted_of_counts

/-- `add_vote` reports an equivocation exactly for a live vote of this set, by a member,
whose author's first vote for the block has another payload; the proof pairs the two. -/
theorem addVote_fst_eq_equivocation [Std.TransOrd A] {p : EquivocationProof A S} :
    (s.addVote vote).1 = .equivocation p ↔
      ¬ s.IsStale vote.commitment.blockNumber ∧
        vote.commitment.validatorSetId = s.validatorSetId ∧ vote.id ∈ s.validators ∧
        ∃ u, s.previousVotes[(vote.id, vote.commitment.blockNumber)]? = some u ∧
          u.commitment.payload ≠ vote.commitment.payload ∧ p = { first := u, second := vote } := by
  constructor
  · intro h
    by_cases hc : s.Counts vote
    · have hacc := addVote_isAccepted_of_counts hc
      rw [h] at hacc
      simp [VoteImportResult.isAccepted] at hacc
    rcases addVote_of_not_counts hc with h' | h' | ⟨u, hu, hpay, h'⟩
    · rw [h'] at h
      cases h
    · rw [h'] at h
      cases h
    · rw [h'] at h
      cases h
      by_cases hl : s.IsStale vote.commitment.blockNumber
      · rw [addVote_of_isStale hl] at h'
        simp at h'
      by_cases hset : vote.commitment.validatorSetId = s.validatorSetId
      swap
      · rw [addVote_of_setId_ne hl hset] at h'
        simp at h'
      by_cases hmem : vote.id ∈ s.validators
      swap
      · rw [addVote_of_not_mem hl hset hmem] at h'
        simp at h'
      exact ⟨hl, hset, hmem, u, hu, hpay, rfl⟩
  · rintro ⟨hl, hset, hmem, u, hu, hpay, rfl⟩
    rw [addVote_of_equivocates hl hset hmem hu hpay]


/-- `add_vote` only touches the two maps. -/
theorem addVote_snd_eq [Std.TransOrd A] (s : Rounds A S) (vote : VoteMessage A S) :
    (s.addVote vote).2 =
      { s with
        rounds := (s.addVote vote).2.rounds
        previousVotes := (s.addVote vote).2.previousVotes } := by
  by_cases hc : s.Counts vote
  · rw [addVote_of_counts hc, countVote_snd]
    simp
  · rw [addVote_snd_of_not_counts hc]

@[simp] theorem addVote_sessionStart [Std.TransOrd A] (s : Rounds A S) (vote : VoteMessage A S) :
    (s.addVote vote).2.sessionStart = s.sessionStart := by
  rw [addVote_snd_eq]

@[simp] theorem addVote_validatorSet [Std.TransOrd A] (s : Rounds A S) (vote : VoteMessage A S) :
    (s.addVote vote).2.validatorSet = s.validatorSet := by
  rw [addVote_snd_eq]

@[simp] theorem addVote_mandatoryDone [Std.TransOrd A] (s : Rounds A S) (vote : VoteMessage A S) :
    (s.addVote vote).2.mandatoryDone = s.mandatoryDone := by
  rw [addVote_snd_eq]

@[simp] theorem addVote_bestDone [Std.TransOrd A] (s : Rounds A S) (vote : VoteMessage A S) :
    (s.addVote vote).2.bestDone = s.bestDone := by
  rw [addVote_snd_eq]

/-- `add_vote` never changes a first vote already filed. -/
theorem addVote_previousVotes_of_some [Std.TransOrd A] [Std.LawfulEqOrd A] {k : A × ℕ}
    {u : VoteMessage A S} (h : s.previousVotes[k]? = some u) :
    (s.addVote vote).2.previousVotes[k]? = some u := by
  by_cases hc : s.Counts vote
  · rw [addVote_of_counts hc, countVote_previousVotes]
    exact recordVote_previousVotes_of_some h
  · rw [addVote_snd_of_not_counts hc]
    exact h

end Branches

end Rounds

end BeefyEtf
