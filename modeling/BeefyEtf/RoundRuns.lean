/-
Runs of one session's rounds: the invariant, equivocation detection, agreement.

A `Rounds` value only changes by `add_vote` and `conclude` calls.  Over every
run of them:

* `valid_runFrom` — first votes are filed under their author and block, and a
  signature in an open round is a member's, whose first vote for the block has
  the round's payload (`Rounds.Valid`);
* `equivocation_detection` — `add_vote` reports an equivocation only for two
  votes the on-chain checker compares, and, within the session's set, it
  reports every later contradicting vote of an authority whose vote it
  counted, until the block is concluded;
* `concluded_payloads_agree` — two rounds concluded for one block have one
  payload: their signers are more than half of the validators each, so they
  share one, whose first vote for the block fixes the payload.
-/
import BeefyEtf.Run
import BeefyEtf.Round

namespace BeefyEtf

namespace Rounds

open Run

variable {A S : Type*} [Ord A] [Std.TransOrd A] [Std.LawfulEqOrd A] [DecidableEq A]

/-! ### The invariant -/

/-- What every `Rounds` value reached by `add_vote` and `conclude` satisfies, when
`add_vote` only counts votes of which `good` holds. -/
structure Valid (good : VoteMessage A S → Prop) (s : Rounds A S) : Prop where
  /-- A first vote is filed under its author and its block, for this set. -/
  previous : ∀ (k : A × ℕ) (u : VoteMessage A S), s.previousVotes[k]? = some u →
    u.id = k.1 ∧ u.commitment.blockNumber = k.2 ∧
      u.commitment.validatorSetId = s.validatorSetId
  /-- A signature in an open round is a good vote of a member of this set, whose first
  vote for the block has the round's payload. -/
  entry : ∀ (c : Commitment) (rt : RoundTracker A S) (a : A) (sig : S),
    s.rounds[c]? = some rt → rt.votes[a]? = some sig →
    good { commitment := c, id := a, signature := sig } ∧ a ∈ s.validators ∧
      c.validatorSetId = s.validatorSetId ∧
      ∃ u, s.previousVotes[(a, c.blockNumber)]? = some u ∧ u.commitment.payload = c.payload

variable {good : VoteMessage A S → Prop}

omit [Std.LawfulEqOrd A] [DecidableEq A] in
theorem valid_new (sessionStart : ℕ) (vs : ValidatorSet A) :
    Valid good (Rounds.new sessionStart vs : Rounds A S) where
  previous k u h := by simp [Rounds.new] at h
  entry c rt a sig h := by simp [Rounds.new] at h

/-- `add_vote` keeps the invariant, if the vote is good whenever it counts. -/
theorem valid_addVote {s : Rounds A S} {vote : VoteMessage A S} (hv : Valid good s)
    (hg : s.Counts vote → good vote) : Valid good (s.addVote vote).2 := by
  by_cases hc : s.Counts vote
  swap
  · rw [addVote_snd_of_not_counts hc]
    exact hv
  obtain ⟨hl, hset, hmem, hprev⟩ := hc
  rw [addVote_of_counts ⟨hl, hset, hmem, hprev⟩]
  constructor
  · -- the only new first vote is this vote, under its own key
    intro k u hk
    rw [countVote_previousVotes] at hk
    by_cases hkey : k = (vote.id, vote.commitment.blockNumber)
    · subst hkey
      rw [recordVote_previousVotes_self] at hk
      cases hold : s.previousVotes[(vote.id, vote.commitment.blockNumber)]? with
      | none =>
        simp only [hold, Option.getD_none, Option.some.injEq] at hk
        subst hk
        simpa [validatorSetId] using hset
      | some w =>
        simp only [hold, Option.getD_some, Option.some.injEq] at hk
        subst hk
        simpa [validatorSetId] using hv.previous _ _ hold
    · rw [recordVote_previousVotes_of_ne hkey] at hk
      simpa [validatorSetId] using hv.previous k u hk
  · intro c rt a sig hc hrt
    rcases countVote_entry hc hrt with ⟨rt₀, hc₀, hrt₀⟩ | ⟨rfl, rfl, rfl⟩
    · -- an old signature: its first vote is still filed
      rw [recordVote_rounds] at hc₀
      obtain ⟨hgood, ha, hcset, u, hu, hpay⟩ := hv.entry c rt₀ a sig hc₀ hrt₀
      refine ⟨hgood, by simpa [validators] using ha, by simpa [validatorSetId] using hcset, u,
        ?_, hpay⟩
      rw [countVote_previousVotes]
      exact recordVote_previousVotes_of_some hu
    · -- the vote itself, now filed or agreeing with the first vote
      refine ⟨hg ⟨hl, hset, hmem, hprev⟩, by simpa [validators] using hmem,
        by simpa [validatorSetId] using hset, ?_⟩
      rw [countVote_previousVotes, recordVote_previousVotes_self]
      cases hold : s.previousVotes[(vote.id, vote.commitment.blockNumber)]? with
      | none => exact ⟨vote, by simp, rfl⟩
      | some w => exact ⟨w, by simp, hprev w hold⟩

omit [DecidableEq A] in
theorem valid_conclude {s : Rounds A S} (hv : Valid good s) (roundNum : ℕ) :
    Valid good (s.conclude roundNum) := by
  constructor
  · intro k u hk
    rw [conclude_previousVotes_getElem?] at hk
    split at hk
    · exact hv.previous k u hk
    · cases hk
  · intro c rt a sig hc hrt
    rw [conclude_rounds_getElem?] at hc
    split at hc
    · rename_i hlt
      obtain ⟨hgood, ha, hcset, u, hu, hpay⟩ := hv.entry c rt a sig hc hrt
      refine ⟨hgood, ha, hcset, u, ?_, hpay⟩
      rw [conclude_previousVotes_getElem?, if_pos hlt]
      exact hu
    · cases hc

/-- Every run of `add_vote` and `conclude` keeps the invariant, when all votes are good. -/
theorem valid_runFrom (hgood : ∀ vote, good vote) {s : Rounds A S} (hv : Valid good s)
    (calls : List (Call A S)) : Valid good (runFrom call s calls).2 := by
  refine runFrom_invariant (fun s c hs => ?_) hv calls
  cases c with
  | addVote vote => exact valid_addVote hs fun _ => hgood vote
  | conclude roundNum => exact valid_conclude hs roundNum

/-- The invariant over the calls made from `Rounds::new`. -/
theorem valid_of_new (sessionStart : ℕ) (vs : ValidatorSet A) (calls : List (Call A S)) :
    Valid (fun _ => True) (runFrom call (Rounds.new sessionStart vs) calls).2 :=
  valid_runFrom (fun _ => trivial) (valid_new sessionStart vs) calls


omit [Std.LawfulEqOrd A] in
@[simp] theorem validatorSet_runFrom (s : Rounds A S) (calls : List (Call A S)) :
    (runFrom call s calls).2.validatorSet = s.validatorSet := by
  refine @runFrom_invariant _ _ _ call (fun s' => s'.validatorSet = s.validatorSet)
    (fun s' c hs' => ?_) s rfl calls
  cases c <;> simpa [call] using hs'

/-- The `Rounds` value of a session after the calls `calls`. -/
def afterCalls (sessionStart : ℕ) (vs : ValidatorSet A) (calls : List (Call A S)) : Rounds A S :=
  (runFrom call (Rounds.new sessionStart vs) calls).2

/-! ### Equivocations -/

/-- After an authority's vote for a block is counted, its first vote for the block stays
filed, and the block stays live, through every later call but a `conclude` of the block. -/
theorem firstVote_persists {s : Rounds A S} {u : VoteMessage A S} (hc : s.Counts u)
    (later : List (Call A S))
    (hlater : ∀ r, Call.conclude r ∈ later → r < u.commitment.blockNumber) :
    ∃ w, (runFrom call (s.addVote u).2 later).2.previousVotes[(u.id,
        u.commitment.blockNumber)]? = some w ∧ w.commitment.payload = u.commitment.payload ∧
      ¬ (runFrom call (s.addVote u).2 later).2.IsStale u.commitment.blockNumber := by
  obtain ⟨hl, hset, hmem, hprev⟩ := hc
  -- the first vote filed when `u` is counted
  obtain ⟨w, hw, hpay⟩ : ∃ w, (s.addVote u).2.previousVotes[(u.id,
      u.commitment.blockNumber)]? = some w ∧ w.commitment.payload = u.commitment.payload := by
    rw [addVote_of_counts ⟨hl, hset, hmem, hprev⟩, countVote_previousVotes,
      recordVote_previousVotes_self]
    cases hold : s.previousVotes[(u.id, u.commitment.blockNumber)]? with
    | none => exact ⟨u, by simp, rfl⟩
    | some w => exact ⟨w, by simp, hprev w hold⟩
  have hl₁ : ¬ (s.addVote u).2.IsStale u.commitment.blockNumber := by
    simpa [IsStale] using hl
  refine ⟨w, ?_⟩
  -- the first vote stays filed and the block live, call by call
  have key := @runFrom_invariant_mem _ _ _ call
    (fun s' => s'.previousVotes[(u.id, u.commitment.blockNumber)]? = some w ∧
      ¬ s'.IsStale u.commitment.blockNumber) later ?_ _ ⟨hw, hl₁⟩
  · exact ⟨key.1, hpay, key.2⟩
  intro s' c hmem hk
  obtain ⟨hwk, hlk⟩ := hk
  cases c with
  | addVote vote =>
    refine ⟨addVote_previousVotes_of_some hwk, ?_⟩
    simpa [call, IsStale] using hlk
  | conclude r =>
    have hr := hlater r hmem
    refine ⟨?_, ?_⟩
    · simp only [call]
      rw [conclude_previousVotes_getElem?, if_pos hr]
      exact hwk
    · simp only [call, isStale_conclude, not_or]
      exact ⟨hlk, by omega⟩

/-- **Equivocation detection** (within the session's validator set).

(a) An equivocation `add_vote` reports pairs two votes of one authority for one block
under one set id, with different payloads; so `check_equivocation_proof` accepts it
exactly when both signatures verify.  (b) Once an authority's vote for a block is
counted, and until a `conclude` of that block, every later vote of it for the block
under the session's set id with another payload is reported as an equivocation and
changes nothing. -/
theorem equivocation_detection (verify : A → S → Commitment → Bool) (sessionStart : ℕ)
    (vs : ValidatorSet A) (calls : List (Call A S)) :
    (∀ vote p, ((afterCalls sessionStart vs calls).addVote vote).1 = .equivocation p →
      p.first.id = p.second.id ∧
      p.first.commitment.blockNumber = p.second.commitment.blockNumber ∧
      p.first.commitment.validatorSetId = p.second.commitment.validatorSetId ∧
      p.first.commitment.payload ≠ p.second.commitment.payload ∧
      checkEquivocationProof verify p =
        (verify p.first.id p.first.signature p.first.commitment &&
          verify p.second.id p.second.signature p.second.commitment)) ∧
    (∀ u, ((afterCalls sessionStart vs calls).addVote u).1.isAccepted = true →
      ∀ later : List (Call A S), (∀ r, Call.conclude r ∈ later → r < u.commitment.blockNumber) →
      ∀ vote : VoteMessage A S, vote.id = u.id →
        vote.commitment.blockNumber = u.commitment.blockNumber →
        vote.commitment.validatorSetId = vs.id → vote.id ∈ vs.validators →
        vote.commitment.payload ≠ u.commitment.payload →
        ∃ w, w.commitment.payload = u.commitment.payload ∧
          (runFrom call ((afterCalls sessionStart vs calls).addVote u).2 later).2.addVote vote =
            (.equivocation { first := w, second := vote },
              (runFrom call ((afterCalls sessionStart vs calls).addVote u).2 later).2)) := by
  have hv : Valid (fun _ => True) (afterCalls sessionStart vs calls) :=
    valid_of_new sessionStart vs calls
  refine ⟨fun vote p h => ?_, fun u hu later hlater vote hid hnum hset hmem hpay => ?_⟩
  · obtain ⟨-, hvset, -, w, hw, hwpay, rfl⟩ := addVote_fst_eq_equivocation.mp h
    obtain ⟨hwid, hwnum, hwset⟩ : w.id = vote.id ∧
        w.commitment.blockNumber = vote.commitment.blockNumber ∧
        w.commitment.validatorSetId = (afterCalls sessionStart vs calls).validatorSetId :=
      hv.previous _ _ hw
    have hset' : w.commitment.validatorSetId = vote.commitment.validatorSetId := by
      rw [hwset, hvset]
    exact ⟨hwid, hwnum, hset', hwpay,
      checkEquivocationProof_eq_verify verify hwid hwnum hset' hwpay⟩
  · obtain ⟨w, hw, hwpay, hlive⟩ :=
      firstVote_persists (addVote_isAccepted_iff.mp hu) later hlater
    refine ⟨w, hwpay, ?_⟩
    rw [← hid, ← hnum] at hw
    rw [← hnum] at hlive
    refine addVote_of_equivocates hlive ?_ ?_ hw (by rw [hwpay]; exact Ne.symm hpay)
    · simpa [validatorSetId, afterCalls, Rounds.new] using hset
    · simpa [validators, afterCalls, Rounds.new] using hmem

/-- Authority 0 votes twice for block 1 with two payloads: the second vote is reported,
and the report passes the on-chain checker. -/
theorem equivocation_detection_conflicting_votes :
    checkEquivocationProof (fun _ _ _ => true)
        ⟨⟨⟨⟨[]⟩, 1, 0⟩, 0, 0⟩, ⟨⟨⟨[(#v[0, 0], [])]⟩, 1, 0⟩, 0, 0⟩⟩ = true ∧
      ∃ w, w.commitment.payload = ⟨[]⟩ ∧
        (runFrom call ((afterCalls 1 ⟨[0, 1], [0, 1], 0⟩ [] : Rounds ℕ ℕ).addVote
            ⟨⟨⟨[]⟩, 1, 0⟩, 0, 0⟩).2 []).2.addVote ⟨⟨⟨[(#v[0, 0], [])]⟩, 1, 0⟩, 0, 0⟩ =
          (.equivocation ⟨w, ⟨⟨⟨[(#v[0, 0], [])]⟩, 1, 0⟩, 0, 0⟩⟩,
            (runFrom call ((afterCalls 1 ⟨[0, 1], [0, 1], 0⟩ [] : Rounds ℕ ℕ).addVote
              ⟨⟨⟨[]⟩, 1, 0⟩, 0, 0⟩).2 []).2) := by
  refine ⟨?_, (equivocation_detection (fun _ _ _ => true) 1 ⟨[0, 1], [0, 1], 0⟩ []).2
    ⟨⟨⟨[]⟩, 1, 0⟩, 0, 0⟩ (by decide) [] (by simp) ⟨⟨⟨[(#v[0, 0], [])]⟩, 1, 0⟩, 0, 0⟩ rfl rfl rfl
    (by decide) (by decide)⟩
  have ha := (equivocation_detection (fun _ _ _ => true) 1 ⟨[0, 1], [0, 1], 0⟩
    [.addVote ⟨⟨⟨[]⟩, 1, 0⟩, 0, 0⟩]).1 ⟨⟨⟨[(#v[0, 0], [])]⟩, 1, 0⟩, 0, 0⟩
    ⟨⟨⟨⟨[]⟩, 1, 0⟩, 0, 0⟩, ⟨⟨⟨[(#v[0, 0], [])]⟩, 1, 0⟩, 0, 0⟩⟩ (by decide)
  rw [ha.2.2.2.2]
  rfl

/-- Within one session, a vote of a member for a live block under another set id is
rejected as invalid, not reported, even when its author's accepted vote for the block has
another payload. -/
theorem addVote_otherSetId_invalid :
    ((afterCalls 1 ⟨[0, 1], [0, 1], 0⟩ [] : Rounds ℕ ℕ).addVote ⟨⟨⟨[]⟩, 1, 0⟩, 0, 0⟩).1 = .ok ∧
      ¬ (afterCalls 1 ⟨[0, 1], [0, 1], 0⟩ [.addVote ⟨⟨⟨[]⟩, 1, 0⟩, 0, 0⟩] : Rounds ℕ ℕ).IsStale 1 ∧
      0 ∈ (afterCalls 1 ⟨[0, 1], [0, 1], 0⟩ [.addVote ⟨⟨⟨[]⟩, 1, 0⟩, 0, 0⟩] : Rounds ℕ ℕ).validators ∧
      ((afterCalls 1 ⟨[0, 1], [0, 1], 0⟩ [.addVote ⟨⟨⟨[]⟩, 1, 0⟩, 0, 0⟩] : Rounds ℕ ℕ).addVote
        ⟨⟨⟨[(#v[0, 0], [])]⟩, 1, 1⟩, 0, 0⟩).1 = .invalid := by
  refine ⟨by decide, ?_, by decide, by decide⟩
  simp [IsStale, afterCalls, call, Rounds.new]

/-! ### Agreement -/

/-- The signed commitment a result concludes, if it concludes one. -/
def concludedCommitment : Option (VoteImportResult A S) → Option (SignedCommitment S)
  | some (.roundConcluded sc) => some sc
  | _ => none

/-- The signed commitments a run's results conclude, in call order. -/
def concluded (outs : List (Option (VoteImportResult A S))) : List (SignedCommitment S) :=
  outs.filterMap concludedCommitment

/-- A quorum for payload `p` at block `n`: at least `threshold` distinct members whose
first vote for `n` has payload `p`. -/
def Quorum (s : Rounds A S) (n : ℕ) (p : Payload) : Prop :=
  ∃ T : Finset A, T.Nonempty ∧ T ⊆ s.validators.toFinset ∧
    threshold s.validatorSet.len ≤ T.card ∧
    ∀ a ∈ T, ∃ u, s.previousVotes[(a, n)]? = some u ∧ u.commitment.payload = p

omit [Std.TransOrd A] [Std.LawfulEqOrd A] in
/-- Two quorums at one block share a member, whose one first vote fixes the payload. -/
theorem Quorum.payload_eq {s : Rounds A S} {n : ℕ} {p q : Payload} (hp : s.Quorum n p)
    (hq : s.Quorum n q) : p = q := by
  obtain ⟨T₁, ⟨a, ha⟩, hsub₁, hcard₁, hvote₁⟩ := hp
  obtain ⟨T₂, -, hsub₂, hcard₂, hvote₂⟩ := hq
  have hlen : 0 < s.validatorSet.len := List.length_pos_of_mem (List.mem_toFinset.mp (hsub₁ ha))
  have hlt : s.validators.toFinset.card < T₁.card + T₂.card := calc
    s.validators.toFinset.card ≤ s.validatorSet.len := List.toFinset_card_le _
    _ < threshold s.validatorSet.len + threshold s.validatorSet.len :=
      lt_threshold_add_threshold hlen
    _ ≤ T₁.card + T₂.card := Nat.add_le_add hcard₁ hcard₂
  obtain ⟨b, hb⟩ := Finset.inter_nonempty_of_card_lt_card_add_card hsub₁ hsub₂ hlt
  obtain ⟨u₁, hu₁, rfl⟩ := hvote₁ b (Finset.mem_inter.mp hb).1
  obtain ⟨u₂, hu₂, rfl⟩ := hvote₂ b (Finset.mem_inter.mp hb).2
  rw [hu₁, Option.some.injEq] at hu₂
  rw [hu₂]

omit [Std.TransOrd A] [Std.LawfulEqOrd A] in
/-- A quorum only needs its first votes and the validator set to stay. -/
theorem Quorum.mono {s t : Rounds A S} {n : ℕ} {p : Payload} (h : s.Quorum n p)
    (hset : t.validatorSet = s.validatorSet)
    (hprev : ∀ (a : A) (u : VoteMessage A S), s.previousVotes[(a, n)]? = some u → t.previousVotes[(a, n)]? = some u) :
    t.Quorum n p := by
  obtain ⟨T, hne, hsub, hcard, hvote⟩ := h
  refine ⟨T, hne, by simpa [validators, hset] using hsub, by simpa [hset] using hcard,
    fun a ha => ?_⟩
  obtain ⟨u, hu, hpay⟩ := hvote a ha
  exact ⟨u, hprev a u hu, hpay⟩

omit [Std.LawfulEqOrd A] in
@[simp] theorem isStale_addVote (s : Rounds A S) (vote : VoteMessage A S)
    (num : ℕ) : (s.addVote vote).2.IsStale num ↔ s.IsStale num := by
  simp [IsStale]

omit [Std.LawfulEqOrd A] [DecidableEq A] in
/-- Adding a voter that is not yet in the round grows it by one. -/
theorem size_withVote {s : Rounds A S} {vote : VoteMessage A S}
    (h : vote.id ∉ (s.roundOf vote.commitment).votes) :
    (s.withVote vote).votes.size = (s.roundOf vote.commitment).votes.size + 1 := by
  rw [withVote, Std.TreeMap.size_insert, if_neg fun hc => h (Std.TreeMap.contains_iff_mem.mp hc)]

/-- A round that `add_vote` concludes has a quorum for its payload afterwards: the round's
voters, the vote's author among them. -/
theorem quorum_of_addVote_eq_roundConcluded {s : Rounds A S} (hv : Valid good s)
    {vote : VoteMessage A S} {sc : SignedCommitment S}
    (h : (s.addVote vote).1 = .roundConcluded sc) :
    s.Counts vote ∧ sc.commitment = vote.commitment ∧
      (s.addVote vote).2.Quorum vote.commitment.blockNumber vote.commitment.payload := by
  have hc : s.Counts vote := addVote_isAccepted_iff.mp (by rw [h]; rfl)
  have hmem := hc.2.2.1
  have hprev := hc.2.2.2
  rw [addVote_of_counts hc] at h ⊢
  obtain ⟨hnew, ht, rfl⟩ := countVote_fst_eq_roundConcluded.mp h
  -- every voter of the concluded round is a member whose first vote has its payload
  have key : ∀ a ∈ ((s.recordVote vote).withVote vote).voters, a ∈ s.validators ∧
      ∃ u, (s.recordVote vote).previousVotes[(a, vote.commitment.blockNumber)]? = some u ∧
        u.commitment.payload = vote.commitment.payload := by
    intro a ha
    rw [RoundTracker.mem_voters, mem_withVote] at ha
    rcases ha with rfl | ha
    · refine ⟨hmem, _, recordVote_previousVotes_self, ?_⟩
      cases hold : s.previousVotes[(vote.id, vote.commitment.blockNumber)]? with
      | none => rfl
      | some w => exact hprev w hold
    · obtain ⟨rt, hr, hsig⟩ := exists_of_getElem?_roundOf (Std.TreeMap.getElem?_eq_some_getElem ha)
      rw [recordVote_rounds] at hr
      obtain ⟨-, ha', -, u, hu, hpay⟩ := hv.entry _ rt a _ hr hsig
      exact ⟨ha', u, recordVote_previousVotes_of_some hu, hpay⟩
  refine ⟨hc, rfl, ((s.recordVote vote).withVote vote).voters, ⟨vote.id, by simp [mem_withVote]⟩,
    fun a ha => ?_, ?_, fun a ha => ?_⟩
  · simpa [validators] using (key a ha).1
  · rw [RoundTracker.card_voters, size_withVote hnew]
    simpa using ht
  · simpa using (key a ha).2

/-- A concluded round stays settled: its block is stale, or a quorum for its payload is
still filed. -/
def Settled (s : Rounds A S) (sc : SignedCommitment S) : Prop :=
  s.IsStale sc.commitment.blockNumber ∨ s.Quorum sc.commitment.blockNumber sc.commitment.payload

theorem settled_addVote {s : Rounds A S} {sc : SignedCommitment S} (h : s.Settled sc)
    (vote : VoteMessage A S) : (s.addVote vote).2.Settled sc := by
  rcases h with h | h
  · exact .inl ((isStale_addVote s vote _).mpr h)
  · exact .inr (h.mono (addVote_validatorSet s vote) fun _ _ hu => addVote_previousVotes_of_some hu)

theorem settled_conclude {s : Rounds A S} {sc : SignedCommitment S} (h : s.Settled sc)
    (roundNum : ℕ) : (s.conclude roundNum).Settled sc := by
  by_cases hr : sc.commitment.blockNumber ≤ roundNum
  · exact .inl ((isStale_conclude s roundNum _).mpr (.inr hr))
  rcases h with h | h
  · exact .inl ((isStale_conclude s roundNum _).mpr (.inl h))
  · refine .inr (h.mono (conclude_validatorSet s roundNum) fun a u hu => ?_)
    rw [conclude_previousVotes_getElem?, if_pos (by simpa using hr)]
    exact hu

/-- What a run of one session keeps about the rounds it concluded: the state is valid,
each concluded round stays settled, and two concluded rounds of one block agree. -/
structure AgreementInv (s : Rounds A S) (outs : List (Option (VoteImportResult A S))) : Prop where
  valid : Valid (fun _ => True) s
  settled : ∀ sc ∈ concluded outs, s.Settled sc
  agree : ∀ sc₁ ∈ concluded outs, ∀ sc₂ ∈ concluded outs,
    sc₁.commitment.blockNumber = sc₂.commitment.blockNumber →
      sc₁.commitment.payload = sc₂.commitment.payload

omit [Ord A] [Std.TransOrd A] [Std.LawfulEqOrd A] [DecidableEq A] in
@[simp] theorem concluded_append_singleton (outs : List (Option (VoteImportResult A S)))
    (o : Option (VoteImportResult A S)) :
    concluded (outs ++ [o]) = concluded outs ++ (concludedCommitment o).toList := by
  cases h : concludedCommitment o <;> simp [concluded, h]

omit [Std.TransOrd A] [Std.LawfulEqOrd A] in
/-- A call that concludes nothing keeps the invariant once it keeps every settled round. -/
theorem AgreementInv.of_none {s t : Rounds A S} {outs : List (Option (VoteImportResult A S))}
    {o : Option (VoteImportResult A S)} (h : AgreementInv s outs) (ht : Valid (fun _ => True) t)
    (hsettled : ∀ sc, s.Settled sc → t.Settled sc) (ho : concludedCommitment o = none) :
    AgreementInv t (outs ++ [o]) where
  valid := ht
  settled sc hsc := by
    simp only [concluded_append_singleton, ho, Option.toList_none, List.append_nil] at hsc
    exact hsettled sc (h.settled sc hsc)
  agree := by
    simpa [ho] using h.agree

/-- `add_vote` keeps the invariant: a round it concludes has a quorum, which meets the
quorum of every live round concluded before at its block. -/
theorem agreementInv_addVote {s : Rounds A S} {outs : List (Option (VoteImportResult A S))}
    (h : AgreementInv s outs) (vote : VoteMessage A S) :
    AgreementInv (s.addVote vote).2 (outs ++ [some (s.addVote vote).1]) := by
  have hv : Valid (fun _ => True) (s.addVote vote).2 := valid_addVote h.valid fun _ => trivial
  have hold : ∀ sc, s.Settled sc → (s.addVote vote).2.Settled sc :=
    fun sc hsc => settled_addVote hsc vote
  cases hres : (s.addVote vote).1 with
  | roundConcluded sc =>
    obtain ⟨⟨hl, -⟩, hsc, hq⟩ := quorum_of_addVote_eq_roundConcluded h.valid hres
    -- an earlier round concluded at this block is live, so it still has its quorum
    have hsame : ∀ sc' ∈ concluded outs, sc'.commitment.blockNumber = sc.commitment.blockNumber →
        sc'.commitment.payload = sc.commitment.payload := by
      intro sc' hsc' hnum
      rcases h.settled sc' hsc' with hst | hq'
      · rw [hnum, hsc] at hst
        exact absurd hst hl
      · rw [hnum, hsc] at hq'
        rw [hsc]
        exact (Quorum.mono hq' (addVote_validatorSet s vote)
          fun _ _ hu => addVote_previousVotes_of_some hu).payload_eq hq
    refine ⟨hv, ?_, ?_⟩
    · simp only [concluded_append_singleton, concludedCommitment, Option.toList_some,
        List.mem_append, List.mem_singleton]
      rintro sc' (hsc' | rfl)
      · exact hold sc' (h.settled sc' hsc')
      · exact .inr (by rw [hsc]; exact hq)
    · simp only [concluded_append_singleton, concludedCommitment, Option.toList_some,
        List.mem_append, List.mem_singleton]
      rintro sc₁ (h₁ | rfl) sc₂ (h₂ | rfl) hnum
      · exact h.agree sc₁ h₁ sc₂ h₂ hnum
      · exact hsame sc₁ h₁ hnum
      · exact (hsame sc₂ h₂ hnum.symm).symm
      · rfl
  | ok => exact h.of_none hv hold rfl
  | equivocation p => exact h.of_none hv hold rfl
  | invalid => exact h.of_none hv hold rfl
  | stale => exact h.of_none hv hold rfl

/-- Every call keeps the invariant. -/
theorem agreementInv_call {s : Rounds A S} {outs : List (Option (VoteImportResult A S))}
    (h : AgreementInv s outs) (c : Call A S) :
    AgreementInv (s.call c).2 (outs ++ [(s.call c).1]) := by
  cases c with
  | addVote vote => exact agreementInv_addVote h vote
  | conclude roundNum =>
    exact h.of_none (valid_conclude h.valid roundNum) (fun sc hsc => settled_conclude hsc roundNum)
      rfl

/-- **Agreement within a session.**  Over every run of `add_vote` and `conclude` on a
session's rounds, two rounds concluded for one block carry one payload. -/
theorem concluded_payloads_agree (sessionStart : ℕ) (vs : ValidatorSet A)
    (calls : List (Call A S)) :
    ∀ sc₁ ∈ concluded (runFrom call (Rounds.new sessionStart vs) calls).1,
    ∀ sc₂ ∈ concluded (runFrom call (Rounds.new sessionStart vs) calls).1,
      sc₁.commitment.blockNumber = sc₂.commitment.blockNumber →
        sc₁.commitment.payload = sc₂.commitment.payload := by
  have hinit : AgreementInv (Rounds.new sessionStart vs : Rounds A S) [] :=
    ⟨valid_new sessionStart vs, by simp [concluded], by simp [concluded]⟩
  have h := @runFrom_history _ _ _ call AgreementInv (fun s outs c h => agreementInv_call h c)
    _ _ hinit calls
  simpa using h.agree

/-- A single validator's vote concludes its round twice, the round being opened again after
it concluded; the two conclusions agree. -/
theorem concluded_payloads_agree_revote :
    (⟨⟨⟨[]⟩, 1, 0⟩, [some 0]⟩ : SignedCommitment ℕ) ∈
        concluded (runFrom call (Rounds.new 1 ⟨[0], [0], 0⟩ : Rounds ℕ ℕ)
          [.addVote ⟨⟨⟨[]⟩, 1, 0⟩, 0, 0⟩, .addVote ⟨⟨⟨[]⟩, 1, 0⟩, 0, 0⟩]).1 ∧
      (⟨⟨⟨[]⟩, 1, 0⟩, [some 0]⟩ : SignedCommitment ℕ).commitment.payload =
        (⟨⟨⟨[]⟩, 1, 0⟩, [some 0]⟩ : SignedCommitment ℕ).commitment.payload :=
  ⟨by decide, concluded_payloads_agree 1 ⟨[0], [0], 0⟩
    [.addVote ⟨⟨⟨[]⟩, 1, 0⟩, 0, 0⟩, .addVote ⟨⟨⟨[]⟩, 1, 0⟩, 0, 0⟩] _ (by decide) _ (by decide) rfl⟩

end Rounds

end BeefyEtf
