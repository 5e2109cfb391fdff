/-
Accountable safety: what two nodes' conclusions of one session reveal.

Each node runs its own `Rounds` value of a session over the votes it receives, in any
order.  A round concludes once `threshold(n)` distinct members of the set have votes for
its commitment accepted, and `threshold(n) = n - ⌊(n - 1) / 3⌋`, so the voters of two
concluded rounds overlap in more than `⌊(n - 1) / 3⌋` members, even when the rounds are
concluded by two nodes that saw different votes.

* `acceptedVotes_member` — every vote a run accepts is a member's, for the session's set;
* `threshold_le_card_acceptedVoters` — a run that concludes a round accepted votes for its
  commitment from at least `threshold(n)` distinct members;
* `conclusions_agree_or_expose_equivocators` — two nodes' runs that conclude one block
  with different payloads accepted votes for both from more than `⌊(n - 1) / 3⌋`
  validators, and each such pair of votes is an equivocation proof the on-chain checker
  accepts exactly when both signatures verify.
-/
import BeefyEtf.Justification
import BeefyEtf.RoundConclusion
import BeefyEtf.Quorum

namespace BeefyEtf

namespace Rounds

open Run

variable {A S : Type*} [DecidableEq A]

/-- The votes a run of calls from `s` accepted, in call order. -/
def acceptedVotes [Ord A] (s : Rounds A S) (calls : List (Call A S)) : List (VoteMessage A S) :=
  (trace call s calls).filterMap acceptedVote

theorem mem_acceptedVoters {c : Commitment} {tr : List (Call A S × Option (VoteImportResult A S))}
    {a : A} : a ∈ acceptedVoters c tr ↔ ∃ v ∈ tr.filterMap acceptedVote, v.commitment = c ∧ v.id = a := by
  simp only [acceptedVoters, List.mem_toFinset, List.mem_map, List.mem_filter, decide_eq_true_eq,
    and_assoc]

variable [Ord A] [Std.TransOrd A] [Std.LawfulEqOrd A]

/-! ### What one run accepts -/

omit [Std.LawfulEqOrd A] in
/-- Every vote a run accepts is a member's, for the session's set: `add_vote` accepts only
votes that count. -/
theorem acceptedVotes_member (s : Rounds A S) (calls : List (Call A S)) :
    ∀ v ∈ acceptedVotes s calls,
      v.id ∈ s.validators ∧ v.commitment.validatorSetId = s.validatorSetId := by
  -- the history invariant: the set stays, and the votes accepted so far are members'
  have h := @trace_history_mem _ _ _ call
    (fun s' tr => s'.validatorSet = s.validatorSet ∧ ∀ v ∈ tr.filterMap acceptedVote,
      v.id ∈ s.validators ∧ v.commitment.validatorSetId = s.validatorSetId)
    calls (fun s' tr c _ hinv => ?_) s [] ⟨rfl, by simp⟩
  · simpa [acceptedVotes] using h.2
  obtain ⟨hset, hvotes⟩ := hinv
  cases c with
  | conclude r =>
    refine ⟨hset, fun v hv => hvotes v ?_⟩
    simpa [call, acceptedVote] using hv
  | addVote vote =>
    refine ⟨by simpa [call] using hset, fun v hv => ?_⟩
    rw [List.filterMap_append, List.mem_append] at hv
    rcases hv with hv | hv
    · exact hvotes v hv
    -- the call's own vote: accepted only if it counts in this state of the set
    by_cases haccepted : (s'.addVote vote).1.isAccepted = true
    · simp only [call, List.filterMap_cons, acceptedVote, haccepted, if_true, List.filterMap_nil,
        List.mem_singleton] at hv
      subst hv
      obtain ⟨-, hsetId, hmem, -⟩ := addVote_isAccepted_iff.mp haccepted
      exact ⟨by simpa [validators, hset] using hmem, by simpa [validatorSetId, hset] using hsetId⟩
    · simp [call, acceptedVote, haccepted] at hv

omit [Std.LawfulEqOrd A] in
/-- The authorities whose votes for `c` a run accepted are members of the set. -/
theorem acceptedVoters_subset (s : Rounds A S) (calls : List (Call A S)) (c : Commitment) :
    acceptedVoters c (trace call s calls) ⊆ s.validators.toFinset := by
  intro a ha
  obtain ⟨v, hv, -, rfl⟩ := mem_acceptedVoters.mp ha
  exact List.mem_toFinset.mpr (acceptedVotes_member s calls v hv).1

/-- Along a run from a new session, a signature in an open round is that of a vote the run
accepts. -/
theorem valid_acceptedVotes_take (sessionStart : ℕ) (vs : ValidatorSet A) (calls : List (Call A S)) :
    ∀ k ≤ calls.length, Valid (· ∈ acceptedVotes (Rounds.new sessionStart vs) calls)
      (runFrom call (Rounds.new sessionStart vs) (calls.take k)).2 := by
  refine runFrom_take_invariant (valid_new sessionStart vs) calls fun k hk hv => ?_
  have hmem : (calls[k], (call (runFrom call (Rounds.new sessionStart vs)
      (calls.take k)).2 calls[k]).1) ∈ trace call (Rounds.new sessionStart vs) calls :=
    mem_trace (Rounds.new sessionStart vs) calls k hk
  generalize calls[k] = c at hmem ⊢
  cases c with
  | addVote vote =>
    refine valid_addVote hv fun hcnt => List.mem_filterMap.mpr ⟨_, hmem, ?_⟩
    simp [call, acceptedVote, addVote_isAccepted_of_counts hcnt]
  | conclude r => exact valid_conclude hv r

/-- The voters of a round that `add_vote` concludes in a valid state: at least `threshold`
distinct authorities, each with a good vote for the round's commitment. -/
theorem voters_of_addVote_eq_roundConcluded {good : VoteMessage A S → Prop} {s : Rounds A S}
    (hv : Valid good s) {vote : VoteMessage A S} {sc : SignedCommitment S}
    (h : (s.addVote vote).1 = .roundConcluded sc) (hgood : good vote) :
    ∃ T : Finset A, threshold s.validatorSet.len ≤ T.card ∧
      ∀ a ∈ T, ∃ sig, good { commitment := sc.commitment, id := a, signature := sig } := by
  have hc : s.Counts vote := addVote_isAccepted_iff.mp (by rw [h]; rfl)
  rw [addVote_of_counts hc] at h
  obtain ⟨hnew, ht, rfl⟩ := countVote_fst_eq_roundConcluded.mp h
  refine ⟨((s.recordVote vote).withVote vote).voters, ?_, fun a ha => ?_⟩
  · rw [RoundTracker.card_voters, size_withVote hnew]
    simpa using ht
  rw [RoundTracker.mem_voters] at ha
  obtain ⟨sig, hsig⟩ := Option.isSome_iff_exists.mp (Std.TreeMap.isSome_getElem?_iff_mem.mpr ha)
  refine ⟨sig, ?_⟩
  rw [getElem?_withVote] at hsig
  split at hsig
  · -- the concluding vote itself
    rename_i hid
    cases hsig
    subst hid
    exact hgood
  · -- a voter already in the round
    obtain ⟨rt, hr, hsig'⟩ := exists_of_getElem?_roundOf hsig
    rw [recordVote_rounds] at hr
    exact (hv.entry _ rt a sig hr hsig').1

/-- **A concluded round has a quorum of accepted votes.**  A run from a new session that
concludes a round accepted votes for its commitment from at least `threshold(n)` distinct
authorities, the concluding vote's among them. -/
theorem threshold_le_card_acceptedVoters (sessionStart : ℕ) (vs : ValidatorSet A)
    (calls : List (Call A S)) {sc : SignedCommitment S}
    (h : sc ∈ concluded (runFrom call (Rounds.new sessionStart vs) calls).1) :
    threshold vs.len ≤
        (acceptedVoters sc.commitment (trace call (Rounds.new sessionStart vs) calls)).card ∧
      (acceptedVoters sc.commitment (trace call (Rounds.new sessionStart vs) calls)).Nonempty := by
  obtain ⟨k, hk, vote, hck, hres⟩ := exists_of_mem_concluded h
  -- the concluding vote is one the run accepts
  have hgood : vote ∈ acceptedVotes (Rounds.new sessionStart vs) calls := by
    refine List.mem_filterMap.mpr ⟨_, mem_trace (Rounds.new sessionStart vs) calls k hk, ?_⟩
    simp [hck, call, acceptedVote, hres, VoteImportResult.isAccepted]
  have hcommit : sc.commitment = vote.commitment := (addVote_fst_eq_roundConcluded hres).2
  obtain ⟨T, hT, hvoters⟩ :=
    voters_of_addVote_eq_roundConcluded (valid_acceptedVotes_take sessionStart vs calls k hk.le)
      hres hgood
  have hsub : T ⊆ acceptedVoters sc.commitment (trace call (Rounds.new sessionStart vs) calls) := by
    intro a ha
    obtain ⟨sig, hsig⟩ := hvoters a ha
    exact mem_acceptedVoters.mpr ⟨_, hsig, rfl, rfl⟩
  have hvs : (runFrom call (Rounds.new sessionStart vs) (calls.take k)).2.validatorSet = vs := by
    rw [validatorSet_runFrom]
    rfl
  rw [hvs] at hT
  exact ⟨hT.trans (Finset.card_le_card hsub),
    ⟨vote.id, mem_acceptedVoters.mpr ⟨vote, hgood, hcommit.symm, rfl⟩⟩⟩

/-! ### Two nodes -/

/-- **Accountable safety.**  Let two nodes run the rounds of one session of the set `vs`,
each over any votes in any order, and each conclude a round for one block.  Either the two
commitments have one payload, or the nodes between them accepted votes for both from more
than `⌊(n - 1) / 3⌋` validators of the set, `n` its length; and each such validator's two
votes are an equivocation proof that `check_equivocation_proof` accepts exactly when both
signatures verify. -/
theorem conclusions_agree_or_expose_equivocators (sessionStart₁ sessionStart₂ : ℕ)
    (vs : ValidatorSet A) (calls₁ calls₂ : List (Call A S)) {sc₁ sc₂ : SignedCommitment S}
    (h₁ : sc₁ ∈ concluded (runFrom call (Rounds.new sessionStart₁ vs) calls₁).1)
    (h₂ : sc₂ ∈ concluded (runFrom call (Rounds.new sessionStart₂ vs) calls₂).1)
    (hnum : sc₁.commitment.blockNumber = sc₂.commitment.blockNumber) :
    sc₁.commitment.payload = sc₂.commitment.payload ∨
      (vs.len - 1) / 3 <
        (acceptedVoters sc₁.commitment (trace call (Rounds.new sessionStart₁ vs) calls₁) ∩
          acceptedVoters sc₂.commitment (trace call (Rounds.new sessionStart₂ vs) calls₂)).card ∧
      ∀ a ∈ acceptedVoters sc₁.commitment (trace call (Rounds.new sessionStart₁ vs) calls₁) ∩
          acceptedVoters sc₂.commitment (trace call (Rounds.new sessionStart₂ vs) calls₂),
        ∃ v₁ ∈ acceptedVotes (Rounds.new sessionStart₁ vs) calls₁,
        ∃ v₂ ∈ acceptedVotes (Rounds.new sessionStart₂ vs) calls₂,
          v₁.id = a ∧ v₂.id = a ∧ v₁.commitment = sc₁.commitment ∧
          v₂.commitment = sc₂.commitment ∧
          ∀ verify : A → S → Commitment → Bool,
            checkEquivocationProof verify ⟨v₁, v₂⟩ =
              (verify a v₁.signature v₁.commitment && verify a v₂.signature v₂.commitment) := by
  by_cases hpayload : sc₁.commitment.payload = sc₂.commitment.payload
  · exact .inl hpayload
  right
  obtain ⟨ht₁, ⟨a₁, ha₁⟩⟩ := threshold_le_card_acceptedVoters sessionStart₁ vs calls₁ h₁
  obtain ⟨ht₂, -⟩ := threshold_le_card_acceptedVoters sessionStart₂ vs calls₂ h₂
  have hsub₁ : acceptedVoters sc₁.commitment (trace call (Rounds.new sessionStart₁ vs) calls₁) ⊆
      vs.validators.toFinset :=
    acceptedVoters_subset (Rounds.new sessionStart₁ vs) calls₁ sc₁.commitment
  have hsub₂ : acceptedVoters sc₂.commitment (trace call (Rounds.new sessionStart₂ vs) calls₂) ⊆
      vs.validators.toFinset :=
    acceptedVoters_subset (Rounds.new sessionStart₂ vs) calls₂ sc₂.commitment
  have hmembers : vs.validators.toFinset.card ≤ vs.len := List.toFinset_card_le _
  -- the set is not empty: it holds the concluding voter of the first round
  have hpos : 0 < vs.len :=
    lt_of_lt_of_le (Finset.card_pos.mpr ⟨a₁, hsub₁ ha₁⟩) hmembers
  refine ⟨Quorum.lt_card_inter hsub₁ hsub₂ ?_, fun a ha => ?_⟩
  · -- `n + f < 2 (n - f)` for `f = ⌊(n - 1) / 3⌋`
    unfold threshold at ht₁ ht₂
    omega
  obtain ⟨ha₁', ha₂'⟩ := Finset.mem_inter.mp ha
  obtain ⟨v₁, hv₁, hc₁, rfl⟩ := mem_acceptedVoters.mp ha₁'
  obtain ⟨v₂, hv₂, hc₂, hid⟩ := mem_acceptedVoters.mp ha₂'
  -- both votes are for the session's set
  have hset₁ := (acceptedVotes_member _ calls₁ v₁ hv₁).2
  have hset₂ := (acceptedVotes_member _ calls₂ v₂ hv₂).2
  refine ⟨v₁, hv₁, v₂, hv₂, rfl, hid, hc₁, hc₂, fun verify => ?_⟩
  have hcheck : checkEquivocationProof verify ⟨v₁, v₂⟩ = _ :=
    checkEquivocationProof_eq_verify verify hid.symm (by rw [hc₁, hc₂, hnum])
      (by rw [hset₁, hset₂]; rfl) (by rw [hc₁, hc₂]; exact hpayload)
  rw [hcheck, hid]

/-- Four validators, so a round needs `3` votes and `⌊(4 - 1) / 3⌋ = 1`: one node accepts
the votes of `0`, `1` and `2` for the empty payload at block `1`, another those of `1`, `2`
and `3` for another payload.  Validators `1` and `2` signed both. -/
theorem conclusions_agree_or_expose_equivocators_split_vote :
    let vs : ValidatorSet ℕ := ⟨[0, 1, 2, 3], [0, 1, 2, 3], 0⟩
    let c₁ : Commitment := ⟨⟨[]⟩, 1, 0⟩
    let c₂ : Commitment := ⟨⟨[(#v[0, 0], [])]⟩, 1, 0⟩
    let calls₁ : List (Call ℕ ℕ) := [.addVote ⟨c₁, 0, 0⟩, .addVote ⟨c₁, 1, 1⟩, .addVote ⟨c₁, 2, 2⟩]
    let calls₂ : List (Call ℕ ℕ) := [.addVote ⟨c₂, 1, 1⟩, .addVote ⟨c₂, 2, 2⟩, .addVote ⟨c₂, 3, 3⟩]
    (⟨c₁, [some 0, some 1, some 2, none]⟩ : SignedCommitment ℕ) ∈
        concluded (runFrom call (Rounds.new 1 vs) calls₁).1 ∧
      (⟨c₂, [none, some 1, some 2, some 3]⟩ : SignedCommitment ℕ) ∈
        concluded (runFrom call (Rounds.new 1 vs) calls₂).1 ∧
      c₁.payload ≠ c₂.payload ∧
      1 < (acceptedVoters c₁ (trace call (Rounds.new 1 vs) calls₁) ∩
        acceptedVoters c₂ (trace call (Rounds.new 1 vs) calls₂)).card := by
  intro vs c₁ c₂ calls₁ calls₂
  have h₁ : (⟨c₁, [some 0, some 1, some 2, none]⟩ : SignedCommitment ℕ) ∈
      concluded (runFrom call (Rounds.new 1 vs) calls₁).1 := by decide
  have h₂ : (⟨c₂, [none, some 1, some 2, some 3]⟩ : SignedCommitment ℕ) ∈
      concluded (runFrom call (Rounds.new 1 vs) calls₂).1 := by decide +kernel
  have hpayload : c₁.payload ≠ c₂.payload := by decide
  rcases conclusions_agree_or_expose_equivocators 1 1 vs calls₁ calls₂ h₁ h₂ rfl with
    hsame | ⟨hcard, -⟩
  · exact absurd hsame hpayload
  · have hf : (vs.len - 1) / 3 = 1 := by decide
    rw [hf] at hcard
    exact ⟨h₁, h₂, hpayload, hcard⟩

end Rounds

end BeefyEtf
