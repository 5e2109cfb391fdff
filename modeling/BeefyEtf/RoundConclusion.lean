/-
Round conclusion is exact: neither late nor premature.

Fix a commitment `C` with no open round, and run calls that vote for any commitment,
repeat votes, let non-members vote and conclude older blocks, but never conclude block
`C.blockNumber`.  Until the round of `C` concludes, it holds exactly the authorities
whose votes for `C` were accepted (`Rounds.Tracks`), and:

* `tracks_call` — one call keeps that, and concludes the round of `C` exactly when the
  accepted voters reach `threshold`;
* `round_concludes_at_threshold` — over a whole run in which `threshold` members vote
  for `C`, a call concluding `C` exists, and the first one is the call that adds the
  `threshold`-th distinct voter.
-/
import BeefyEtf.RoundRuns

namespace BeefyEtf

namespace Rounds

open Run

variable {A S : Type*} [DecidableEq A]

/-! ### Accepted votes of a trace -/

/-- The vote a call made, when `add_vote` accepted it. -/
def acceptedVote : Call A S × Option (VoteImportResult A S) → Option (VoteMessage A S)
  | (.addVote vote, some r) => if r.isAccepted then some vote else none
  | _ => none

/-- The distinct authorities whose votes for `c` a trace accepted. -/
def acceptedVoters (c : Commitment) (tr : List (Call A S × Option (VoteImportResult A S))) :
    Finset A :=
  (((tr.filterMap acceptedVote).filter fun vote => vote.commitment = c).map (·.id)).toFinset

@[simp] theorem acceptedVoters_append (c : Commitment)
    (tr tr' : List (Call A S × Option (VoteImportResult A S))) :
    acceptedVoters c (tr ++ tr') = acceptedVoters c tr ∪ acceptedVoters c tr' := by
  simp [acceptedVoters, List.filterMap_append, List.filter_append, List.toFinset_append]

theorem acceptedVoters_addVote (c : Commitment) (vote : VoteMessage A S)
    (r : VoteImportResult A S) :
    acceptedVoters c [(.addVote vote, some r)] =
      if r.isAccepted ∧ vote.commitment = c then {vote.id} else ∅ := by
  by_cases hr : r.isAccepted <;> by_cases hc : vote.commitment = c <;>
    simp [acceptedVoters, acceptedVote, hr, hc]

@[simp] theorem acceptedVoters_conclude (c : Commitment) (roundNum : ℕ) :
    acceptedVoters c [((.conclude roundNum : Call A S), none)] = ∅ := by
  simp [acceptedVoters, acceptedVote]

theorem card_acceptedVoters_singleton_le (c : Commitment)
    (x : Call A S × Option (VoteImportResult A S)) : (acceptedVoters c [x]).card ≤ 1 := by
  refine (List.toFinset_card_le _).trans ?_
  rw [List.length_map]
  refine (List.length_filter_le _ _).trans ?_
  simp only [List.filterMap_cons, List.filterMap_nil]
  split <;> simp

/-- A prefix of a trace accepts no more voters than a longer one. -/
theorem acceptedVoters_take_mono (c : Commitment) (tr : List (Call A S × Option (VoteImportResult A S)))
    {k k' : ℕ} (h : k ≤ k') : acceptedVoters c (tr.take k) ⊆ acceptedVoters c (tr.take k') := by
  rw [← List.take_append_drop k (tr.take k'), List.take_take, min_eq_left h, acceptedVoters_append]
  exact Finset.subset_union_left

/-- One more call adds at most one accepted voter. -/
theorem card_acceptedVoters_take_succ_le (c : Commitment)
    (tr : List (Call A S × Option (VoteImportResult A S))) (k : ℕ) :
    (acceptedVoters c (tr.take (k + 1))).card ≤ (acceptedVoters c (tr.take k)).card + 1 := by
  rw [List.take_add_one]
  cases tr[k]? with
  | none => simp
  | some x =>
    rw [Option.toList_some, acceptedVoters_append]
    exact (Finset.card_union_le _ _).trans
      (Nat.add_le_add_left (card_acceptedVoters_singleton_le c x) _)

variable [Ord A] [Std.TransOrd A]

/-- The result concludes the round of `c`. -/
def Concludes (c : Commitment) (o : Option (VoteImportResult A S)) : Prop :=
  ∃ sc, o = some (.roundConcluded sc) ∧ sc.commitment = c

omit [Ord A] [Std.TransOrd A] [DecidableEq A] in
theorem not_concludes_none (c : Commitment) :
    ¬ Concludes c (none : Option (VoteImportResult A S)) := by
  rintro ⟨_, h, _⟩
  cases h

omit [Ord A] [Std.TransOrd A] [DecidableEq A] in
theorem not_concludes_ok (c : Commitment) :
    ¬ Concludes c (some (.ok : VoteImportResult A S)) := by
  rintro ⟨_, h, _⟩
  cases h

/-- Call `k` of the run of `calls` from `s` concludes the round of `c`. -/
def ConcludesAt (c : Commitment) (s : Rounds A S) (calls : List (Call A S)) (k : ℕ) : Prop :=
  ∃ sc, (runFrom call s calls).1[k]? = some (some (.roundConcluded sc)) ∧ sc.commitment = c

/-! ### What `add_vote` changes -/

/-- A round `add_vote` concludes is the round of the vote's commitment, and the vote
counted. -/
theorem addVote_fst_eq_roundConcluded {s : Rounds A S} {vote : VoteMessage A S}
    {sc : SignedCommitment S} (h : (s.addVote vote).1 = .roundConcluded sc) :
    s.Counts vote ∧ sc.commitment = vote.commitment := by
  have hc : s.Counts vote := addVote_isAccepted_iff.mp (by rw [h]; rfl)
  rw [addVote_of_counts hc] at h
  obtain ⟨-, -, rfl⟩ := countVote_fst_eq_roundConcluded.mp h
  exact ⟨hc, rfl⟩

/-- `add_vote` leaves the rounds of other commitments alone. -/
theorem addVote_rounds_of_ne {s : Rounds A S} {vote : VoteMessage A S} {c : Commitment}
    (hc : c ≠ vote.commitment) : (s.addVote vote).2.rounds[c]? = s.rounds[c]? := by
  by_cases h : s.Counts vote
  · rw [addVote_of_counts h, countVote_rounds_of_ne hc, recordVote_rounds]
  · rw [addVote_snd_of_not_counts h]

variable [Std.LawfulEqOrd A]

/-- A first vote filed by `add_vote` was there before, or is the counted vote itself. -/
theorem addVote_previousVotes_eq_some {s : Rounds A S} {vote : VoteMessage A S} {k : A × ℕ}
    {u : VoteMessage A S} (h : (s.addVote vote).2.previousVotes[k]? = some u) :
    s.previousVotes[k]? = some u ∨
      s.Counts vote ∧ k = (vote.id, vote.commitment.blockNumber) ∧ u = vote := by
  by_cases hc : s.Counts vote
  swap
  · rw [addVote_snd_of_not_counts hc] at h
    exact .inl h
  rw [addVote_of_counts hc, countVote_previousVotes] at h
  by_cases hk : k = (vote.id, vote.commitment.blockNumber)
  · subst hk
    rw [recordVote_previousVotes_self] at h
    cases hold : s.previousVotes[(vote.id, vote.commitment.blockNumber)]? with
    | none =>
      simp only [hold, Option.getD_none, Option.some.injEq] at h
      exact .inr ⟨hc, rfl, h.symm⟩
    | some w =>
      simp only [hold, Option.getD_some] at h
      exact .inl h
  · rw [recordVote_previousVotes_of_ne hk] at h
    exact .inl h

omit [DecidableEq A] [Std.TransOrd A] [Std.LawfulEqOrd A] in
@[simp] theorem roundOf_recordVote (s : Rounds A S) (vote : VoteMessage A S) (c : Commitment) :
    (s.recordVote vote).roundOf c = s.roundOf c := by
  simp [roundOf]

/-! ### The round of `C` while it is open -/

/-- Until it concludes, the round of `C` in `s` holds exactly the voters `acc`, fewer than
`threshold`, in a state of the validator set `vs` where `C`'s block is live and the first
votes of the authorities `T` for it have `C`'s payload. -/
structure Tracks (C : Commitment) (T : Finset A) (vs : ValidatorSet A) (s : Rounds A S)
    (acc : Finset A) : Prop where
  validatorSet : s.validatorSet = vs
  live : ¬ s.IsStale C.blockNumber
  firstVotes : ∀ a ∈ T, ∀ u : VoteMessage A S, s.previousVotes[(a, C.blockNumber)]? = some u →
    u.commitment.payload = C.payload
  voters : ∀ a, a ∈ (s.roundOf C).votes ↔ a ∈ acc
  below : acc.card < threshold vs.len

variable {C : Commitment} {T : Finset A} {vs : ValidatorSet A} {s : Rounds A S}
  {acc : Finset A} {vote : VoteMessage A S}

/-- The round of `C` has as many votes as accepted voters. -/
theorem Tracks.size (h : Tracks C T vs s acc) : (s.roundOf C).votes.size = acc.card := by
  have hv : (s.roundOf C).voters = acc := Finset.ext fun a => by
    rw [RoundTracker.mem_voters, h.voters]
  rw [← RoundTracker.card_voters, hv]

omit [DecidableEq A] [Std.TransOrd A] [Std.LawfulEqOrd A] in
/-- While the round is open, a vote for `C` by a member in `T` counts. -/
theorem Tracks.counts (h : Tracks C T vs s acc) (hset : C.validatorSetId = vs.id) {a : A}
    (ha : a ∈ T) (hmem : a ∈ vs.validators) (sig : S) :
    s.Counts { commitment := C, id := a, signature := sig } :=
  ⟨h.live, by simp [validatorSetId, h.validatorSet, hset],
    by simpa [validators, h.validatorSet] using hmem, h.firstVotes a ha⟩

omit [DecidableEq A] in
/-- `conclude` of an older block keeps the round of `C`. -/
theorem Tracks.conclude (h : Tracks C T vs s acc) {roundNum : ℕ}
    (hr : roundNum < C.blockNumber) : Tracks C T vs (s.conclude roundNum) acc where
  validatorSet := by rw [conclude_validatorSet, h.validatorSet]
  live := by
    rw [isStale_conclude, not_or]
    exact ⟨h.live, by omega⟩
  firstVotes a ha u hu := by
    rw [conclude_previousVotes_getElem?, if_pos hr] at hu
    exact h.firstVotes a ha u hu
  voters a := by
    simp only [roundOf, conclude_rounds_getElem?, if_pos hr]
    exact h.voters a
  below := h.below

/-- After `add_vote`, the first votes of `T` for `C`'s block still have `C`'s payload, when
the vote has it if it is accepted and by one of `T` for that block. -/
theorem Tracks.firstVotes_addVote (h : Tracks C T vs s acc)
    (hfirst : (s.addVote vote).1.isAccepted = true → vote.id ∈ T →
      vote.commitment.blockNumber = C.blockNumber → vote.commitment.payload = C.payload) :
    ∀ a ∈ T, ∀ u : VoteMessage A S,
      (s.addVote vote).2.previousVotes[(a, C.blockNumber)]? = some u →
        u.commitment.payload = C.payload := by
  intro a ha u hu
  rcases addVote_previousVotes_eq_some hu with hu | ⟨hc, hk, rfl⟩
  · exact h.firstVotes a ha u hu
  · obtain ⟨rfl, hn⟩ := Prod.mk.inj hk
    exact hfirst (addVote_isAccepted_of_counts hc) ha hn.symm

/-- `add_vote` keeps the invariant once the round of `C` it leaves holds `acc'`. -/
theorem Tracks.addVote (h : Tracks C T vs s acc)
    (hfirst : (s.addVote vote).1.isAccepted = true → vote.id ∈ T →
      vote.commitment.blockNumber = C.blockNumber → vote.commitment.payload = C.payload)
    {acc' : Finset A} (hvoters : ∀ a, a ∈ ((s.addVote vote).2.roundOf C).votes ↔ a ∈ acc')
    (hbelow : acc'.card < threshold vs.len) : Tracks C T vs (s.addVote vote).2 acc' where
  validatorSet := by rw [addVote_validatorSet, h.validatorSet]
  live := by
    rw [isStale_addVote]
    exact h.live
  firstVotes := h.firstVotes_addVote hfirst
  voters := hvoters
  below := hbelow

/-- A vote that does not count, or is for another commitment, leaves the round of `C`
open and unchanged. -/
theorem Tracks.addVote_of_not_counted (h : Tracks C T vs s acc)
    (hfirst : (s.addVote vote).1.isAccepted = true → vote.id ∈ T →
      vote.commitment.blockNumber = C.blockNumber → vote.commitment.payload = C.payload)
    (hnot : ¬ (s.Counts vote ∧ vote.commitment = C)) :
    ¬ Concludes C (some (s.addVote vote).1) ∧ Tracks C T vs (s.addVote vote).2 acc := by
  have hround : (s.addVote vote).2.rounds[C]? = s.rounds[C]? := by
    by_cases hC : vote.commitment = C
    · rw [addVote_snd_of_not_counts fun hc => hnot ⟨hc, hC⟩]
    · exact addVote_rounds_of_ne (Ne.symm hC)
  refine ⟨?_, h.addVote hfirst (fun a => ?_) h.below⟩
  · rintro ⟨sc, hsc, rfl⟩
    obtain ⟨hc, hcomm⟩ := addVote_fst_eq_roundConcluded (Option.some.inj hsc)
    exact hnot ⟨hc, hcomm.symm⟩
  · rw [roundOf, hround]
    exact h.voters a

/-- A counted vote for `C` by a voter already in the round changes nothing. -/
theorem Tracks.addVote_of_mem (h : Tracks C T vs s acc)
    (hfirst : (s.addVote vote).1.isAccepted = true → vote.id ∈ T →
      vote.commitment.blockNumber = C.blockNumber → vote.commitment.payload = C.payload)
    (hc : s.Counts vote) (hC : vote.commitment = C) (hm : vote.id ∈ acc) :
    (s.addVote vote).1 = .ok ∧ Tracks C T vs (s.addVote vote).2 acc := by
  subst hC
  have hm' : vote.id ∈ ((s.recordVote vote).roundOf vote.commitment).votes := by
    rw [roundOf_recordVote, h.voters]
    exact hm
  have heq := countVote_of_mem hm'
  rw [← addVote_of_counts hc] at heq
  refine ⟨by rw [heq], h.addVote hfirst (fun a => ?_) h.below⟩
  rw [heq]
  simp only [roundOf, Std.TreeMap.getElem?_insert_self, Option.getD_some, recordVote_rounds]
  exact h.voters a

/-- A counted vote for `C` by a new voter that reaches the threshold concludes `C`. -/
theorem Tracks.addVote_of_reaches (h : Tracks C T vs s acc) (hc : s.Counts vote)
    (hC : vote.commitment = C) (hm : vote.id ∉ acc) (ht : threshold vs.len ≤ acc.card + 1) :
    Concludes C (some (s.addVote vote).1) := by
  subst hC
  have hm' : vote.id ∉ ((s.recordVote vote).roundOf vote.commitment).votes := by
    rw [roundOf_recordVote, h.voters]
    exact hm
  have ht' : threshold (s.recordVote vote).validatorSet.len ≤
      ((s.recordVote vote).roundOf vote.commitment).votes.size + 1 := by
    rw [recordVote_validatorSet, roundOf_recordVote, h.size, h.validatorSet]
    exact ht
  rw [addVote_of_counts hc, countVote_of_concludes hm' ht']
  exact ⟨_, rfl, rfl⟩

/-- A counted vote for `C` by a new voter below the threshold joins the round. -/
theorem Tracks.addVote_of_below (h : Tracks C T vs s acc)
    (hfirst : (s.addVote vote).1.isAccepted = true → vote.id ∈ T →
      vote.commitment.blockNumber = C.blockNumber → vote.commitment.payload = C.payload)
    (hc : s.Counts vote) (hC : vote.commitment = C) (hm : vote.id ∉ acc)
    (ht : acc.card + 1 < threshold vs.len) :
    (s.addVote vote).1 = .ok ∧ Tracks C T vs (s.addVote vote).2 (insert vote.id acc) := by
  subst hC
  have hm' : vote.id ∉ ((s.recordVote vote).roundOf vote.commitment).votes := by
    rw [roundOf_recordVote, h.voters]
    exact hm
  have ht' : ((s.recordVote vote).roundOf vote.commitment).votes.size + 1 <
      threshold (s.recordVote vote).validatorSet.len := by
    rw [recordVote_validatorSet, roundOf_recordVote, h.size, h.validatorSet]
    exact ht
  have heq := countVote_of_below hm' ht'
  rw [← addVote_of_counts hc] at heq
  refine ⟨by rw [heq], h.addVote hfirst (fun a => ?_)
    (by rw [Finset.card_insert_of_notMem hm]; exact ht)⟩
  rw [heq]
  simp only [roundOf, Std.TreeMap.getElem?_insert_self, Option.getD_some]
  rw [mem_withVote, roundOf_recordVote, h.voters, Finset.mem_insert]

/-- **One call.**  While the round of `C` is open, a call concludes it exactly when the
accepted voters for `C` reach `threshold`; otherwise it stays open and holds them. -/
theorem tracks_call (h : Tracks C T vs s acc) (c : Call A S)
    (hc : ∀ r, c = .conclude r → r < C.blockNumber)
    (hfirst : ∀ v, acceptedVote (c, (s.call c).1) = some v → v.id ∈ T →
      v.commitment.blockNumber = C.blockNumber → v.commitment.payload = C.payload) :
    (Concludes C (s.call c).1 ↔
        (acc ∪ acceptedVoters C [(c, (s.call c).1)]).card = threshold vs.len) ∧
      (¬ Concludes C (s.call c).1 →
        Tracks C T vs (s.call c).2 (acc ∪ acceptedVoters C [(c, (s.call c).1)])) := by
  cases c with
  | conclude r =>
    simp only [call, acceptedVoters_conclude, Finset.union_empty]
    exact ⟨⟨fun hcon => absurd hcon (not_concludes_none C),
      fun heq => absurd heq (ne_of_lt h.below)⟩, fun _ => h.conclude (hc r rfl)⟩
  | addVote vote =>
    simp only [call, acceptedVoters_addVote]
    have hfirst' : (s.addVote vote).1.isAccepted = true → vote.id ∈ T →
        vote.commitment.blockNumber = C.blockNumber → vote.commitment.payload = C.payload :=
      fun hacc => hfirst vote (by simp [call, acceptedVote, hacc])
    by_cases hcnt : s.Counts vote ∧ vote.commitment = C
    swap
    · -- not a vote that counts for `C`: nothing is added
      have hacc : ¬ ((s.addVote vote).1.isAccepted = true ∧ vote.commitment = C) :=
        fun hacc => hcnt ⟨addVote_isAccepted_iff.mp hacc.1, hacc.2⟩
      obtain ⟨hnc, ht⟩ := h.addVote_of_not_counted hfirst' hcnt
      rw [if_neg hacc, Finset.union_empty]
      exact ⟨⟨fun hcon => absurd hcon hnc, fun heq => absurd heq (ne_of_lt h.below)⟩,
        fun _ => ht⟩
    obtain ⟨hcnt, hC⟩ := hcnt
    rw [if_pos ⟨addVote_isAccepted_of_counts hcnt, hC⟩, Finset.union_singleton]
    by_cases hm : vote.id ∈ acc
    · -- a repeat voter
      obtain ⟨hok, ht⟩ := h.addVote_of_mem hfirst' hcnt hC hm
      rw [Finset.insert_eq_of_mem hm, hok]
      exact ⟨⟨fun hcon => absurd hcon (not_concludes_ok C),
        fun heq => absurd heq (ne_of_lt h.below)⟩, fun _ => ht⟩
    rw [Finset.card_insert_of_notMem hm]
    by_cases ht : threshold vs.len ≤ acc.card + 1
    · -- the voter that reaches the threshold
      have hcon := h.addVote_of_reaches hcnt hC hm ht
      exact ⟨⟨fun _ => by have := h.below; omega, fun _ => hcon⟩, fun hn => absurd hcon hn⟩
    · -- a new voter below the threshold
      obtain ⟨hok, htr⟩ := h.addVote_of_below hfirst' hcnt hC hm (by omega)
      rw [hok]
      exact ⟨⟨fun hcon => absurd hcon (not_concludes_ok C), fun heq => by omega⟩,
        fun _ => htr⟩

/-! ### A whole run -/

variable {s₀ : Rounds A S} {calls : List (Call A S)}

omit [Std.TransOrd A] [Std.LawfulEqOrd A] in
theorem concludesAt_iff {k : ℕ} (hk : k < calls.length) :
    ConcludesAt C s₀ calls k ↔ Concludes C (call (runFrom call s₀ (calls.take k)).2 calls[k]).1 := by
  rw [ConcludesAt, getElem?_runFrom _ _ _ hk]
  simp [Concludes]

omit [Std.TransOrd A] [Std.LawfulEqOrd A] in
theorem lt_length_of_concludesAt {k : ℕ} (h : ConcludesAt C s₀ calls k) : k < calls.length := by
  obtain ⟨sc, hsc, -⟩ := h
  simpa using (List.getElem?_eq_some_iff.mp hsc).1

omit [Std.TransOrd A] [Std.LawfulEqOrd A] in
theorem acceptedVoters_take_succ {k : ℕ} (hk : k < calls.length) :
    acceptedVoters C ((trace call s₀ calls).take (k + 1)) =
      acceptedVoters C ((trace call s₀ calls).take k) ∪
        acceptedVoters C [(calls[k], (call (runFrom call s₀ (calls.take k)).2 calls[k]).1)] := by
  rw [trace_take, trace_take_succ _ _ _ hk, acceptedVoters_append, ← trace_take]

section Run

variable (hconclude : ∀ r, Call.conclude r ∈ calls → r < C.blockNumber)
  (hfirst : ∀ v ∈ (trace call s₀ calls).filterMap acceptedVote, v.id ∈ T →
    v.commitment.blockNumber = C.blockNumber → v.commitment.payload = C.payload)
include hconclude hfirst

/-- `tracks_call` at call `k` of the run. -/
theorem tracks_call_at {k : ℕ} (hk : k < calls.length) {acc : Finset A}
    (h : Tracks C T vs (runFrom call s₀ (calls.take k)).2 acc) :
    (ConcludesAt C s₀ calls k ↔
        (acc ∪ acceptedVoters C [(calls[k], (call (runFrom call s₀ (calls.take k)).2 calls[k]).1)]).card =
          threshold vs.len) ∧
      (¬ ConcludesAt C s₀ calls k →
        Tracks C T vs (runFrom call s₀ (calls.take (k + 1))).2
          (acc ∪ acceptedVoters C [(calls[k], (call (runFrom call s₀ (calls.take k)).2 calls[k]).1)])) := by
  have hstep := tracks_call h calls[k] (fun r hr => hconclude r (hr ▸ List.getElem_mem hk))
    (fun v hv => hfirst v (List.mem_filterMap.mpr ⟨_, mem_trace s₀ calls k hk, hv⟩))
  rw [concludesAt_iff hk, runFrom_take_succ _ _ _ hk]
  exact hstep

/-- Up to the first call concluding `C`, the round of `C` holds exactly the voters whose
votes for `C` the calls so far accepted. -/
theorem tracks_take (h₀ : Tracks C T vs s₀ ∅) :
    ∀ k ≤ calls.length, (∀ j < k, ¬ ConcludesAt C s₀ calls j) →
      Tracks C T vs (runFrom call s₀ (calls.take k)).2
        (acceptedVoters C ((trace call s₀ calls).take k)) := by
  intro k
  induction k with
  | zero =>
    intro _ _
    simpa [acceptedVoters] using h₀
  | succ k ih =>
    intro hk hbefore
    have hk' : k < calls.length := hk
    have h := ih hk'.le fun j hj => hbefore j (by omega)
    rw [acceptedVoters_take_succ hk']
    exact (tracks_call_at hconclude hfirst hk' h).2 (hbefore k (by omega))

/-- Before the first conclusion, call `k` concludes `C` exactly when it brings the accepted
voters to `threshold`. -/
theorem concludesAt_iff_card (h₀ : Tracks C T vs s₀ ∅) {k : ℕ} (hk : k < calls.length)
    (hbefore : ∀ j < k, ¬ ConcludesAt C s₀ calls j) :
    ConcludesAt C s₀ calls k ↔
      (acceptedVoters C ((trace call s₀ calls).take (k + 1))).card = threshold vs.len := by
  rw [acceptedVoters_take_succ hk]
  exact (tracks_call_at hconclude hfirst hk (tracks_take hconclude hfirst h₀ k hk.le hbefore)).1

/-- The first call concluding `C` adds the `threshold`-th distinct voter. -/
theorem card_of_first (h₀ : Tracks C T vs s₀ ∅) {k : ℕ} (hk : ConcludesAt C s₀ calls k)
    (hbefore : ∀ j < k, ¬ ConcludesAt C s₀ calls j) :
    (acceptedVoters C ((trace call s₀ calls).take k)).card + 1 = threshold vs.len ∧
      (acceptedVoters C ((trace call s₀ calls).take (k + 1))).card = threshold vs.len := by
  have hk' := lt_length_of_concludesAt hk
  have hcard := (concludesAt_iff_card hconclude hfirst h₀ hk' hbefore).mp hk
  have hbelow := (tracks_take hconclude hfirst h₀ k hk'.le hbefore).below
  have hle := card_acceptedVoters_take_succ_le C (trace call s₀ calls) k
  exact ⟨by omega, hcard⟩

end Run

/-- **Round conclusion is exact.**  Start from a state with no round open for `C`, where
`C` is for this set and its block is live, and make calls that never conclude `C`'s block.
If `threshold` members vote for `C`, and none of them has a first vote for the block, or
an accepted vote, with another payload, then a call concludes `C`; and a call is the first
to conclude `C` exactly when it adds the `threshold`-th distinct voter accepted for `C`. -/
theorem round_concludes_at_threshold (s₀ : Rounds A S) (calls : List (Call A S))
    (C : Commitment) (T : Finset A)
    (hnone : s₀.rounds[C]? = none) (hset : C.validatorSetId = s₀.validatorSetId)
    (hlive : ¬ s₀.IsStale C.blockNumber) (hne : s₀.validators ≠ [])
    (hconclude : ∀ r, Call.conclude r ∈ calls → r < C.blockNumber)
    (hT : T ⊆ s₀.validators.toFinset) (hcard : threshold s₀.validatorSet.len ≤ T.card)
    (hvote : ∀ a ∈ T, ∃ sig, Call.addVote ⟨C, a, sig⟩ ∈ calls)
    (hprev : ∀ a ∈ T, ∀ u : VoteMessage A S, s₀.previousVotes[(a, C.blockNumber)]? = some u →
      u.commitment.payload = C.payload)
    (hfirst : ∀ v ∈ (trace call s₀ calls).filterMap acceptedVote, v.id ∈ T →
      v.commitment.blockNumber = C.blockNumber → v.commitment.payload = C.payload) :
    (∃ k, ConcludesAt C s₀ calls k ∧ ∀ j < k, ¬ ConcludesAt C s₀ calls j) ∧
      ∀ k, (ConcludesAt C s₀ calls k ∧ ∀ j < k, ¬ ConcludesAt C s₀ calls j) ↔
        (acceptedVoters C ((trace call s₀ calls).take k)).card + 1 =
            threshold s₀.validatorSet.len ∧
          (acceptedVoters C ((trace call s₀ calls).take (k + 1))).card =
            threshold s₀.validatorSet.len := by
  classical
  have h₀ : Tracks C T s₀.validatorSet s₀ ∅ :=
    { validatorSet := rfl
      live := hlive
      firstVotes := hprev
      voters := fun a => by simp [roundOf, hnone]
      below := by
        rw [Finset.card_empty]
        exact one_le_threshold (List.length_pos_of_ne_nil hne) }
  -- some call concludes `C`: otherwise every member of `T` ends up a voter of its round
  have hex : ∃ k, ConcludesAt C s₀ calls k := by
    by_contra hex
    have hno : ∀ k, ¬ ConcludesAt C s₀ calls k := not_exists.mp hex
    have hsub : T ⊆ acceptedVoters C ((trace call s₀ calls).take calls.length) := by
      intro a ha
      obtain ⟨sig, hmem⟩ := hvote a ha
      obtain ⟨k, hk, hck⟩ := List.getElem_of_mem hmem
      have h := tracks_take hconclude hfirst h₀ k hk.le fun j _ => hno j
      have hcounts := h.counts hset ha (List.mem_toFinset.mp (hT ha)) sig
      have hnew : a ∈ acceptedVoters C ((trace call s₀ calls).take (k + 1)) := by
        rw [acceptedVoters_take_succ hk, hck]
        simp [call, acceptedVoters_addVote, addVote_isAccepted_of_counts hcounts]
      exact acceptedVoters_take_mono C _ hk hnew
    have hend := (tracks_take hconclude hfirst h₀ calls.length le_rfl fun j _ => hno j).below
    have := Finset.card_le_card hsub
    omega
  obtain ⟨k₀, hk₀, hmin⟩ : ∃ k₀, ConcludesAt C s₀ calls k₀ ∧
      ∀ j < k₀, ¬ ConcludesAt C s₀ calls j :=
    ⟨Nat.find hex, Nat.find_spec hex, fun j hj => Nat.find_min hex hj⟩
  refine ⟨⟨k₀, hk₀, hmin⟩, fun k => ⟨fun hk => card_of_first hconclude hfirst h₀ hk.1 hk.2,
    fun hk => ?_⟩⟩
  obtain ⟨hcnt, hcnt'⟩ := hk
  -- the accepted voters reach the threshold once, at the first conclusion
  rcases lt_trichotomy k k₀ with hlt | rfl | hgt
  · have hk : k < calls.length := hlt.trans (lt_length_of_concludesAt hk₀)
    have hcon := (concludesAt_iff_card hconclude hfirst h₀ hk
      fun j hj => hmin j (hj.trans hlt)).mpr hcnt'
    exact absurd hcon (hmin k hlt)
  · exact ⟨hk₀, hmin⟩
  · have hreach := (card_of_first hconclude hfirst h₀ hk₀ hmin).2
    have hmono := Finset.card_le_card
      (acceptedVoters_take_mono C (trace call s₀ calls) (show k₀ + 1 ≤ k by omega))
    omega

/-- Two validators: authority 0 votes twice, a non-member votes, and authority 1's vote is
the one that concludes the round. -/
theorem round_concludes_at_threshold_second_voter :
    ConcludesAt ⟨⟨[]⟩, 1, 0⟩ (Rounds.new 1 ⟨[0, 1], [0, 1], 0⟩ : Rounds ℕ ℕ)
        [.addVote ⟨⟨⟨[]⟩, 1, 0⟩, 0, 0⟩, .addVote ⟨⟨⟨[]⟩, 1, 0⟩, 0, 0⟩,
          .addVote ⟨⟨⟨[]⟩, 1, 0⟩, 5, 0⟩, .addVote ⟨⟨⟨[]⟩, 1, 0⟩, 1, 0⟩] 3 ∧
      ∀ j < 3, ¬ ConcludesAt ⟨⟨[]⟩, 1, 0⟩ (Rounds.new 1 ⟨[0, 1], [0, 1], 0⟩ : Rounds ℕ ℕ)
        [.addVote ⟨⟨⟨[]⟩, 1, 0⟩, 0, 0⟩, .addVote ⟨⟨⟨[]⟩, 1, 0⟩, 0, 0⟩,
          .addVote ⟨⟨⟨[]⟩, 1, 0⟩, 5, 0⟩, .addVote ⟨⟨⟨[]⟩, 1, 0⟩, 1, 0⟩] j := by
  refine ((round_concludes_at_threshold (Rounds.new 1 ⟨[0, 1], [0, 1], 0⟩)
    [.addVote ⟨⟨⟨[]⟩, 1, 0⟩, 0, 0⟩, .addVote ⟨⟨⟨[]⟩, 1, 0⟩, 0, 0⟩,
      .addVote ⟨⟨⟨[]⟩, 1, 0⟩, 5, 0⟩, .addVote ⟨⟨⟨[]⟩, 1, 0⟩, 1, 0⟩]
    ⟨⟨[]⟩, 1, 0⟩ {0, 1} (by decide) rfl (by simp [IsStale, Rounds.new]) (by simp [Rounds.new, validators])
    (fun r hr => by simp at hr) (by decide) (by decide) (fun a ha => ?_)
    (by simp [Rounds.new]) (by decide)).2 3).mpr ⟨by decide, by decide⟩
  simp only [Finset.mem_insert, Finset.mem_singleton] at ha
  rcases ha with rfl | rfl
  · exact ⟨0, by simp⟩
  · exact ⟨0, by simp⟩

end Rounds

end BeefyEtf
