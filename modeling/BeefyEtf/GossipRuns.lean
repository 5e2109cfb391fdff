/-
The gossip validator over runs.

The validator is driven by two parties: the worker, which hands it the filter of its
voter state (`update_filter` with `gossip_filter_config`), and the network's gossip
engine, which calls `validate` on every incoming message and `message_expired`,
`message_allowed` and `peer_disconnected` as it maintains its store.  A run is any
sequence of such calls.

* `justification_kept_once` — while every filter update keeps a round live, the validator
  keeps at most one justification for it, and none once it was proven;
* `kept_messages_triaged` — after the worker hands over the filter of its state, every
  vote the validator keeps is one the worker's triage processes, for the current set id,
  and every justification it keeps one the worker processes or buffers, never drops.
-/
import BeefyEtf.Gossip
import BeefyEtf.Run

namespace BeefyEtf

open Run

/-- A call into the gossip validator: the worker's filter update, and the gossip engine's
callbacks, each closure applied to the messages the engine holds. -/
inductive GossipCall (A P : Type*) where
  | updateFilter (filter : GossipFilterCfg A)
  | validate (sender : P) (data : List UInt8)
  | messageExpired (messages : List (List UInt8))
  | messageAllowed (now : ℕ) (messages : List (MessageIntent × List UInt8))
  | peerDisconnected (who : P)

/-- What a call returns. -/
inductive GossipReply where
  | done
  | validated (result : ValidationResult Topic) (broadcast : List (Topic × List UInt8))
  | verdicts (verdicts : List Bool)

namespace GossipValidator

section Calls

variable {A S P : Type*} (decode : List UInt8 → Except String (GossipMessage A S × List UInt8))

/-- The round of the justification a `validate` call kept, if it kept one. -/
def keptProofRound : GossipCall A P × GossipReply → Option ℕ
  | (.validate _ data, .validated (.processAndKeep _) _) =>
    match decodeAll decode data with
    | .ok (.finalityProof proof, _) => some (proofBlockNumAndSetId proof).1
    | _ => none
  | _ => none

/-- The vote a `validate` call kept, if it kept one. -/
def keptVote : GossipCall A P × GossipReply → Option (VoteMessage A S)
  | (.validate _ data, .validated (.processAndKeep _) _) =>
    match decodeAll decode data with
    | .ok (.vote vote, _) => some vote
    | _ => none
  | _ => none

theorem keptProofRound_eq_some {x : GossipCall A P × GossipReply} {round : ℕ}
    (h : keptProofRound decode x = some round) :
    ∃ sender data topic broadcast proof rest,
      x = (.validate sender data, .validated (.processAndKeep topic) broadcast) ∧
        decodeAll decode data = .ok (.finalityProof proof, rest) ∧
        (proofBlockNumAndSetId proof).1 = round := by
  obtain ⟨c, reply⟩ := x
  cases c with
  | validate sender data =>
    cases reply with
    | validated result broadcast =>
      cases result with
      | processAndKeep topic =>
        simp only [keptProofRound] at h
        split at h
        · rename_i proof rest hd
          exact ⟨sender, data, topic, broadcast, proof, rest, rfl, hd, Option.some.inj h⟩
        · cases h
      | discard => cases h
    | done | verdicts _ => cases h
  | updateFilter _ | messageExpired _ | messageAllowed _ _ | peerDisconnected _ => cases h

theorem keptVote_eq_some {x : GossipCall A P × GossipReply} {vote : VoteMessage A S}
    (h : keptVote decode x = some vote) :
    ∃ sender data topic broadcast rest,
      x = (.validate sender data, .validated (.processAndKeep topic) broadcast) ∧
        decodeAll decode data = .ok (.vote vote, rest) := by
  obtain ⟨c, reply⟩ := x
  cases c with
  | validate sender data =>
    cases reply with
    | validated result broadcast =>
      cases result with
      | processAndKeep topic =>
        simp only [keptVote] at h
        split at h
        · rename_i vote' rest hd
          cases h
          exact ⟨sender, data, topic, broadcast, rest, rfl, hd⟩
        · cases h
      | discard => cases h
    | done | verdicts _ => cases h
  | updateFilter _ | messageExpired _ | messageAllowed _ _ | peerDisconnected _ => cases h

end Calls

variable {A S P : Type*} [DecidableEq A] [DecidableEq P]
  (verify : A → S → Commitment → Bool)
  (verifyWithValidatorSet : ℕ → ValidatorSet A → VersionedFinalityProof S →
    Except (ConsensusError × ℕ) Unit)
  (decode : List UInt8 → Except String (GossipMessage A S × List UInt8))

/-- One call into the validator. -/
def call (g : GossipValidator A P) : GossipCall A P → GossipReply × GossipValidator A P
  | .updateFilter filter => (.done, g.updateFilter filter)
  | .validate sender data =>
    let r := g.validate verify verifyWithValidatorSet decode sender data
    (.validated r.2.1 r.2.2, r.1)
  | .messageExpired messages => (.verdicts (messages.map (g.messageExpired decode)), g)
  | .messageAllowed now messages =>
    let r := g.messageAllowed decode now
    (.verdicts (messages.map fun m => r.2 m.1 m.2), r.1)
  | .peerDisconnected who => (.done, g.peerDisconnected who)

/-- What a call does to the filter: the worker's update replaces its interval, `validate`
may mark a round as proven, and nothing else touches it. -/
theorem call_gossipFilter (g : GossipValidator A P) (c : GossipCall A P) :
    (∃ filter, c = .updateFilter filter ∧
      (g.call verify verifyWithValidatorSet decode c).2.gossipFilter =
        g.gossipFilter.update filter) ∨
    (∃ sender data, c = .validate sender data ∧
      (g.call verify verifyWithValidatorSet decode c).2 =
        (g.validate verify verifyWithValidatorSet decode sender data).1) ∨
    (g.call verify verifyWithValidatorSet decode c).2.gossipFilter = g.gossipFilter := by
  cases c with
  | updateFilter filter => exact .inl ⟨filter, rfl, rfl⟩
  | validate sender data => exact .inr (.inl ⟨sender, data, rfl, rfl⟩)
  | messageExpired messages => exact .inr (.inr rfl)
  | messageAllowed now messages =>
    exact .inr (.inr (messageAllowed_gossipFilter decode g now))
  | peerDisconnected who => exact .inr (.inr rfl)

/-- Only `validate` keeps a message, and what it keeps is what the call returns. -/
theorem call_of_keptProofRound {g : GossipValidator A P} {c : GossipCall A P} {round : ℕ}
    (h : keptProofRound decode (c, (g.call verify verifyWithValidatorSet decode c).1) =
      some round) :
    ∃ sender data topic proof rest, c = .validate sender data ∧
      (g.validate verify verifyWithValidatorSet decode sender data).2.1 =
        .processAndKeep topic ∧
      decodeAll decode data = .ok (.finalityProof proof, rest) ∧
      (proofBlockNumAndSetId proof).1 = round := by
  obtain ⟨sender, data, topic, broadcast, proof, rest, hx, hd, hround⟩ :=
    keptProofRound_eq_some decode h
  rw [Prod.mk.injEq] at hx
  obtain ⟨rfl, hreply⟩ := hx
  simp only [call, GossipReply.validated.injEq] at hreply
  exact ⟨sender, data, topic, proof, rest, rfl, hreply.1, hd, hround⟩

theorem call_of_keptVote {g : GossipValidator A P} {c : GossipCall A P}
    {vote : VoteMessage A S}
    (h : keptVote decode (c, (g.call verify verifyWithValidatorSet decode c).1) = some vote) :
    ∃ sender data topic rest, c = .validate sender data ∧
      (g.validate verify verifyWithValidatorSet decode sender data).2.1 =
        .processAndKeep topic ∧
      decodeAll decode data = .ok (.vote vote, rest) := by
  obtain ⟨sender, data, topic, broadcast, rest, hx, hd⟩ := keptVote_eq_some decode h
  rw [Prod.mk.injEq] at hx
  obtain ⟨rfl, hreply⟩ := hx
  simp only [call, GossipReply.validated.injEq] at hreply
  exact ⟨sender, data, topic, rest, rfl, hreply.1, hd⟩

/-! ### The proven rounds -/

/-! ### Each justification once -/

/-- How many more justifications for `round` the filter lets through: one until the
round is proven. -/
def proofAllowance (round : ℕ) (g : GossipValidator A P) : ℕ :=
  if round ∈ g.gossipFilter.roundsWithValidProofs then 0 else 1

omit [DecidableEq A] [DecidableEq P] in
/-- The allowance does not grow while the round stays proven. -/
theorem proofAllowance_le {round : ℕ} {g g' : GossipValidator A P}
    (h : round ∈ g.gossipFilter.roundsWithValidProofs →
      round ∈ g'.gossipFilter.roundsWithValidProofs) :
    proofAllowance round g' ≤ proofAllowance round g := by
  unfold proofAllowance
  by_cases hg : round ∈ g.gossipFilter.roundsWithValidProofs
  · rw [if_pos hg, if_pos (h hg)]
  · rw [if_neg hg]
    split <;> omega

/-- `validate` never drops a proven round. -/
theorem validate_roundsWithValidProofs (g : GossipValidator A P) (sender : P)
    (data : List UInt8) :
    g.gossipFilter.roundsWithValidProofs ⊆
      (g.validate verify verifyWithValidatorSet decode sender data).1.gossipFilter.roundsWithValidProofs := by
  rcases validate_gossipFilter_cases verify verifyWithValidatorSet decode g sender data with
    hfilter | ⟨proof, rest, -, -, hfilter⟩
  · rw [hfilter]
  · rw [hfilter, Filter.markRoundAsProven_roundsWithValidProofs]
    exact Finset.subset_insert _ _

/-- **One step of the allowance.**  A call that keeps a justification for `round` uses
up the allowance; any other call, when it is not an update that drops the round, does
not raise it. -/
theorem call_proofAllowance (round : ℕ) (g : GossipValidator A P) (c : GossipCall A P)
    (hlive : ∀ filter, c = .updateFilter filter → filter.start ≤ round ∧ round ≤ filter.end_) :
    (if keptProofRound decode (c, (g.call verify verifyWithValidatorSet decode c).1) = some round
        then 1 else 0) +
      proofAllowance round (g.call verify verifyWithValidatorSet decode c).2 ≤
      proofAllowance round g := by
  by_cases hkept : keptProofRound decode (c, (g.call verify verifyWithValidatorSet decode c).1) =
      some round
  · -- the kept justification was for an unproven round, which is proven after
    obtain ⟨sender, data, topic, proof, rest, rfl, hkeep, hd, rfl⟩ :=
      call_of_keptProofRound verify verifyWithValidatorSet decode hkept
    obtain ⟨-, hnew, hfilter⟩ := validate_keeps_unproven verify verifyWithValidatorSet decode g
      sender data hd hkeep
    have hafter : (proofBlockNumAndSetId proof).1 ∈
        (g.call verify verifyWithValidatorSet decode (.validate sender data)).2.gossipFilter.roundsWithValidProofs := by
      show (proofBlockNumAndSetId proof).1 ∈
        (g.validate verify verifyWithValidatorSet decode sender data).1.gossipFilter.roundsWithValidProofs
      rw [hfilter, Filter.markRoundAsProven_roundsWithValidProofs]
      exact Finset.mem_insert_self _ _
    rw [if_pos hkept]
    unfold proofAllowance
    rw [if_neg hnew, if_pos hafter]
  · rw [if_neg hkept, Nat.zero_add]
    apply proofAllowance_le
    intro hround
    rcases call_gossipFilter verify verifyWithValidatorSet decode g c with
      ⟨filter, rfl, hfilter⟩ | ⟨sender, data, -, hg⟩ | hfilter
    · -- the update keeps the round, which it finds live
      rw [hfilter, Filter.update_roundsWithValidProofs, Finset.mem_filter]
      exact ⟨hround, hlive filter rfl⟩
    · rw [hg]
      exact validate_roundsWithValidProofs verify verifyWithValidatorSet decode g sender data hround
    · rw [hfilter]
      exact hround

/-- **Each justification once.**  In any run in which every filter update keeps `round`
live, the validator keeps at most one justification for `round`, and none if the round
was proven when the run started. -/
theorem justification_kept_once (g : GossipValidator A P) (calls : List (GossipCall A P))
    (round : ℕ)
    (hlive : ∀ filter, GossipCall.updateFilter filter ∈ calls →
      filter.start ≤ round ∧ round ≤ filter.end_) :
    (trace (call verify verifyWithValidatorSet decode) g calls).countP
        (fun x => keptProofRound decode x = some round) ≤
      if round ∈ g.gossipFilter.roundsWithValidProofs then 0 else 1 := by
  -- the justifications kept so far and the allowance left never exceed the first allowance
  have hrun := @trace_history_mem _ _ _ (call verify verifyWithValidatorSet decode)
    (fun s h => h.countP (fun x => keptProofRound decode x = some round) +
      proofAllowance round s ≤ proofAllowance round g) calls
    (fun s h c hc hs => by
      have hstep := call_proofAllowance verify verifyWithValidatorSet decode round s c
        (fun filter hf => hlive filter (hf ▸ hc))
      rw [List.countP_append, List.countP_singleton]
      simp only [decide_eq_true_eq]
      omega)
    g [] (by simp)
  rw [List.nil_append] at hrun
  exact Nat.le_of_add_right_le hrun

/-- A justification for round `5` sent twice, the filter moved on between the two with the
round still live. -/
theorem justification_kept_once_resent :
    let decode : List UInt8 → Except String (GossipMessage ℕ ℕ × List UInt8) := fun _ =>
      .ok (.finalityProof (.v1 ⟨⟨⟨[]⟩, 5, 0⟩, [some 0]⟩), [])
    let calls : List (GossipCall ℕ ℕ) :=
      [.updateFilter ⟨1, 9, ⟨[0], [0], 0⟩⟩, .validate 1 [0], .updateFilter ⟨2, 9, ⟨[0], [0], 0⟩⟩,
        .validate 2 [0]]
    (∀ filter, GossipCall.updateFilter filter ∈ calls → filter.start ≤ 5 ∧ 5 ≤ filter.end_) ∧
      (trace (call (fun _ _ _ => true) (fun _ _ _ => .ok ()) decode)
          (new KnownPeers.new 0 : GossipValidator ℕ ℕ) calls).countP
          (fun x => keptProofRound decode x = some 5) ≤
        if 5 ∈ (new KnownPeers.new 0 : GossipValidator ℕ ℕ).gossipFilter.roundsWithValidProofs
        then 0 else 1 := by
  intro decode calls
  have hlive : ∀ filter, GossipCall.updateFilter filter ∈ calls →
      filter.start ≤ 5 ∧ 5 ≤ filter.end_ := by
    intro filter hf
    simp only [calls, List.mem_cons, GossipCall.updateFilter.injEq, reduceCtorEq,
      List.not_mem_nil, or_false, false_or] at hf
    rcases hf with rfl | rfl <;> decide
  exact ⟨hlive, justification_kept_once _ _ decode _ calls 5 hlive⟩

/-- `validate` leaves the filter's interval and set as they are. -/
theorem validate_inner (g : GossipValidator A P) (sender : P) (data : List UInt8) :
    (g.validate verify verifyWithValidatorSet decode sender data).1.gossipFilter.inner =
      g.gossipFilter.inner := by
  rcases validate_gossipFilter_cases verify verifyWithValidatorSet decode g sender data with
    hfilter | ⟨proof, rest, -, -, hfilter⟩
  · rw [hfilter]
  · rw [hfilter, Filter.markRoundAsProven_inner]

end GossipValidator

/-! ### Agreement with the worker -/

namespace PersistedState

variable {A S : Type*} [Ord A]

/-- The filter the worker hands over holds its accepted interval and its current set. -/
theorem gossipFilterConfig_eq_ok {p : PersistedState A S} {filter : GossipFilterCfg A}
    (h : p.gossipFilterConfig = .ok filter) :
    p.votingOracle.acceptedInterval = .ok (filter.start, filter.end_) ∧
      p.votingOracle.currentValidatorSet = .ok filter.validatorSet := by
  unfold gossipFilterConfig at h
  split at h
  · cases h
  · cases h
  · rename_i start end_ validatorSet hinterval hset
    cases h
    exact ⟨hinterval, hset⟩

end PersistedState

namespace VoterOracle

variable {A S : Type*} [Ord A]

/-- From the start of the accepted interval on, a round is processed inside it and
enqueued above it. -/
theorem triageRound_of_acceptedInterval {o : VoterOracle A S} {start end_ round : ℕ}
    (h : o.acceptedInterval = .ok (start, end_)) (hstart : start ≤ round) :
    o.triageRound round = .ok (if round ≤ end_ then .process else .enqueue) := by
  unfold triageRound
  rw [h]
  dsimp only
  by_cases hend : round ≤ end_
  · rw [if_pos ⟨hstart, hend⟩, if_pos hend]
  · rw [if_neg (fun h' => hend h'.2), if_pos (by omega), if_neg hend]

end VoterOracle

namespace GossipValidator

variable {A S P : Type*} [DecidableEq A] [DecidableEq P]
  (verify : A → S → Commitment → Bool)
  (verifyWithValidatorSet : ℕ → ValidatorSet A → VersionedFinalityProof S →
    Except (ConsensusError × ℕ) Unit)
  (decode : List UInt8 → Except String (GossipMessage A S × List UInt8))

/-- The validator filters with the interval and the set id of `filter`. -/
def HasFilter (filter : GossipFilterCfg A) (g : GossipValidator A P) : Prop :=
  ∃ validatorSet, g.gossipFilter.inner = some ⟨filter.start, filter.end_, validatorSet⟩ ∧
    validatorSet.id = filter.validatorSet.id

omit [DecidableEq A] [DecidableEq P] in
theorem hasFilter_updateFilter (filter : GossipFilterCfg A) (g : GossipValidator A P) :
    HasFilter filter (g.updateFilter filter) := by
  obtain ⟨validatorSet, hinner, hid, -⟩ := g.gossipFilter.update_inner filter
  exact ⟨validatorSet, hinner, hid⟩

/-- Every call but an update to another filter keeps the filter. -/
theorem HasFilter.call {filter : GossipFilterCfg A} {g : GossipValidator A P}
    (h : HasFilter filter g) (c : GossipCall A P)
    (hc : ∀ filter', c = .updateFilter filter' → filter' = filter) :
    HasFilter filter (g.call verify verifyWithValidatorSet decode c).2 := by
  rcases call_gossipFilter verify verifyWithValidatorSet decode g c with
    ⟨filter', rfl, -⟩ | ⟨sender, data, -, hg⟩ | hfilter
  · obtain rfl := hc filter' rfl
    exact hasFilter_updateFilter filter' g
  · unfold HasFilter
    rw [hg, validate_inner]
    exact h
  · unfold HasFilter
    rw [hfilter]
    exact h

variable [Ord A]

/-- What the worker's triage makes of a message kept at a call: a vote is processed, and
is for the current set id; a justification is processed or buffered, never dropped. -/
def Triaged (o : VoterOracle A S) (x : GossipCall A P × GossipReply) : Prop :=
  (∀ vote, keptVote decode x = some vote →
    o.triageRound vote.commitment.blockNumber = .ok .process ∧
      ∃ validatorSet, o.currentValidatorSet = .ok validatorSet ∧
        vote.commitment.validatorSetId = validatorSet.id) ∧
  (∀ round, keptProofRound decode x = some round → o.triageRound round ≠ .ok .drop)

/-- **One call against the worker's filter.**  Under the filter of the worker's state,
what a call keeps the worker's triage takes. -/
theorem triaged_call {p : PersistedState A S} {filter : GossipFilterCfg A}
    (hp : p.gossipFilterConfig = .ok filter) {g : GossipValidator A P} (h : HasFilter filter g)
    (c : GossipCall A P) :
    Triaged decode p.votingOracle (c, (g.call verify verifyWithValidatorSet decode c).1) := by
  obtain ⟨hinterval, hset⟩ := PersistedState.gossipFilterConfig_eq_ok hp
  obtain ⟨validatorSet, hfilter, hid⟩ := h
  constructor
  · -- a kept vote is live: inside the interval, for the filter's set id
    intro vote hv
    obtain ⟨sender, data, topic, rest, rfl, hkeep, hd⟩ :=
      call_of_keptVote verify verifyWithValidatorSet decode hv
    obtain ⟨inner, hinner, hvid, hstart, hend, -⟩ :=
      validate_keeps_live_vote verify verifyWithValidatorSet decode g sender data hd hkeep
    rw [hfilter, Option.some.injEq] at hinner
    subst hinner
    refine ⟨?_, filter.validatorSet, hset, hvid.trans hid⟩
    rw [VoterOracle.triageRound_of_acceptedInterval hinterval hstart, if_pos hend]
  · -- a kept justification was accepted: from the interval's start on
    intro round hr
    obtain ⟨sender, data, topic, proof, rest, rfl, hkeep, hd, rfl⟩ :=
      call_of_keptProofRound verify verifyWithValidatorSet decode hr
    obtain ⟨hacc, -, -⟩ :=
      validate_keeps_unproven verify verifyWithValidatorSet decode g sender data hd hkeep
    obtain ⟨inner, hinner, -, hstart⟩ := Filter.considerFinalityProof_eq_accept_iff.mp hacc
    rw [hfilter, Option.some.injEq] at hinner
    subst hinner
    rw [VoterOracle.triageRound_of_acceptedInterval hinterval hstart]
    split <;> simp

/-- **The gossip validator and the worker agree.**  After the worker hands the validator
the filter of its state, and until it hands over another, every vote the validator keeps
is one the worker's triage processes, for the worker's current set id, and every
justification it keeps is one the worker processes or buffers. -/
theorem kept_messages_triaged (p : PersistedState A S) (filter : GossipFilterCfg A)
    (hfilter : p.gossipFilterConfig = .ok filter) (g : GossipValidator A P)
    (calls : List (GossipCall A P))
    (hcalls : ∀ filter', GossipCall.updateFilter filter' ∈ calls → filter' = filter) :
    ∀ x ∈ trace (call verify verifyWithValidatorSet decode) (g.updateFilter filter) calls,
      Triaged decode p.votingOracle x := by
  -- the filter stays the worker's, and every call so far was triaged
  have hrun := @trace_history_mem _ _ _ (call verify verifyWithValidatorSet decode)
    (fun s h => HasFilter filter s ∧ ∀ x ∈ h, Triaged decode p.votingOracle x) calls
    (fun s h c hc hs => by
      refine ⟨hs.1.call verify verifyWithValidatorSet decode c
        (fun filter' hf => hcalls filter' (hf ▸ hc)), fun x hx => ?_⟩
      rcases List.mem_append.mp hx with hx | hx
      · exact hs.2 x hx
      · rw [List.mem_singleton.mp hx]
        exact triaged_call verify verifyWithValidatorSet decode hfilter hs.1 c)
    (g.updateFilter filter) [] ⟨hasFilter_updateFilter filter g, fun x hx => by cases hx⟩
  rw [List.nil_append] at hrun
  exact hrun.2

/-- The worker's state with its first session queued and its mandatory block pending: the
filter is that block alone, and a message from a peer is triaged with it. -/
theorem kept_messages_triaged_mandatory :
    let p : PersistedState ℕ ℕ := ⟨0, ⟨[Rounds.new 1 ⟨[0], [0], 0⟩], 1, 1, 0⟩, 1⟩
    let filter : GossipFilterCfg ℕ := ⟨1, 1, ⟨[0], [0], 0⟩⟩
    let decode : List UInt8 → Except String (GossipMessage ℕ ℕ × List UInt8) := fun _ =>
      .ok (.vote ⟨⟨⟨[]⟩, 1, 0⟩, 0, 0⟩, [])
    let calls : List (GossipCall ℕ ℕ) := [.validate 1 [0], .messageExpired [[0]]]
    p.gossipFilterConfig = .ok filter ∧
      (∀ filter', GossipCall.updateFilter filter' ∈ calls → filter' = filter) ∧
      ∀ x ∈ trace (call (fun _ _ _ => true) (fun _ _ _ => .ok ()) decode)
          ((new KnownPeers.new 0 : GossipValidator ℕ ℕ).updateFilter filter) calls,
        Triaged decode p.votingOracle x := by
  intro p filter decode calls
  have hfilter : p.gossipFilterConfig = .ok filter := rfl
  have hcalls : ∀ filter', GossipCall.updateFilter filter' ∈ calls → filter' = filter := by
    intro filter' hf
    simp [calls] at hf
  exact ⟨hfilter, hcalls, kept_messages_triaged _ _ decode p filter hfilter _ calls hcalls⟩

end GossipValidator

end BeefyEtf
