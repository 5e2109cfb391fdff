/-
The gossip validator (`client/consensus/beefy-etf/src/communication/gossip.rs`, with the
peer book of `communication/peers.rs`).

Every vote and justification gossiped on the network passes `GossipValidator::validate`.
Its filter holds the rounds the worker accepts (`start ..= end`, from
`gossip_filter_config`) and the validator set of the current set id: a vote is kept only
inside that interval, from a member, with a valid signature; a justification only from
`start` on, for the current set id, once per round while that round stays live, and when
it verifies against the set.  `message_expired` and `message_allowed` read the same
filter.

* `validateVote_eq_keep_iff`, `validateFinalityProof_eq_keep_iff` — what a kept message
  satisfies, and that it is enough;
* `validate_keeps_live_vote`, `validate_keeps_unproven` — what `validate` keeps, read off
  the filter it had.
-/
import BeefyEtf.Worker
import BeefyEtf.Justification

namespace BeefyEtf

/-- `ReputationChange`: a change of a peer's reputation and its reason. -/
structure ReputationChange where
  value : ℤ
  reason : String
  deriving DecidableEq, Repr

/-- `i32::saturating_mul`. -/
def i32SaturatingMul (a b : ℤ) : ℤ := max (-2 ^ 31) (min (a * b) (2 ^ 31 - 1))

namespace Cost

/-- `cost::OUTDATED_MESSAGE`. -/
def outdatedMessage : ReputationChange := ⟨-50, "BEEFY: Past message"⟩
/-- `cost::FUTURE_MESSAGE`. -/
def futureMessage : ReputationChange := ⟨-100, "BEEFY: Future message"⟩
/-- `cost::BAD_SIGNATURE`. -/
def badSignature : ReputationChange := ⟨-100, "BEEFY: Bad signature"⟩
/-- `cost::UNKNOWN_VOTER`. -/
def unknownVoter : ReputationChange := ⟨-150, "BEEFY: Unknown voter"⟩
/-- `cost::INVALID_PROOF`. -/
def invalidProof : ReputationChange := ⟨-5000, "BEEFY: Invalid commit"⟩
/-- `cost::PER_SIGNATURE_CHECKED`. -/
def perSignatureChecked : ℤ := -25
/-- `cost::PER_UNDECODABLE_BYTE`. -/
def perUndecodableByte : ℤ := -5
/-- `cost::REFUSAL_RESPONSE`, of the on-demand engine. -/
def refusalResponse : ReputationChange := ⟨-100, "BEEFY: Proof request refused"⟩

/-- `cost::INVALID_PROOF` raised by `PER_SIGNATURE_CHECKED` for each signature checked, as
both the gossip validator and the on-demand engine charge an invalid justification. -/
def invalidProofChecked (signaturesChecked : ℕ) : ReputationChange :=
  { invalidProof with
    value := invalidProof.value + i32SaturatingMul perSignatureChecked signaturesChecked }

end Cost

namespace Benefit

/-- `benefit::VOTE_MESSAGE`. -/
def voteMessage : ReputationChange := ⟨100, "BEEFY: Round vote message"⟩
/-- `benefit::NOT_INTERESTED`. -/
def notInterested : ReputationChange := ⟨10, "BEEFY: Not interested in round"⟩
/-- `benefit::VALIDATED_PROOF`. -/
def validatedProof : ReputationChange := ⟨100, "BEEFY: Justification"⟩

end Benefit

/-- The two gossip topics, `votes_topic` and `proofs_topic`: hashes of two fixed strings. -/
inductive Topic where
  | votes
  | justifications
  deriving DecidableEq, Repr

/-- `Action`: what to do with a gossiped message. -/
inductive Action (H : Type*) where
  /-- Repropagate under the topic, applying the change to the sender. -/
  | keep (topic : H) (costBenefit : ReputationChange)
  /-- Discard, applying the change to the sender. -/
  | discard (costBenefit : ReputationChange)
  /-- Discard with no change to the sender. -/
  | discardNoReport
  deriving DecidableEq, Repr

/-- `matches!(action, Action::Keep(_, _))`. -/
def Action.isKeep {H : Type*} : Action H → Bool
  | .keep _ _ => true
  | _ => false

/-- `Consider`: the outcome of examining a message against the filter. -/
inductive Consider where
  | accept
  | rejectPast
  | rejectFuture
  | cannotEvaluate
  deriving DecidableEq, Repr

/-- `GossipMessage`. -/
inductive GossipMessage (A S : Type*) where
  | vote (vote : VoteMessage A S)
  | finalityProof (proof : VersionedFinalityProof S)

/-- `ValidationResult` of the gossip engine, as `validate` returns it. -/
inductive ValidationResult (H : Type*) where
  | processAndKeep (topic : H)
  | discard
  deriving DecidableEq, Repr

/-- `MessageIntent` of the gossip engine. -/
inductive MessageIntent where
  | broadcast
  | forcedBroadcast
  | periodicRebroadcast
  deriving DecidableEq, Repr

/-- `proof_block_num_and_set_id`. -/
def proofBlockNumAndSetId {S : Type*} : VersionedFinalityProof S → ℕ × ℕ
  | .v1 sc => (sc.commitment.blockNumber, sc.commitment.validatorSetId)

/-- `DecodeAll::decode_all` over `decode`: the message, with the input left after it,
which must be empty. -/
def decodeAll {M : Type*} (decode : List UInt8 → Except String (M × List UInt8))
    (data : List UInt8) : Except String (M × List UInt8) :=
  match decode data with
  | .ok (msg, []) => .ok (msg, [])
  | .ok (_, _ :: _) => .error "Input buffer has still data left after decoding!"
  | .error e => .error e

/-- `FilterInner`: the live rounds and the validator set of the current set id. -/
structure FilterInner (A : Type*) where
  start : ℕ
  end_ : ℕ
  validatorSet : ValidatorSet A

/-- `Filter`: the live rounds, and the rounds whose justification was already seen. -/
structure Filter (A : Type*) where
  inner : Option (FilterInner A)
  roundsWithValidProofs : Finset ℕ

namespace Filter

variable {A : Type*}

/-- `Filter::new`. -/
def new : Filter A := ⟨none, ∅⟩

/-- `Filter::update`: keep the proven rounds inside the new interval; the validator set is
replaced only when the set id changes. -/
def update (f : Filter A) (cfg : GossipFilterCfg A) : Filter A :=
  let roundsWithValidProofs :=
    f.roundsWithValidProofs.filter fun round => round ≥ cfg.start ∧ round ≤ cfg.end_
  match f.inner with
  | some inner =>
    if inner.validatorSet.id = cfg.validatorSet.id then
      ⟨some { inner with start := cfg.start, end_ := cfg.end_ }, roundsWithValidProofs⟩
    else ⟨some ⟨cfg.start, cfg.end_, cfg.validatorSet⟩, roundsWithValidProofs⟩
  | none => ⟨some ⟨cfg.start, cfg.end_, cfg.validatorSet⟩, roundsWithValidProofs⟩

/-- `Filter::consider_vote`: only the current set and only `start ..= end`. -/
def considerVote (f : Filter A) (round setId : ℕ) : Consider :=
  match f.inner with
  | some f =>
    if setId < f.validatorSet.id ∨ round < f.start then .rejectPast
    else if setId > f.validatorSet.id ∨ round > f.end_ then .rejectFuture
    else .accept
  | none => .cannotEvaluate

/-- `Filter::consider_finality_proof`: only the current set and only from `start` on. -/
def considerFinalityProof (f : Filter A) (round setId : ℕ) : Consider :=
  match f.inner with
  | some f =>
    if round < f.start ∨ setId < f.validatorSet.id then .rejectPast
    else if setId > f.validatorSet.id then .rejectFuture
    else .accept
  | none => .cannotEvaluate

/-- `Filter::mark_round_as_proven`. -/
def markRoundAsProven (f : Filter A) (round : ℕ) : Filter A :=
  { f with roundsWithValidProofs := insert round f.roundsWithValidProofs }

/-- `Filter::is_already_proven`. -/
def isAlreadyProven (f : Filter A) (round : ℕ) : Bool := decide (round ∈ f.roundsWithValidProofs)

/-- `Filter::validator_set`. -/
def validatorSet (f : Filter A) : Option (ValidatorSet A) := f.inner.map FilterInner.validatorSet

end Filter

/-- `KnownPeers`: the connected peers with the last round each voted on, one entry per
peer. -/
structure KnownPeers (P : Type*) where
  live : List (P × ℕ)
  nodup : (live.map Prod.fst).Nodup

namespace KnownPeers

variable {P : Type*} [DecidableEq P]

/-- `KnownPeers::new`. -/
def new : KnownPeers P := ⟨[], List.nodup_nil⟩

/-- Raising one peer's entry keeps the peers as they are. -/
theorem map_fst_raise (live : List (P × ℕ)) (peer : P) (round : ℕ) :
    (live.map fun e => if e.1 = peer then (e.1, max round e.2) else e).map Prod.fst =
      live.map Prod.fst := by
  rw [List.map_map]
  congr 1
  funext e
  dsimp only [Function.comp]
  split <;> rfl

/-- `KnownPeers::note_vote_for`: the peer's last round becomes at least `round`; an unknown
peer enters with its default `0`. -/
def noteVoteFor (k : KnownPeers P) (peer : P) (round : ℕ) : KnownPeers P :=
  if h : peer ∈ k.live.map Prod.fst then
    ⟨k.live.map fun e => if e.1 = peer then (e.1, max round e.2) else e,
      (map_fst_raise k.live peer round).symm ▸ k.nodup⟩
  else
    ⟨k.live ++ [(peer, max round 0)], by
      rw [List.map_append, List.nodup_append]
      refine ⟨k.nodup, List.nodup_singleton _, fun a ha b hb hab => h ?_⟩
      rw [List.map_singleton, List.mem_singleton] at hb
      rw [hab, hb] at ha
      exact ha⟩

/-- `KnownPeers::remove`. -/
def remove (k : KnownPeers P) (peer : P) : KnownPeers P :=
  ⟨k.live.filter fun e => e.1 ≠ peer,
    k.nodup.sublist ((List.filter_sublist).map Prod.fst)⟩

/-- `KnownPeers::further_than`: the peers that voted above `block`. -/
def furtherThan (k : KnownPeers P) (block : ℕ) : List P :=
  k.live.filterMap fun e => if e.2 > block then some e.1 else none

/-- `KnownPeers::contains`. -/
def contains (k : KnownPeers P) (peer : P) : Bool := decide (peer ∈ k.live.map Prod.fst)

end KnownPeers

/-- `PeerReport`: a reputation change for a peer, sent on the report channel. -/
structure PeerReport (P : Type*) where
  who : P
  costBenefit : ReputationChange

/-- `REBROADCAST_AFTER`, in seconds. -/
def rebroadcastAfter : ℕ := 60

/-- `GossipValidator`: its filter, the peer book it shares with the on-demand engine, the
reports it sent, and the time of the next periodic rebroadcast, in seconds. -/
structure GossipValidator (A P : Type*) where
  gossipFilter : Filter A
  knownPeers : KnownPeers P
  reports : List (PeerReport P)
  nextRebroadcast : ℕ

namespace GossipValidator

variable {A S P : Type*} [DecidableEq A] [DecidableEq P]

/-- `GossipValidator::new` at time `now`. -/
def new (knownPeers : KnownPeers P) (now : ℕ) : GossipValidator A P :=
  ⟨Filter.new, knownPeers, [], now + rebroadcastAfter⟩

/-- `GossipValidator::update_filter`. -/
def updateFilter (g : GossipValidator A P) (filter : GossipFilterCfg A) : GossipValidator A P :=
  { g with gossipFilter := g.gossipFilter.update filter }

/-- `GossipValidator::report`. -/
def report (g : GossipValidator A P) (who : P) (costBenefit : ReputationChange) :
    GossipValidator A P :=
  { g with reports := g.reports ++ [⟨who, costBenefit⟩] }

/-- `GossipValidator::validate_vote`, with the key store's signature check `verify`. -/
def validateVote (verify : A → S → Commitment → Bool) (g : GossipValidator A P)
    (vote : VoteMessage A S) (sender : P) : GossipValidator A P × Action Topic :=
  let round := vote.commitment.blockNumber
  let setId := vote.commitment.validatorSetId
  let g := { g with knownPeers := g.knownPeers.noteVoteFor sender round }
  match g.gossipFilter.considerVote round setId with
  | .rejectPast => (g, .discard Cost.outdatedMessage)
  | .rejectFuture => (g, .discard Cost.futureMessage)
  -- our filter is not initialized yet: no report on the sender
  | .cannotEvaluate => (g, .discardNoReport)
  | .accept =>
    if !((g.gossipFilter.validatorSet.map fun set => decide (vote.id ∈ set.validators)).getD
        false) then
      (g, .discard Cost.unknownVoter)
    else if verify vote.id vote.signature vote.commitment then (g, .keep .votes Benefit.voteMessage)
    else (g, .discard Cost.badSignature)

/-- The check of `validate_finality_proof` once the round is live and not yet proven: the
justification against the filter's validator set, with the cost growing with the
signatures checked; no report when the filter has no set. -/
def verifyProofAction
    (verifyWithValidatorSet : ℕ → ValidatorSet A → VersionedFinalityProof S →
      Except (ConsensusError × ℕ) Unit)
    (filter : Filter A) (round : ℕ) (proof : VersionedFinalityProof S) : Action Topic :=
  match filter.validatorSet with
  | some validatorSet =>
    match verifyWithValidatorSet round validatorSet proof with
    | .error (_, signaturesChecked) => .discard (Cost.invalidProofChecked signaturesChecked)
    | .ok () => .keep .justifications Benefit.validatedProof
  | none => .discardNoReport

/-- `GossipValidator::validate_finality_proof`, with the build's
`verify_with_validator_set` as `verifyWithValidatorSet`. -/
def validateFinalityProof
    (verifyWithValidatorSet : ℕ → ValidatorSet A → VersionedFinalityProof S →
      Except (ConsensusError × ℕ) Unit)
    (g : GossipValidator A P) (proof : VersionedFinalityProof S) (sender : P) :
    GossipValidator A P × Action Topic :=
  let (round, setId) := proofBlockNumAndSetId proof
  let g := { g with knownPeers := g.knownPeers.noteVoteFor sender round }
  match g.gossipFilter.considerFinalityProof round setId with
  | .rejectPast => (g, .discard Cost.outdatedMessage)
  | .rejectFuture => (g, .discard Cost.futureMessage)
  | .cannotEvaluate => (g, .discardNoReport)
  | .accept =>
    if g.gossipFilter.isAlreadyProven round then (g, .discard Benefit.notInterested)
    else
      let action := verifyProofAction verifyWithValidatorSet g.gossipFilter round proof
      if action.isKeep then ({ g with gossipFilter := g.gossipFilter.markRoundAsProven round }, action)
      else (g, action)

/-- The action `Validator::validate` computes for `data`, with the validator after it and
the input `decode_all` left.  A message that does not decode costs the sender in
proportion to its length. -/
def validateAction (verify : A → S → Commitment → Bool)
    (verifyWithValidatorSet : ℕ → ValidatorSet A → VersionedFinalityProof S →
      Except (ConsensusError × ℕ) Unit)
    (decode : List UInt8 → Except String (GossipMessage A S × List UInt8))
    (g : GossipValidator A P) (sender : P) (data : List UInt8) :
    GossipValidator A P × Action Topic × List UInt8 :=
  let raw := data
  match decodeAll decode data with
  | .ok (.vote msg, data) =>
    ((g.validateVote verify msg sender).1, (g.validateVote verify msg sender).2, data)
  | .ok (.finalityProof proof, data) =>
    ((g.validateFinalityProof verifyWithValidatorSet proof sender).1,
      (g.validateFinalityProof verifyWithValidatorSet proof sender).2, data)
  | .error _ =>
    let bytes : ℤ := min raw.length (2 ^ 31 - 1)
    (g, .discard ⟨i32SaturatingMul bytes Cost.perUndecodableByte, "BEEFY: Bad packet"⟩, data)

/-- `Validator::validate`: report the sender and broadcast what is kept.  Returns the
validator, the result and the messages broadcast, each with its topic. -/
def validate (verify : A → S → Commitment → Bool)
    (verifyWithValidatorSet : ℕ → ValidatorSet A → VersionedFinalityProof S →
      Except (ConsensusError × ℕ) Unit)
    (decode : List UInt8 → Except String (GossipMessage A S × List UInt8))
    (g : GossipValidator A P) (sender : P) (data : List UInt8) :
    GossipValidator A P × ValidationResult Topic × List (Topic × List UInt8) :=
  let (g, action, data) := g.validateAction verify verifyWithValidatorSet decode sender data
  match action with
  -- `data` is what `decode_all` left of the input
  | .keep topic cb => (g.report sender cb, .processAndKeep topic, [(topic, data)])
  | .discard cb => (g.report sender cb, .discard, [])
  | .discardNoReport => (g, .discard, [])

/-- `Validator::message_expired`. -/
def messageExpired (decode : List UInt8 → Except String (GossipMessage A S × List UInt8))
    (g : GossipValidator A P) (data : List UInt8) : Bool :=
  match decodeAll decode data with
  | .ok (.vote msg, _) =>
    g.gossipFilter.considerVote msg.commitment.blockNumber msg.commitment.validatorSetId ≠ .accept
  | .ok (.finalityProof proof, _) =>
    let (round, setId) := proofBlockNumAndSetId proof
    g.gossipFilter.considerFinalityProof round setId ≠ .accept
  | .error _ => true

/-- `Validator::message_allowed` at time `now`: the periodic rebroadcast is due once
`REBROADCAST_AFTER` has passed, and the next is then set; other messages are allowed while
the filter accepts them. -/
def messageAllowed (decode : List UInt8 → Except String (GossipMessage A S × List UInt8))
    (g : GossipValidator A P) (now : ℕ) :
    GossipValidator A P × (MessageIntent → List UInt8 → Bool) :=
  let doRebroadcast := decide (now ≥ g.nextRebroadcast)
  let g := if doRebroadcast then { g with nextRebroadcast := now + rebroadcastAfter } else g
  (g, fun intent data =>
    if intent = .periodicRebroadcast then doRebroadcast
    else
      match decodeAll decode data with
      | .ok (.vote msg, _) =>
        g.gossipFilter.considerVote msg.commitment.blockNumber msg.commitment.validatorSetId =
          .accept
      | .ok (.finalityProof proof, _) =>
        let (round, setId) := proofBlockNumAndSetId proof
        g.gossipFilter.considerFinalityProof round setId = .accept
      | .error _ => false)

/-- `Validator::peer_disconnected`. -/
def peerDisconnected (g : GossipValidator A P) (who : P) : GossipValidator A P :=
  { g with knownPeers := g.knownPeers.remove who }

end GossipValidator

/-! ### What the filter accepts -/

namespace Filter

variable {A : Type*}

/-- A vote is accepted exactly inside the live rounds, for the current set id. -/
theorem considerVote_eq_accept_iff {f : Filter A} {round setId : ℕ} :
    f.considerVote round setId = .accept ↔ ∃ inner, f.inner = some inner ∧
      setId = inner.validatorSet.id ∧ inner.start ≤ round ∧ round ≤ inner.end_ := by
  unfold considerVote
  cases f.inner with
  | none => simp
  | some inner =>
    simp only [Option.some.injEq, exists_eq_left']
    split_ifs with hpast hfuture
    · simp only [false_iff]
      omega
    · simp only [false_iff]
      omega
    · simp only [true_iff]
      omega

/-- A justification is accepted exactly from the filter's start on, for the current set
id. -/
theorem considerFinalityProof_eq_accept_iff {f : Filter A} {round setId : ℕ} :
    f.considerFinalityProof round setId = .accept ↔ ∃ inner, f.inner = some inner ∧
      setId = inner.validatorSet.id ∧ inner.start ≤ round := by
  unfold considerFinalityProof
  cases f.inner with
  | none => simp
  | some inner =>
    simp only [Option.some.injEq, exists_eq_left']
    split_ifs with hpast hfuture
    · simp only [false_iff]
      omega
    · simp only [false_iff]
      omega
    · simp only [true_iff]
      omega

/-- After `update`, the filter has the configuration's rounds and set id; its validator set
is the configuration's, or the one it had for that set id. -/
theorem update_inner (f : Filter A) (cfg : GossipFilterCfg A) :
    ∃ validatorSet, (f.update cfg).inner = some ⟨cfg.start, cfg.end_, validatorSet⟩ ∧
      validatorSet.id = cfg.validatorSet.id ∧
      (validatorSet = cfg.validatorSet ∨ f.validatorSet = some validatorSet) := by
  unfold update
  cases hinner : f.inner with
  | none => exact ⟨_, rfl, rfl, .inl rfl⟩
  | some inner =>
    dsimp only
    split
    · rename_i hid
      exact ⟨inner.validatorSet, rfl, hid, .inr (by simp [validatorSet, hinner])⟩
    · exact ⟨_, rfl, rfl, .inl rfl⟩

/-- `update` keeps the proven rounds inside the new interval. -/
@[simp] theorem update_roundsWithValidProofs (f : Filter A) (cfg : GossipFilterCfg A) :
    (f.update cfg).roundsWithValidProofs =
      f.roundsWithValidProofs.filter fun round => round ≥ cfg.start ∧ round ≤ cfg.end_ := by
  unfold update
  cases f.inner with
  | none => rfl
  | some inner =>
    dsimp only
    split <;> rfl

@[simp] theorem markRoundAsProven_inner (f : Filter A) (round : ℕ) :
    (f.markRoundAsProven round).inner = f.inner := rfl

@[simp] theorem markRoundAsProven_roundsWithValidProofs (f : Filter A) (round : ℕ) :
    (f.markRoundAsProven round).roundsWithValidProofs = insert round f.roundsWithValidProofs :=
  rfl

/-- A vote the filter lets through to the signature check: live, for the current set id,
from a member of the set. -/
def LiveVote {S : Type*} (f : Filter A) (vote : VoteMessage A S) : Prop :=
  ∃ inner, f.inner = some inner ∧ vote.commitment.validatorSetId = inner.validatorSet.id ∧
    inner.start ≤ vote.commitment.blockNumber ∧ vote.commitment.blockNumber ≤ inner.end_ ∧
    vote.id ∈ inner.validatorSet.validators

end Filter

/-! ### What the validator keeps -/

namespace GossipValidator

variable {A S P : Type*} [DecidableEq A] [DecidableEq P]

@[simp] theorem validateVote_gossipFilter (verify : A → S → Commitment → Bool)
    (g : GossipValidator A P) (vote : VoteMessage A S) (sender : P) :
    (g.validateVote verify vote sender).1.gossipFilter = g.gossipFilter := by
  unfold validateVote
  dsimp only
  split
  · rfl
  · rfl
  · rfl
  · split
    · rfl
    · split <;> rfl

/-- **Gossiped votes.**  A vote is kept exactly when the filter lets it through and its
signature verifies; it is then relayed on the votes topic, with the vote benefit. -/
theorem validateVote_eq_keep_iff {verify : A → S → Commitment → Bool}
    {g : GossipValidator A P} {vote : VoteMessage A S} {sender : P} {topic : Topic}
    {cb : ReputationChange} :
    (g.validateVote verify vote sender).2 = .keep topic cb ↔
      g.gossipFilter.LiveVote vote ∧ verify vote.id vote.signature vote.commitment = true ∧
        topic = .votes ∧ cb = Benefit.voteMessage := by
  unfold validateVote
  dsimp only
  cases hc : g.gossipFilter.considerVote vote.commitment.blockNumber
      vote.commitment.validatorSetId with
  | accept =>
    obtain ⟨inner, hinner, hid, hstart, hend⟩ := Filter.considerVote_eq_accept_iff.mp hc
    have hset : g.gossipFilter.validatorSet = some inner.validatorSet := by
      simp [Filter.validatorSet, hinner]
    simp only [hset, Option.map_some, Option.getD_some]
    by_cases hmem : vote.id ∈ inner.validatorSet.validators
    · have hlive : g.gossipFilter.LiveVote vote := ⟨inner, hinner, hid, hstart, hend, hmem⟩
      cases hv : verify vote.id vote.signature vote.commitment <;>
        simp [hmem, hlive, eq_comm]
    · -- not a member: the live check fails on the membership alone
      have hlive : ¬ g.gossipFilter.LiveVote vote := by
        rintro ⟨inner', hinner', -, -, -, hmem'⟩
        rw [hinner, Option.some.injEq] at hinner'
        exact hmem (hinner' ▸ hmem')
      simp [hmem, hlive]
  | rejectPast | rejectFuture | cannotEvaluate =>
    -- the filter rejects it, so it is not live
    have hlive : ¬ g.gossipFilter.LiveVote vote := by
      rintro ⟨inner, hinner, hid, hstart, hend, -⟩
      have := Filter.considerVote_eq_accept_iff.mpr ⟨inner, hinner, hid, hstart, hend⟩
      rw [hc] at this
      cases this
    simp [hlive]

omit [DecidableEq A] in
/-- The check against the validator set keeps exactly a justification that verifies. -/
theorem verifyProofAction_eq_keep_iff
    {verifyWithValidatorSet : ℕ → ValidatorSet A → VersionedFinalityProof S →
      Except (ConsensusError × ℕ) Unit}
    {filter : Filter A} {round : ℕ} {proof : VersionedFinalityProof S} {topic : Topic}
    {cb : ReputationChange} :
    verifyProofAction verifyWithValidatorSet filter round proof = .keep topic cb ↔
      (∃ validatorSet, filter.validatorSet = some validatorSet ∧
        verifyWithValidatorSet round validatorSet proof = .ok ()) ∧
      topic = .justifications ∧ cb = Benefit.validatedProof := by
  unfold verifyProofAction
  cases filter.validatorSet with
  | none => simp
  | some validatorSet =>
    rcases h : verifyWithValidatorSet round validatorSet proof with _ | _ <;> simp [h, eq_comm]

omit [DecidableEq A] in
/-- **Gossiped justifications.**  A justification is kept exactly when the filter accepts
its round and set id, its round was not proven yet, and it verifies against the filter's
validator set; it is then relayed on the justifications topic, with the proof benefit. -/
theorem validateFinalityProof_eq_keep_iff
    {verifyWithValidatorSet : ℕ → ValidatorSet A → VersionedFinalityProof S →
      Except (ConsensusError × ℕ) Unit}
    {g : GossipValidator A P} {proof : VersionedFinalityProof S} {sender : P} {topic : Topic}
    {cb : ReputationChange} :
    (g.validateFinalityProof verifyWithValidatorSet proof sender).2 = .keep topic cb ↔
      (∃ inner, g.gossipFilter.inner = some inner ∧
        (proofBlockNumAndSetId proof).2 = inner.validatorSet.id ∧
        inner.start ≤ (proofBlockNumAndSetId proof).1 ∧
        verifyWithValidatorSet (proofBlockNumAndSetId proof).1 inner.validatorSet proof = .ok ()) ∧
      (proofBlockNumAndSetId proof).1 ∉ g.gossipFilter.roundsWithValidProofs ∧
      topic = .justifications ∧ cb = Benefit.validatedProof := by
  obtain ⟨sc⟩ := proof
  unfold validateFinalityProof
  dsimp only [proofBlockNumAndSetId]
  cases hc : g.gossipFilter.considerFinalityProof sc.commitment.blockNumber
      sc.commitment.validatorSetId with
  | accept =>
    obtain ⟨inner, hinner, hid, hstart⟩ := Filter.considerFinalityProof_eq_accept_iff.mp hc
    have hset : g.gossipFilter.validatorSet = some inner.validatorSet := by
      simp [Filter.validatorSet, hinner]
    by_cases hproven : sc.commitment.blockNumber ∈ g.gossipFilter.roundsWithValidProofs
    · simp [Filter.isAlreadyProven, hproven]
    · simp only [Filter.isAlreadyProven, hproven, decide_false, Bool.false_eq_true, if_false,
        hinner, Option.some.injEq, exists_eq_left', hid, hstart, true_and, not_false_eq_true]
      -- both branches return the check's action, and only the check against the set is left
      rw [apply_ite Prod.snd, ite_self, verifyProofAction_eq_keep_iff]
      simp [hset]
  | rejectPast | rejectFuture | cannotEvaluate =>
    -- the filter rejects it
    simp only [reduceCtorEq, false_iff, not_and]
    rintro ⟨inner, hinner, hid, hstart, -⟩
    have := Filter.considerFinalityProof_eq_accept_iff.mpr ⟨inner, hinner, hid, hstart⟩
    rw [hc] at this
    cases this

omit [DecidableEq A] in
/-- Validating a justification marks its round as proven exactly when it is kept. -/
theorem validateFinalityProof_gossipFilter
    (verifyWithValidatorSet : ℕ → ValidatorSet A → VersionedFinalityProof S →
      Except (ConsensusError × ℕ) Unit)
    (g : GossipValidator A P) (proof : VersionedFinalityProof S) (sender : P) :
    (g.validateFinalityProof verifyWithValidatorSet proof sender).1.gossipFilter =
      if (g.validateFinalityProof verifyWithValidatorSet proof sender).2.isKeep then
        g.gossipFilter.markRoundAsProven (proofBlockNumAndSetId proof).1
      else g.gossipFilter := by
  obtain ⟨sc⟩ := proof
  unfold validateFinalityProof
  dsimp only [proofBlockNumAndSetId]
  -- the condition's decidability instance mentions the match, so split on an equation
  obtain ⟨c, hc⟩ : ∃ c, g.gossipFilter.considerFinalityProof sc.commitment.blockNumber
      sc.commitment.validatorSetId = c := ⟨_, rfl⟩
  simp only [hc]
  cases c with
  | rejectPast | rejectFuture | cannotEvaluate => rfl
  | accept =>
    by_cases hproven : g.gossipFilter.isAlreadyProven sc.commitment.blockNumber = true
    · simp [hproven, Action.isKeep]
    · -- the round is marked after the same check that keeps the justification
      by_cases hkeep : (verifyProofAction verifyWithValidatorSet g.gossipFilter
          sc.commitment.blockNumber (.v1 sc)).isKeep = true
      · simp only [hproven, hkeep, Bool.false_eq_true, ↓reduceIte]
      · simp only [hproven, hkeep, Bool.false_eq_true, ↓reduceIte]

/-! ### `validate`, `message_expired` and `message_allowed` -/

section Validate

variable (verify : A → S → Commitment → Bool)
  (verifyWithValidatorSet : ℕ → ValidatorSet A → VersionedFinalityProof S →
    Except (ConsensusError × ℕ) Unit)
  (decode : List UInt8 → Except String (GossipMessage A S × List UInt8))
  (g : GossipValidator A P) (sender : P) (data : List UInt8)

omit [DecidableEq A] [DecidableEq P] in
@[simp] theorem report_gossipFilter (who : P) (costBenefit : ReputationChange) :
    (g.report who costBenefit).gossipFilter = g.gossipFilter := rfl

/-- A message that does not decode is discarded and changes nothing but the reports. -/
theorem validateAction_of_decodeAll_error {e : String}
    (h : decodeAll decode data = .error e) :
    (g.validateAction verify verifyWithValidatorSet decode sender data).1 = g ∧
      (g.validateAction verify verifyWithValidatorSet decode sender data).2.1.isKeep = false := by
  unfold validateAction
  rw [h]
  exact ⟨rfl, rfl⟩

theorem validateAction_of_decodeAll_vote {vote : VoteMessage A S} {rest : List UInt8}
    (h : decodeAll decode data = .ok (.vote vote, rest)) :
    g.validateAction verify verifyWithValidatorSet decode sender data =
      ((g.validateVote verify vote sender).1, (g.validateVote verify vote sender).2, rest) := by
  unfold validateAction
  rw [h]

theorem validateAction_of_decodeAll_finalityProof {proof : VersionedFinalityProof S}
    {rest : List UInt8} (h : decodeAll decode data = .ok (.finalityProof proof, rest)) :
    g.validateAction verify verifyWithValidatorSet decode sender data =
      ((g.validateFinalityProof verifyWithValidatorSet proof sender).1,
        (g.validateFinalityProof verifyWithValidatorSet proof sender).2, rest) := by
  unfold validateAction
  rw [h]

/-- Reporting the sender leaves the filter as the action left it. -/
theorem validate_gossipFilter :
    (g.validate verify verifyWithValidatorSet decode sender data).1.gossipFilter =
      (g.validateAction verify verifyWithValidatorSet decode sender data).1.gossipFilter := by
  unfold validate
  obtain ⟨g', action, rest⟩ := g.validateAction verify verifyWithValidatorSet decode sender data
  cases action <;> rfl

/-- `validate` keeps a message under a topic exactly when its action keeps it there. -/
theorem validate_eq_processAndKeep_iff {topic : Topic} :
    (g.validate verify verifyWithValidatorSet decode sender data).2.1 = .processAndKeep topic ↔
      ∃ cb, (g.validateAction verify verifyWithValidatorSet decode sender data).2.1 =
        .keep topic cb := by
  unfold validate
  obtain ⟨g', action, rest⟩ := g.validateAction verify verifyWithValidatorSet decode sender data
  cases action <;> simp

/-- **What `validate` does to the filter.**  It leaves it alone, or it kept a justification
and marked its round as proven. -/
theorem validate_gossipFilter_cases :
    (g.validate verify verifyWithValidatorSet decode sender data).1.gossipFilter =
        g.gossipFilter ∨
      ∃ proof rest, decodeAll decode data = .ok (.finalityProof proof, rest) ∧
        (g.validateFinalityProof verifyWithValidatorSet proof sender).2.isKeep = true ∧
        (g.validate verify verifyWithValidatorSet decode sender data).1.gossipFilter =
          g.gossipFilter.markRoundAsProven (proofBlockNumAndSetId proof).1 := by
  rw [validate_gossipFilter]
  cases hd : decodeAll decode data with
  | error e =>
    left
    rw [(validateAction_of_decodeAll_error verify verifyWithValidatorSet decode g sender data hd).1]
  | ok r =>
    obtain ⟨msg, rest⟩ := r
    cases msg with
    | vote vote =>
      left
      rw [validateAction_of_decodeAll_vote verify verifyWithValidatorSet decode g sender data hd]
      exact validateVote_gossipFilter verify g vote sender
    | finalityProof proof =>
      rw [validateAction_of_decodeAll_finalityProof verify verifyWithValidatorSet decode g sender
        data hd, validateFinalityProof_gossipFilter]
      by_cases hkeep : (g.validateFinalityProof verifyWithValidatorSet proof sender).2.isKeep = true
      · exact .inr ⟨proof, rest, rfl, hkeep, if_pos hkeep⟩
      · exact .inl (if_neg hkeep)

/-- A vote `validate` keeps is live for the filter. -/
theorem validate_keeps_live_vote {vote : VoteMessage A S} {rest : List UInt8} {topic : Topic}
    (hd : decodeAll decode data = .ok (.vote vote, rest))
    (hkeep : (g.validate verify verifyWithValidatorSet decode sender data).2.1 =
      .processAndKeep topic) :
    g.gossipFilter.LiveVote vote := by
  obtain ⟨cb, hcb⟩ :=
    (validate_eq_processAndKeep_iff verify verifyWithValidatorSet decode g sender data).mp hkeep
  rw [validateAction_of_decodeAll_vote verify verifyWithValidatorSet decode g sender data hd]
    at hcb
  exact (validateVote_eq_keep_iff.mp hcb).1

/-- A justification `validate` keeps was accepted by the filter and not proven before, and
its round is proven after. -/
theorem validate_keeps_unproven {proof : VersionedFinalityProof S} {rest : List UInt8}
    {topic : Topic} (hd : decodeAll decode data = .ok (.finalityProof proof, rest))
    (hkeep : (g.validate verify verifyWithValidatorSet decode sender data).2.1 =
      .processAndKeep topic) :
    g.gossipFilter.considerFinalityProof (proofBlockNumAndSetId proof).1
        (proofBlockNumAndSetId proof).2 = .accept ∧
      (proofBlockNumAndSetId proof).1 ∉ g.gossipFilter.roundsWithValidProofs ∧
      (g.validate verify verifyWithValidatorSet decode sender data).1.gossipFilter =
        g.gossipFilter.markRoundAsProven (proofBlockNumAndSetId proof).1 := by
  obtain ⟨cb, hcb⟩ :=
    (validate_eq_processAndKeep_iff verify verifyWithValidatorSet decode g sender data).mp hkeep
  rw [validateAction_of_decodeAll_finalityProof verify verifyWithValidatorSet decode g sender
    data hd] at hcb
  dsimp only at hcb
  obtain ⟨⟨inner, hinner, hid, hstart, -⟩, hnew, -⟩ := validateFinalityProof_eq_keep_iff.mp hcb
  refine ⟨Filter.considerFinalityProof_eq_accept_iff.mpr ⟨inner, hinner, hid, hstart⟩, hnew, ?_⟩
  rw [validate_gossipFilter, validateAction_of_decodeAll_finalityProof verify
    verifyWithValidatorSet decode g sender data hd, validateFinalityProof_gossipFilter, hcb]
  rfl

omit [DecidableEq A] [DecidableEq P] in
@[simp] theorem messageAllowed_gossipFilter (now : ℕ) :
    (g.messageAllowed decode now).1.gossipFilter = g.gossipFilter := by
  unfold messageAllowed
  dsimp only
  split <;> rfl

end Validate

end GossipValidator

end BeefyEtf
