/-
The BEEFY worker (`client/consensus/beefy-etf/src/worker.rs`).

The worker holds the `PersistedState` (the voter oracle, the best block it voted on and
the pallet's genesis), a buffer of justifications for later rounds, and the channels it
feeds: the gossip filter, the RPC streams of best blocks and justifications, and the
gossip of votes and proofs.  Each entry point is a function from the worker to the worker
and its result; on an error the worker is returned as the code leaves it, with every
mutation made before the failing call.

What the worker calls outside itself is an argument: the backend's writes and block
lookups, the runtime's `beefy_genesis`, the key store, `report_equivocation` and the
build's `get_signed_payload`.  The worker also keeps, as proof-only ghost state, every block
it finalized with the oracle as it was just before.
-/
import BeefyEtf.Oracle

namespace BeefyEtf

/-- A block header: its number and its BEEFY digest items. -/
structure Header (A : Type*) where
  number : ℕ
  digest : List (ConsensusLog A)

/-- `find_authorities_change`: the validator set of the header's first `AuthoritiesChange`
item. -/
def findAuthoritiesChange {A : Type*} (header : Header A) : Option (ValidatorSet A) :=
  header.digest.findSome? fun
    | .authoritiesChange validatorSet => some validatorSet
    | _ => none

/-- `GossipFilterCfg`: the rounds and the validator set gossiped votes are checked against. -/
structure GossipFilterCfg (A : Type*) where
  start : ℕ
  end_ : ℕ
  validatorSet : ValidatorSet A

/-- `PersistedState`: what the voter writes to the database. -/
structure PersistedState (A S : Type*) [Ord A] where
  bestVoted : ℕ
  votingOracle : VoterOracle A S
  palletGenesis : ℕ

namespace PersistedState

variable {A S : Type*} [Ord A]

/-- `PersistedState::checked_new`. -/
def checkedNew (grandpaHeader bestBeefy : ℕ) (sessions : List (Rounds A S))
    (minBlockDelta palletGenesis : ℕ) : Option (PersistedState A S) :=
  (VoterOracle.checkedNew sessions minBlockDelta grandpaHeader bestBeefy).map fun votingOracle =>
    { bestVoted := 0, votingOracle := votingOracle, palletGenesis := palletGenesis }

/-- `PersistedState::set_best_beefy`. -/
def setBestBeefy (p : PersistedState A S) (bestBeefy : ℕ) : PersistedState A S :=
  { p with votingOracle := { p.votingOracle with bestBeefyBlock := bestBeefy } }

/-- `PersistedState::set_best_grandpa`. -/
def setBestGrandpa (p : PersistedState A S) (bestGrandpa : ℕ) : PersistedState A S :=
  { p with votingOracle := { p.votingOracle with bestGrandpaBlock := bestGrandpa } }

/-- `PersistedState::set_min_block_delta`. -/
def setMinBlockDelta (p : PersistedState A S) (minBlockDelta : ℕ) : PersistedState A S :=
  { p with votingOracle := { p.votingOracle with minBlockDelta := max minBlockDelta 1 } }

/-- `PersistedState::gossip_filter_config`. -/
def gossipFilterConfig (p : PersistedState A S) : Except Error (GossipFilterCfg A) :=
  match p.votingOracle.acceptedInterval, p.votingOracle.currentValidatorSet with
  | .error e, _ => .error e
  | .ok _, .error e => .error e
  | .ok (start, end_), .ok validatorSet =>
    .ok { start := start, end_ := end_, validatorSet := validatorSet }

/-- `PersistedState::init_session_at`: a new session, added without further check. -/
def initSessionAt (p : PersistedState A S) (newSessionStart : ℕ)
    (validatorSet : ValidatorSet A) : PersistedState A S :=
  { p with votingOracle := p.votingOracle.addSession (Rounds.new newSessionStart validatorSet) }

end PersistedState

/-- What the worker calls outside itself. -/
structure Env (A S : Type*) [Ord A] where
  /-- `aux_schema::write_voter_state`: the backend's `insert_aux`, which may fail. -/
  writeVoterState : PersistedState A S → Except String Unit
  /-- The backend's hash of a block number, if it has the block. -/
  blockHash : ℕ → Option ℕ
  /-- The runtime's `beefy_genesis` at a header. -/
  beefyGenesis : Header A → Option ℕ
  /-- The key store's `authority_id`: our key among the validators, if any. -/
  authorityId : List A → Option A
  /-- `BeefyWorker::report_equivocation`, which only reads the state and calls the runtime. -/
  reportEquivocation : EquivocationProof A S → Except Error Unit

/-- `MAX_BUFFERED_JUSTIFICATIONS`. -/
def maxBufferedJustifications : ℕ := 2400

/-- The worker's state: the persisted voter state, the justification buffer, what the
worker last gave the gossip validator and sent on its channels, and, as proof-only ghost
state, each block it finalized with the oracle as it was just before. -/
structure Worker (A S : Type*) [Ord A] where
  persistedState : PersistedState A S
  pendingJustifications : Std.TreeMap ℕ (VersionedFinalityProof S)
  gossipFilter : Option (GossipFilterCfg A)
  rpcBestBlocks : List ℕ
  rpcJustifications : List (VersionedFinalityProof S)
  gossipedVotes : List (VoteMessage A S)
  gossipedProofs : List (VersionedFinalityProof S)
  finalized : List (ℕ × VoterOracle A S)

namespace Worker

variable {A S : Type*} [Ord A] (env : Env A S)

/-- The best GRANDPA block of the worker's oracle. -/
def bestGrandpaBlock (w : Worker A S) : ℕ := w.persistedState.votingOracle.bestGrandpaBlock

/-- The worker with another voter oracle. -/
def withOracle (w : Worker A S) (votingOracle : VoterOracle A S) : Worker A S :=
  { w with persistedState := { w.persistedState with votingOracle := votingOracle } }

/-- `BeefyWorker::finalize`: conclude the round in the oracle, set the best BEEFY block,
persist the state, then notify the RPC streams and update the gossip filter. -/
def finalize (w : Worker A S) (finalityProof : VersionedFinalityProof S) :
    Worker A S × Except Error Unit :=
  let blockNum := finalityProof.blockNumber
  if blockNum ≤ w.persistedState.votingOracle.bestBeefyBlock then
    -- we've already finalized this round before, short-circuit
    (w, .ok ())
  else
    match w.persistedState.votingOracle.finalize blockNum with
    | .error e => (w, .error e)
    | .ok votingOracle =>
      let w' := { w.withOracle votingOracle with
        finalized := w.finalized ++ [(blockNum, w.persistedState.votingOracle)] }
      let w' := { w' with persistedState := w'.persistedState.setBestBeefy blockNum }
      match env.writeVoterState w'.persistedState with
      | .error e => (w', .error (.backend e))
      | .ok () =>
        -- the best block hash, when the backend has it, and the justification
        let w' := match env.blockHash blockNum with
          | some hash => { w' with rpcBestBlocks := w'.rpcBestBlocks ++ [hash] }
          | none => w'
        let w' := { w' with rpcJustifications := w'.rpcJustifications ++ [finalityProof] }
        match w'.persistedState.gossipFilterConfig with
        | .error e => (w', .error e)
        | .ok filter => ({ w' with gossipFilter := some filter }, .ok ())

/-- `BeefyWorker::handle_vote`: the vote goes to the front session; a concluded round is
finalized and its proof returned. -/
def handleVote [DecidableEq A] (w : Worker A S) (vote : VoteMessage A S) :
    Worker A S × Except Error (Option (VersionedFinalityProof S)) :=
  match w.persistedState.votingOracle.sessions with
  | [] => (w, .error .uninitSession)
  | rounds :: rest =>
    let blockNumber := vote.commitment.blockNumber
    let w := w.withOracle { w.persistedState.votingOracle with
      sessions := (rounds.addVote vote).2 :: rest }
    match (rounds.addVote vote).1 with
    | .roundConcluded signedCommitment =>
      let finalityProof := VersionedFinalityProof.v1 signedCommitment
      match finalize env w finalityProof with
      | (w, .error e) => (w, .error e)
      | (w, .ok ()) => (w, .ok (some finalityProof))
    | .ok =>
      -- persist state after handling mandatory block vote
      if (w.persistedState.votingOracle.mandatoryPending.map (·.1 == blockNumber)).getD false then
        match env.writeVoterState w.persistedState with
        | .error e => (w, .error (.backend e))
        | .ok () => (w, .ok none)
      else (w, .ok none)
    | .equivocation proof =>
      match env.reportEquivocation proof with
      | .error e => (w, .error e)
      | .ok () => (w, .ok none)
    | .invalid => (w, .ok none)
    | .stale => (w, .ok none)

/-- `BeefyWorker::triage_incoming_vote`: a vote in the accepted interval is handled, and
the proof of a round it concludes gossiped. -/
def triageIncomingVote [DecidableEq A] (w : Worker A S) (vote : VoteMessage A S) :
    Worker A S × Except Error Unit :=
  match w.persistedState.votingOracle.triageRound vote.commitment.blockNumber with
  | .error e => (w, .error e)
  | .ok .process =>
    match handleVote env w vote with
    | (w, .error e) => (w, .error e)
    | (w, .ok (some finalityProof)) =>
      ({ w with gossipedProofs := w.gossipedProofs ++ [finalityProof] }, .ok ())
    | (w, .ok none) => (w, .ok ())
  | .ok .drop => (w, .ok ())
  | .ok .enqueue => (w, .ok ())

/-- `BeefyWorker::triage_incoming_justif`: a justification in the accepted interval
finalizes its block; one for a later round is buffered, the first per block kept, while
the buffer has room. -/
def triageIncomingJustif (w : Worker A S) (justification : VersionedFinalityProof S) :
    Worker A S × Except Error Unit :=
  let blockNum := justification.blockNumber
  match w.persistedState.votingOracle.triageRound blockNum with
  | .error e => (w, .error e)
  | .ok .process => finalize env w justification
  | .ok .enqueue =>
    if w.pendingJustifications.size < maxBufferedJustifications then
      ({ w with pendingJustifications :=
          w.pendingJustifications.insertIfNew blockNum justification }, .ok ())
    else (w, .ok ())
  | .ok .drop => (w, .ok ())

/-- `BeefyWorker::try_pending_justifications`: the buffered justifications in the accepted
interval are finalized in increasing order, their errors only logged; those above it stay
and those below it are dropped. -/
def tryPendingJustifications (w : Worker A S) : Worker A S × Except Error Unit :=
  match w.persistedState.votingOracle.acceptedInterval with
  | .error e => (w, .error e)
  | .ok (start, end_) =>
    if w.pendingJustifications.isEmpty then (w, .ok ())
    else
      -- `split_off(end + 1)`, then `split_off(start)` of what is left
      let stillPending := w.pendingJustifications.filter fun k _ => end_ + 1 ≤ k
      let justifsToProcess := w.pendingJustifications.filter fun k _ => start ≤ k ∧ k < end_ + 1
      let w := { w with pendingJustifications := stillPending }
      (justifsToProcess.toList.foldl (fun w x => (finalize env w x.2).1) w, .ok ())

/-- `BeefyWorker::do_vote` with the build's `get_signed_payload`: sign the target as our
key in the front session, handle the vote as any other, gossip the vote or the proof of the
round it concludes, and persist the best voted block. -/
def doVote [DecidableEq A]
    (getSignedPayload : ℕ → ℕ → A → Except Error (Option (S × A × Commitment)))
    (w : Worker A S) (targetNumber : ℕ) : Worker A S × Except Error Unit :=
  -- the target header: the best GRANDPA one, or looked up by number
  if targetNumber ≠ w.bestGrandpaBlock ∧ env.blockHash targetNumber = none then
    (w, .error (.backend "Couldn't get hash for block, skipping vote.."))
  else
    match w.persistedState.votingOracle.sessions with
    | [] => (w, .error .uninitSession)
    | rounds :: _ =>
      match env.authorityId rounds.validators with
      | none => (w, .ok ())
      | some authorityId =>
        match getSignedPayload targetNumber rounds.validatorSetId authorityId with
        | .error e => (w, .error e)
        | .ok none => (w, .ok ())
        | .ok (some (signature, _, commitment)) =>
          let vote : VoteMessage A S :=
            { commitment := commitment, id := authorityId, signature := signature }
          match handleVote env w vote with
          | (w, .error e) => (w, .error e)
          | (w, .ok result) =>
            let w := match result with
              | some finalityProof => { w with gossipedProofs := w.gossipedProofs ++ [finalityProof] }
              | none => { w with gossipedVotes := w.gossipedVotes ++ [vote] }
            -- persist state after vote to avoid double voting in case of voter restarts
            let w := { w with persistedState := { w.persistedState with bestVoted := targetNumber } }
            match env.writeVoterState w.persistedState with
            | .error e => (w, .error (.backend e))
            | .ok () => (w, .ok ())

/-- `BeefyWorker::try_to_vote`: vote on the oracle's target when it is new. -/
def tryToVote [DecidableEq A] (blsExperimental : Bool)
    (getSignedPayload : ℕ → ℕ → A → Except Error (Option (S × A × Commitment)))
    (w : Worker A S) : Worker A S × Except Error Unit :=
  match w.persistedState.votingOracle.votingTarget blsExperimental with
  | some target =>
    if target > w.persistedState.bestVoted then doVote env getSignedPayload w target
    else (w, .ok ())
  | none => (w, .ok ())

/-- `get_signed_payload` of the build without `bls-experimental`: the payload the provider
finds in the target header, signed by the key store; `None` when either fails. -/
def getSignedPayloadEcdsa (payload : ℕ → Option Payload) (sign : A → Commitment → Except String S)
    (targetNumber validatorSetId : ℕ) (authorityId : A) :
    Except Error (Option (S × A × Commitment)) :=
  match payload targetNumber with
  | none => .ok none
  | some payload =>
    let commitment : Commitment :=
      { payload := payload, blockNumber := targetNumber, validatorSetId := validatorSetId }
    match sign authorityId commitment with
    | .ok signature => .ok (some (signature, authorityId, commitment))
    | .error _ => .ok none

/-- The sessions a finality notification starts: `init_session_at` for each header of the
tree route, then the notified one, that carries an `AuthoritiesChange`; and whether any did. -/
def initSessions (w : Worker A S) : List (Header A) → Worker A S × Bool
  | [] => (w, false)
  | header :: headers =>
    match findAuthoritiesChange header with
    | some newValidatorSet =>
      ((initSessions { w with persistedState :=
        w.persistedState.initSessionAt header.number newValidatorSet } headers).1, true)
    | none => initSessions w headers

/-- `BeefyWorker::handle_finality_notification` for the notified `header` and the tree route
of newly finalized headers below it. -/
def handleFinalityNotification (w : Worker A S) (header : Header A) (treeRoute : List (Header A)) :
    Worker A S × Except Error Unit :=
  if env.beefyGenesis header ≠ some w.persistedState.palletGenesis then (w, .error .consensusReset)
  else if header.number > w.bestGrandpaBlock then
    -- update best GRANDPA finalized block we have seen
    let w := { w with persistedState := w.persistedState.setBestGrandpa header.number }
    let (w, newSessionAdded) := initSessions w (treeRoute ++ [header])
    let written := if newSessionAdded then env.writeVoterState w.persistedState else .ok ()
    match written with
    | .error e => (w, .error (.backend e))
    | .ok () =>
      -- a failure of the filter is only logged
      match w.persistedState.gossipFilterConfig with
      | .ok filter => ({ w with gossipFilter := some filter }, .ok ())
      | .error _ => (w, .ok ())
  else (w, .ok ())

end Worker

end BeefyEtf
