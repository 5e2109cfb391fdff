/-
The voter's main loop (`BeefyWorker::run` and `process_new_state` in
`client/consensus/beefy-etf/src/worker.rs`).

Each turn of the loop waits for one event: a finality notification, the answer to the
on-demand request in flight, a justification from block import or from gossip, a gossiped
vote, or a peer report of the gossip validator.  The branch that handles it breaks the loop
with an error, continues with the next event, or falls through to `process_new_state`: the
buffered justifications, then, outside a major sync, our vote and a request for the pending
mandatory block.

The on-demand engine belongs to the worker's `BeefyComms`.  The worker touches it in one
more place: `finalize` cancels the engine's requests older than the block it finalizes,
right before it notifies the RPC justification stream, with nothing between that can fail.
So the cancellations of one call of the worker are those of the justifications the call
appended to that stream (`cancelFinalized`).  The gossip validator shares the engine's peer
book and changes it at any time: its changes are events of their own.
-/
import BeefyEtf.OnDemand

namespace BeefyEtf

open OnDemand Worker

/-- The `Error` the loop breaks with: the worker's, or the end of a stream it waits on. -/
inductive LoopError where
  | worker (err : Error)
  | blockImportStreamTerminated
  | gossipEngineTerminated
  | finalityProofGossipStreamTerminated
  | finalityStreamTerminated
  | votesGossipStreamTerminated
  deriving DecidableEq, Repr

/-- What a turn of the loop waits for, in the order `select_biased!` prefers them; `none` is
the end of a stream.  A finality notification carries the notified header and the headers of
its tree route.  The last two are the gossip validator's changes to the peer book. -/
inductive Event (A S P : Type*) where
  | finalityNotification (notification : Option (Header A × List (Header A)))
  | gossipEngineTerminated
  | onDemandResponse (response : Option (Except RequestFailure (List UInt8)))
  | blockImportJustif (justif : Option (VersionedFinalityProof S))
  | gossipProof (justif : Option (VersionedFinalityProof S))
  | vote (vote : Option (VoteMessage A S))
  | gossipReport (report : Option (PeerReport P))
  | noteVoteFor (peer : P) (round : ℕ)
  | peerDisconnected (peer : P)

/-- One turn's input: the event, and whether the node is in a major sync when
`process_new_state` asks. -/
structure Input (A S P : Type*) where
  event : Event A S P
  majorSyncing : Bool

/-- What a turn sends on the network: the justification requests, to a peer for a block, and
the reputation changes reported to the gossip engine. -/
structure Sent (P : Type*) where
  requests : List (P × ℕ)
  reports : List (PeerReport P)

/-- How a branch of the loop ends: `break`, `continue`, or falling through to
`process_new_state`. -/
inductive Flow where
  | breakLoop (err : LoopError)
  | continueLoop
  | processNewState

/-- The voter: the worker, the on-demand engine of its comms, and the error the loop broke
with, once it has. -/
structure Voter (A S P : Type*) [Ord A] where
  worker : Worker A S
  onDemandJustifications : OnDemandJustificationsEngine A P
  exit : Option LoopError

namespace Voter

variable {A S P : Type*} [Ord A] [DecidableEq A] [DecidableEq P]

/-- A voter built on `worker` with a new engine on the shared peer book, before its loop
runs. -/
def new (worker : Worker A S) (livePeers : KnownPeers P) : Voter A S P :=
  ⟨worker, OnDemandJustificationsEngine.new livePeers, none⟩

/-- The engine once a call of the worker went from `w` to `w'`: `finalize` cancelled the
requests older than the block of every justification the call notified. -/
def cancelFinalized (e : OnDemandJustificationsEngine A P) (w w' : Worker A S) :
    OnDemandJustificationsEngine A P :=
  (w'.rpcJustifications.drop w.rpcJustifications.length).foldl
    (fun e j => e.cancelRequestsOlderThan j.blockNumber) e

/-- The voter after a call of its worker that left the worker at `w'`. -/
def afterWorker (v : Voter A S P) (w' : Worker A S) : Voter A S P :=
  { v with
      worker := w'
      onDemandJustifications := cancelFinalized v.onDemandJustifications v.worker w' }

variable (env : Env A S) (blsExperimental : Bool)
  (getSignedPayload : ℕ → ℕ → A → Except Error (Option (S × A × Commitment)))
  (decode : List UInt8 → Except String (VersionedFinalityProof S × List UInt8))
  (verifyWithValidatorSet : ℕ → ValidatorSet A → VersionedFinalityProof S →
    Except (ConsensusError × ℕ) Unit)

/-- `process_new_state`: the buffered justifications, then, outside a major sync, our vote
and a request for the pending mandatory block; the worker's errors are only logged.  Returns
the request sent, if any. -/
def processNewState (v : Voter A S P) (majorSyncing : Bool) : Voter A S P × Option (P × ℕ) :=
  let v := v.afterWorker (tryPendingJustifications env v.worker).1
  -- don't bother voting or requesting justifications during major sync
  if majorSyncing then (v, none)
  else
    let v := v.afterWorker (tryToVote env blsExperimental getSignedPayload v.worker).1
    match v.worker.persistedState.votingOracle.mandatoryPending with
    | some (block, active) =>
      -- this only starts a new request if there isn't already an active one
      let r := v.onDemandJustifications.request block active
      ({ v with onDemandJustifications := r.1 }, r.2)
    | none => (v, none)

/-- The branch of `select_biased!` that handles `event`: the voter it leaves, what it sent,
and how it ends.  The errors of the triage are only logged. -/
def handleEvent (v : Voter A S P) : Event A S P → Voter A S P × Sent P × Flow
  | .finalityNotification none => (v, ⟨[], []⟩, .breakLoop .finalityStreamTerminated)
  | .finalityNotification (some (header, treeRoute)) =>
    let r := handleFinalityNotification env v.worker header treeRoute
    match r.2 with
    | .error err => (v.afterWorker r.1, ⟨[], []⟩, .breakLoop (.worker err))
    | .ok () => (v.afterWorker r.1, ⟨[], []⟩, .processNewState)
  | .gossipEngineTerminated => (v, ⟨[], []⟩, .breakLoop .gossipEngineTerminated)
  | .onDemandResponse response =>
    let r := v.onDemandJustifications.next decode verifyWithValidatorSet response
    let v := { v with onDemandJustifications := r.1 }
    match r.2.1 with
    | some (.validProof justif peerReport) =>
      (v.afterWorker (triageIncomingJustif env v.worker justif).1,
        ⟨r.2.2.toList, [peerReport]⟩, .processNewState)
    | some (.peerReport peerReport) => (v, ⟨r.2.2.toList, [peerReport]⟩, .continueLoop)
    | some .pending => (v, ⟨r.2.2.toList, []⟩, .continueLoop)
    -- with no request in flight the engine's future never completes
    | none => (v, ⟨[], []⟩, .continueLoop)
  | .blockImportJustif none => (v, ⟨[], []⟩, .breakLoop .blockImportStreamTerminated)
  | .blockImportJustif (some justif) =>
    (v.afterWorker (triageIncomingJustif env v.worker justif).1, ⟨[], []⟩, .processNewState)
  | .gossipProof none => (v, ⟨[], []⟩, .breakLoop .finalityProofGossipStreamTerminated)
  | .gossipProof (some justif) =>
    (v.afterWorker (triageIncomingJustif env v.worker justif).1, ⟨[], []⟩, .processNewState)
  | .vote none => (v, ⟨[], []⟩, .breakLoop .votesGossipStreamTerminated)
  | .vote (some vote) =>
    (v.afterWorker (triageIncomingVote env v.worker vote).1, ⟨[], []⟩, .processNewState)
  | .gossipReport report => (v, ⟨[], report.toList⟩, .continueLoop)
  | .noteVoteFor peer round =>
    ({ v with onDemandJustifications := { v.onDemandJustifications with
        livePeers := v.onDemandJustifications.livePeers.noteVoteFor peer round } },
      ⟨[], []⟩, .continueLoop)
  | .peerDisconnected peer =>
    ({ v with onDemandJustifications := { v.onDemandJustifications with
        livePeers := v.onDemandJustifications.livePeers.remove peer } },
      ⟨[], []⟩, .continueLoop)

/-- One turn of the loop: nothing once it broke; else the branch of the event, then
`process_new_state` unless the branch broke or continued. -/
def turn (v : Voter A S P) (input : Input A S P) : Sent P × Voter A S P :=
  match v.exit with
  | some _ => (⟨[], []⟩, v)
  | none =>
    let r := handleEvent env decode verifyWithValidatorSet v input.event
    match r.2.2 with
    | .breakLoop err => (r.2.1, { r.1 with exit := some err })
    | .continueLoop => (r.2.1, r.1)
    | .processNewState =>
      let s := processNewState env blsExperimental getSignedPayload r.1 input.majorSyncing
      (⟨r.2.1.requests ++ s.2.toList, r.2.1.reports⟩, s.1)

/-- `run`: `process_new_state` once, then one turn for each input.  What each step sent, and
the voter at the end. -/
def run (v : Voter A S P) (majorSyncing : Bool) (inputs : List (Input A S P)) :
    List (Sent P) × Voter A S P :=
  let s := processNewState env blsExperimental getSignedPayload v majorSyncing
  let r := Run.runFrom (turn env blsExperimental getSignedPayload decode verifyWithValidatorSet)
    s.1 inputs
  (⟨s.2.toList, []⟩ :: r.1, r.2)

end Voter

end BeefyEtf
