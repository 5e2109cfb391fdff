/-
The voter's loop over whole runs.

The requests the on-demand engine has in flight follow the worker's pending mandatory block:
`process_new_state` asks for that block, `finalize` cancels the requests it reaches, and no
other call of the worker moves the block (`Worker.KeepsMandatory`).  A property of the
requests in flight that these steps keep (`Stable`) holds over every run of the loop, under
any interleaving of notifications, answers, justifications, votes and changes to the peer
book (`InFlight.run`).

* `requests_in_flight_current` — with nothing assumed: every request in flight is for the
  pending mandatory block of the front session, with its validator set, or for a block at or
  below the best BEEFY block;
* `requests_in_flight_pending` — when the database writes succeed, only the first: every
  request in flight is for the pending mandatory block with its set;
* `mandatory_block_requested` — then, after each turn that acts on the state outside a major
  sync, a pending mandatory block has a request in flight, unless no peer in the book voted
  above it;
* `loop_session_ordered_finalization` — the loop moves its worker by the steps of
  `Worker.Step` only (build without `bls-experimental`), so every block it finalizes is
  session-ordered.
-/
import BeefyEtf.Voter
import BeefyEtf.Mandatory
import BeefyEtf.WorkerRuns

namespace BeefyEtf

open OnDemand Worker

namespace OnDemand

variable {P : Type*} [DecidableEq P]

/-- Popping nothing means no peer of the cache is connected. -/
theorem popLivePeer_fst_eq_none {live : KnownPeers P} {peersCache : List P}
    (h : (popLivePeer live peersCache).1 = none) : ∀ peer ∈ peersCache, live.contains peer = false := by
  induction peersCache with
  | nil => exact fun _ hpeer => absurd hpeer List.not_mem_nil
  | cons peer' peersCache ih =>
    unfold popLivePeer at h
    split at h
    · cases h
    · rename_i hlive
      intro peer hpeer
      rcases List.mem_cons.mp hpeer with rfl | hpeer
      · exact Bool.eq_false_iff.mpr hlive
      · exact ih h peer hpeer

end OnDemand

namespace OnDemandJustificationsEngine

variable {A S P : Type*} [DecidableEq P]

omit [DecidableEq P] in
/-- Cancelling for the blocks of a list leaves a request in flight only if it was in flight
before, above every one of them. -/
theorem foldl_cancelRequestsOlderThan_state {l : List (VersionedFinalityProof S)}
    {e : OnDemandJustificationsEngine A P} {peer : P} {reqInfo : RequestInfo A}
    (h : (l.foldl (fun e j => e.cancelRequestsOlderThan j.blockNumber) e).state =
      .awaitingResponse peer reqInfo) :
    e.state = .awaitingResponse peer reqInfo ∧ ∀ j ∈ l, j.blockNumber < reqInfo.block := by
  induction l generalizing e with
  | nil => exact ⟨h, fun _ hj => absurd hj List.not_mem_nil⟩
  | cons j l ih =>
    obtain ⟨hstate, hl⟩ := ih h
    obtain ⟨hlt, hstate'⟩ := cancelRequestsOlderThan_state hstate
    refine ⟨hstate', fun j' hj' => ?_⟩
    rcases List.mem_cons.mp hj' with rfl | hj'
    · exact hlt
    · exact hl j' hj'

/-- After `request`, the request awaited is the one asked for, or the one that was in
flight before. -/
theorem request_state_eq_awaitingResponse {e : OnDemandJustificationsEngine A P} {block : ℕ}
    {active : ValidatorSet A} {peer : P} {reqInfo : RequestInfo A}
    (h : (e.request block active).1.state = .awaitingResponse peer reqInfo) :
    reqInfo = ⟨block, active⟩ ∨ e.state = .awaitingResponse peer reqInfo := by
  rcases e.request_cases block active with ⟨-, -, -, hrequest⟩ | ⟨hidle, hrequest⟩
  · rw [hrequest] at h
    exact .inr h
  · rw [hrequest] at h
    rcases requestFromNextPeer_state_eq h with rfl | hreset
    · exact .inl rfl
    · rw [show (e.resetPeersCacheForBlock block).state = e.state from rfl, hidle] at hreset
      cases hreset

/-- **A request is out.**  When any request in flight is already for `block` and `active`,
`request block active` leaves the engine awaiting an answer for them from a peer, unless no
peer in its book voted above the block. -/
theorem request_awaits (e : OnDemandJustificationsEngine A P) (block : ℕ)
    (active : ValidatorSet A)
    (h : ∀ peer reqInfo, e.state = .awaitingResponse peer reqInfo → reqInfo = ⟨block, active⟩) :
    (∃ peer, (e.request block active).1.state = .awaitingResponse peer ⟨block, active⟩) ∨
      (e.request block active).1.livePeers.furtherThan block = [] := by
  rcases e.request_cases block active with ⟨peer, reqInfo, hstate, hrequest⟩ | ⟨-, hrequest⟩
  · rw [hrequest, hstate, h peer reqInfo hstate]
    exact .inl ⟨peer, rfl⟩
  -- a new request: the cache is the peers that voted above the block
  obtain ⟨hlive, -, -, -, -, hstate⟩ :=
    (e.resetPeersCacheForBlock block).requestFromNextPeer_eq ⟨block, active⟩
  rw [hrequest, hstate, hlive]
  change (∃ peer, ((popLivePeer e.livePeers (e.livePeers.furtherThan block)).1.map
      fun peer => State.awaitingResponse peer ⟨block, active⟩).getD e.state =
        .awaitingResponse peer ⟨block, active⟩) ∨ e.livePeers.furtherThan block = []
  cases hpop : (popLivePeer e.livePeers (e.livePeers.furtherThan block)).1 with
  | some peer => exact .inl ⟨peer, rfl⟩
  | none =>
    -- no peer of the cache is connected, yet every one of them is in the book
    refine .inr (List.eq_nil_iff_forall_not_mem.mpr fun peer hpeer => ?_)
    have hcontains := KnownPeers.contains_of_mem_furtherThan hpeer
    rw [popLivePeer_fst_eq_none hpop peer hpeer] at hcontains
    cases hcontains

end OnDemandJustificationsEngine

namespace Voter

variable {A S P : Type*} [Ord A] [DecidableEq A] [Std.TransOrd A] [DecidableEq P]
  (env : Env A S) (blsExperimental : Bool)
  (getSignedPayload : ℕ → ℕ → A → Except Error (Option (S × A × Commitment)))
  (decode : List UInt8 → Except String (VersionedFinalityProof S × List UInt8))
  (verifyWithValidatorSet : ℕ → ValidatorSet A → VersionedFinalityProof S →
    Except (ConsensusError × ℕ) Unit)

/-! ### Properties of the requests in flight -/

/-- Every request in flight has `Q` in the worker. -/
def InFlight (Q : Worker A S → RequestInfo A → Prop) (v : Voter A S P) : Prop :=
  ∀ peer reqInfo, v.onDemandJustifications.state = .awaitingResponse peer reqInfo →
    Q v.worker reqInfo

omit [DecidableEq A] [Std.TransOrd A] [DecidableEq P] in
/-- A new engine has no request in flight. -/
theorem inFlight_new (Q : Worker A S → RequestInfo A → Prop) (w : Worker A S)
    (livePeers : KnownPeers P) : InFlight Q (Voter.new w livePeers) :=
  fun _ _ h => nomatch h

/-- What a property of the requests in flight needs to hold over every run: a call of the
worker keeps it for a request that no justification the call notified reached, and a request
for the pending mandatory block, with its set, has it. -/
structure Stable (Q : Worker A S → RequestInfo A → Prop) : Prop where
  keep : ∀ w w' reqInfo, KeepsMandatory env w w' → Q w reqInfo →
    (∀ j ∈ w'.rpcJustifications.drop w.rpcJustifications.length, j.blockNumber < reqInfo.block) →
    Q w' reqInfo
  request : ∀ w (reqInfo : RequestInfo A),
    w.persistedState.votingOracle.mandatoryPending = some (reqInfo.block, reqInfo.activeSet) →
    Q w reqInfo

section Stable

variable {env} {Q : Worker A S → RequestInfo A → Prop} (hQ : Stable env Q)
include hQ

omit [DecidableEq A] [Std.TransOrd A] [DecidableEq P] in
/-- A call of the worker keeps the property: `finalize` cancelled every request it
reached. -/
theorem InFlight.afterWorker {v : Voter A S P} (h : InFlight Q v) {w' : Worker A S}
    (hkm : KeepsMandatory env v.worker w') : InFlight Q (v.afterWorker w') := by
  intro peer reqInfo hstate
  obtain ⟨hstate', hlt⟩ := OnDemandJustificationsEngine.foldl_cancelRequestsOlderThan_state hstate
  exact hQ.keep _ _ reqInfo hkm (h peer reqInfo hstate') hlt

omit [DecidableEq A] [Std.TransOrd A] in
/-- A request for the pending mandatory block keeps the property. -/
theorem InFlight.request {v : Voter A S P} (h : InFlight Q v) {block : ℕ}
    {active : ValidatorSet A}
    (hmp : v.worker.persistedState.votingOracle.mandatoryPending = some (block, active)) :
    InFlight Q { v with onDemandJustifications :=
      (v.onDemandJustifications.request block active).1 } := by
  intro peer reqInfo hstate
  rcases OnDemandJustificationsEngine.request_state_eq_awaitingResponse hstate with
    rfl | hstate'
  · exact hQ.request _ _ hmp
  · exact h peer reqInfo hstate'

omit [DecidableEq A] [Std.TransOrd A] hQ in
/-- A call of the engine that starts no request keeps the property. -/
theorem InFlight.call {v : Voter A S P} (h : InFlight Q v) (c : OnDemandCall A P)
    (hc : ∀ block active, c ≠ .request block active) :
    InFlight Q { v with onDemandJustifications :=
      (v.onDemandJustifications.call decode verifyWithValidatorSet c).2 } := by
  intro peer reqInfo hstate
  rcases OnDemandJustificationsEngine.call_state_eq_awaitingResponse decode
      verifyWithValidatorSet hstate with ⟨block, active, hreq, -⟩ | ⟨peer', hstate'⟩
  · exact absurd hreq (hc block active)
  · exact h peer' reqInfo hstate'

/-- `process_new_state` keeps the property. -/
theorem InFlight.processNewState {v : Voter A S P} (h : InFlight Q v) (majorSyncing : Bool) :
    InFlight Q (processNewState env blsExperimental getSignedPayload v majorSyncing).1 := by
  have h₁ := h.afterWorker hQ (keepsMandatory_tryPendingJustifications env v.worker)
  dsimp only [Voter.processNewState]
  split
  · exact h₁
  have h₂ := h₁.afterWorker hQ (keepsMandatory_tryToVote env blsExperimental getSignedPayload _)
  split
  · rename_i block active hmp
    -- the request is for the pending mandatory block
    exact h₂.request hQ hmp
  · exact h₂

/-- The branch of each event keeps the property. -/
theorem InFlight.handleEvent {v : Voter A S P} (h : InFlight Q v) (event : Event A S P) :
    InFlight Q (handleEvent env decode verifyWithValidatorSet v event).1 := by
  cases event with
  | finalityNotification notification =>
    rcases notification with _ | ⟨header, treeRoute⟩
    · exact h
    dsimp only [Voter.handleEvent]
    have hw := h.afterWorker hQ (keepsMandatory_handleFinalityNotification env v.worker header
      treeRoute)
    split <;> exact hw
  | gossipEngineTerminated => exact h
  | onDemandResponse response =>
    have hnext := h.call decode verifyWithValidatorSet (.next response) fun _ _ => nofun
    dsimp only [Voter.handleEvent]
    split
    · exact hnext.afterWorker hQ (keepsMandatory_triageIncomingJustif env _ _)
    · exact hnext
    · exact hnext
    · exact hnext
  | blockImportJustif justif =>
    rcases justif with _ | justif
    · exact h
    · exact h.afterWorker hQ (keepsMandatory_triageIncomingJustif env v.worker justif)
  | gossipProof justif =>
    rcases justif with _ | justif
    · exact h
    · exact h.afterWorker hQ (keepsMandatory_triageIncomingJustif env v.worker justif)
  | vote vote =>
    rcases vote with _ | vote
    · exact h
    · exact h.afterWorker hQ (keepsMandatory_triageIncomingVote env v.worker vote)
  | gossipReport report => exact h
  | noteVoteFor peer round =>
    exact h.call decode verifyWithValidatorSet (.noteVoteFor peer round) fun _ _ => nofun
  | peerDisconnected peer =>
    exact h.call decode verifyWithValidatorSet (.peerDisconnected peer) fun _ _ => nofun

/-- One turn of the loop keeps the property. -/
theorem InFlight.turn {v : Voter A S P} (h : InFlight Q v) (input : Input A S P) :
    InFlight Q (turn env blsExperimental getSignedPayload decode verifyWithValidatorSet v input).2 := by
  dsimp only [Voter.turn]
  split
  · exact h
  have hbranch := h.handleEvent decode verifyWithValidatorSet hQ input.event
  split
  · exact hbranch
  · exact hbranch
  · exact hbranch.processNewState blsExperimental getSignedPayload hQ input.majorSyncing

/-- **Every run** keeps the property. -/
theorem InFlight.run {v : Voter A S P} (h : InFlight Q v) (majorSyncing : Bool)
    (inputs : List (Input A S P)) :
    InFlight Q (run env blsExperimental getSignedPayload decode verifyWithValidatorSet v
      majorSyncing inputs).2 :=
  Run.runFrom_invariant (fun _ input hv => hv.turn blsExperimental getSignedPayload decode
      verifyWithValidatorSet hQ input)
    (h.processNewState blsExperimental getSignedPayload hQ majorSyncing) inputs

end Stable

/-! ### The requests in flight over every run -/

omit [DecidableEq A] [Std.TransOrd A] [DecidableEq P] in
/-- A request for the pending mandatory block, or for a block at or below the best BEEFY
block, stays one: a call of the worker keeps the block pending or raises the best BEEFY block
to it, and the best BEEFY block never falls. -/
theorem stable_current : Stable env fun w (reqInfo : RequestInfo A) =>
    w.persistedState.votingOracle.mandatoryPending = some (reqInfo.block, reqInfo.activeSet) ∨
      reqInfo.block ≤ w.persistedState.votingOracle.bestBeefyBlock := by
  refine ⟨fun w w' reqInfo hkm hq _ => ?_, fun _ _ hmp => .inl hmp⟩
  rcases hq with hmp | hle
  · rcases hkm.mandatory _ hmp with hkept | ⟨hle', -⟩
    · exact .inl hkept
    · exact .inr hle'
  · exact .inr (hle.trans hkm.bestBeefy_le)

omit [DecidableEq A] [Std.TransOrd A] [DecidableEq P] in
/-- When the database writes succeed, a request for the pending mandatory block stays one:
the call that finalizes the block notifies a justification that cancels the request. -/
theorem stable_pending (hwrite : ∀ s, env.writeVoterState s = .ok ()) :
    Stable env fun w (reqInfo : RequestInfo A) =>
      w.persistedState.votingOracle.mandatoryPending = some (reqInfo.block, reqInfo.activeSet) := by
  refine ⟨fun w w' reqInfo hkm hmp hlt => ?_, fun _ _ hmp => hmp⟩
  rcases hkm.mandatory _ hmp with hkept | ⟨-, hnotified⟩
  · exact hkept
  · obtain ⟨j, hj, hjb⟩ := hnotified hwrite
    exact absurd (hlt j hj) (not_lt.mpr hjb)

/-- **Requests in flight, with nothing assumed.**  Over every run of the loop from a new
engine, in both builds, under any interleaving of finality notifications, answers,
justifications, votes, peer reports and changes to the peer book, and whatever the database
writes do: every request in flight is for the front session's pending mandatory block with
its validator set, or for a block at or below the best BEEFY block. -/
theorem requests_in_flight_current (w : Worker A S) (livePeers : KnownPeers P)
    (majorSyncing : Bool) (inputs : List (Input A S P)) :
    let v := (run env blsExperimental getSignedPayload decode verifyWithValidatorSet
      (Voter.new w livePeers) majorSyncing inputs).2
    ∀ peer reqInfo, v.onDemandJustifications.state = .awaitingResponse peer reqInfo →
      v.worker.persistedState.votingOracle.mandatoryPending =
          some (reqInfo.block, reqInfo.activeSet) ∨
        reqInfo.block ≤ v.worker.persistedState.votingOracle.bestBeefyBlock :=
  (inFlight_new _ w livePeers).run blsExperimental getSignedPayload decode verifyWithValidatorSet
    (stable_current env) majorSyncing inputs

/-- The voter of the examples: one validator, not us, at the genesis session starting at
block `1` with the best GRANDPA block at `5`; and one peer, `7`, that voted for round `3`. -/
theorem requests_in_flight_current_first_request :
    let w : Worker ℕ ℕ := ⟨⟨0, ⟨[Rounds.new 1 ⟨[0], [0], 0⟩], 1, 5, 0⟩, 1⟩, ∅, none, [], [], [], [], []⟩
    let env : Env ℕ ℕ := ⟨fun _ => .ok (), fun n => some n, fun _ => some 1, fun _ => none,
      fun _ => .ok ()⟩
    let v := (run env false (fun _ _ _ => .ok none) (fun _ => .error "") (fun _ _ _ => .ok ())
      (Voter.new w ⟨[(7, 3)], by decide⟩) false ([] : List (Input ℕ ℕ ℕ))).2
    v.onDemandJustifications.state = .awaitingResponse 7 ⟨1, ⟨[0], [0], 0⟩⟩ ∧
      (v.worker.persistedState.votingOracle.mandatoryPending = some (1, ⟨[0], [0], 0⟩) ∨
        1 ≤ v.worker.persistedState.votingOracle.bestBeefyBlock) := by
  intro w env v
  -- the first `process_new_state` asks peer `7` for the mandatory block
  have hstate : v.onDemandJustifications.state = .awaitingResponse 7 ⟨1, ⟨[0], [0], 0⟩⟩ := rfl
  exact ⟨hstate, requests_in_flight_current env false _ _ _ w _ false [] 7 _ hstate⟩

/-- **Requests in flight, when the writes succeed.**  Over every run of the loop from a new
engine, in both builds: every request in flight is for the front session's pending mandatory
block, with its validator set. -/
theorem requests_in_flight_pending (hwrite : ∀ s, env.writeVoterState s = .ok ())
    (w : Worker A S) (livePeers : KnownPeers P) (majorSyncing : Bool)
    (inputs : List (Input A S P)) :
    let v := (run env blsExperimental getSignedPayload decode verifyWithValidatorSet
      (Voter.new w livePeers) majorSyncing inputs).2
    ∀ peer reqInfo, v.onDemandJustifications.state = .awaitingResponse peer reqInfo →
      v.worker.persistedState.votingOracle.mandatoryPending =
        some (reqInfo.block, reqInfo.activeSet) :=
  (inFlight_new _ w livePeers).run blsExperimental getSignedPayload decode verifyWithValidatorSet
    (stable_pending env hwrite) majorSyncing inputs

/-- The voter of the examples, with successful writes. -/
theorem requests_in_flight_pending_first_request :
    let w : Worker ℕ ℕ := ⟨⟨0, ⟨[Rounds.new 1 ⟨[0], [0], 0⟩], 1, 5, 0⟩, 1⟩, ∅, none, [], [], [], [], []⟩
    let env : Env ℕ ℕ := ⟨fun _ => .ok (), fun n => some n, fun _ => some 1, fun _ => none,
      fun _ => .ok ()⟩
    let v := (run env false (fun _ _ _ => .ok none) (fun _ => .error "") (fun _ _ _ => .ok ())
      (Voter.new w ⟨[(7, 3)], by decide⟩) false ([] : List (Input ℕ ℕ ℕ))).2
    v.onDemandJustifications.state = .awaitingResponse 7 ⟨1, ⟨[0], [0], 0⟩⟩ ∧
      v.worker.persistedState.votingOracle.mandatoryPending = some (1, ⟨[0], [0], 0⟩) := by
  intro w env v
  have hstate : v.onDemandJustifications.state = .awaitingResponse 7 ⟨1, ⟨[0], [0], 0⟩⟩ := rfl
  exact ⟨hstate, requests_in_flight_pending env false _ _ _ (fun _ => rfl) w _ false [] 7 _ hstate⟩

/-! ### A request for the pending mandatory block is out -/

/-- When the writes succeed, `process_new_state` outside a major sync leaves a request in
flight for the pending mandatory block, unless no peer in the book voted above it. -/
theorem processNewState_requests_mandatory (hwrite : ∀ s, env.writeVoterState s = .ok ())
    {v : Voter A S P}
    (h : InFlight (fun w (reqInfo : RequestInfo A) =>
      w.persistedState.votingOracle.mandatoryPending = some (reqInfo.block, reqInfo.activeSet)) v) :
    let v' := (processNewState env blsExperimental getSignedPayload v false).1
    ∀ m vs, v'.worker.persistedState.votingOracle.mandatoryPending = some (m, vs) →
      (∃ peer, v'.onDemandJustifications.state = .awaitingResponse peer ⟨m, vs⟩) ∨
        v'.onDemandJustifications.livePeers.furtherThan m = [] := by
  have hQ := stable_pending env hwrite
  -- the voter after the buffered justifications and our vote
  have h₂ := (h.afterWorker hQ (keepsMandatory_tryPendingJustifications env v.worker)).afterWorker
    hQ (keepsMandatory_tryToVote env blsExperimental getSignedPayload _)
  dsimp only [Voter.processNewState]
  rw [if_neg Bool.false_ne_true]
  split
  · rename_i block active hmp
    intro m vs hmp'
    obtain ⟨rfl, rfl⟩ := Prod.mk.inj (Option.some.inj (hmp.symm.trans hmp'))
    -- a request in flight is already for the block, with its set
    refine OnDemandJustificationsEngine.request_awaits _ _ _ fun peer reqInfo hstate => ?_
    obtain ⟨hblock, hactive⟩ := Prod.mk.inj (Option.some.inj (hmp.symm.trans (h₂ peer reqInfo hstate)))
    rw [hblock, hactive]
  · rename_i hnone
    intro m vs hmp'
    rw [hnone] at hmp'
    cases hmp'

/-- When the writes succeed, a turn whose branch falls through to `process_new_state`
outside a major sync leaves a request in flight for the pending mandatory block, unless no
peer in the book voted above it. -/
theorem turn_requests_mandatory (hwrite : ∀ s, env.writeVoterState s = .ok ())
    {v : Voter A S P}
    (h : InFlight (fun w (reqInfo : RequestInfo A) =>
      w.persistedState.votingOracle.mandatoryPending = some (reqInfo.block, reqInfo.activeSet)) v)
    (input : Input A S P) (hexit : v.exit = none)
    (hflow : (handleEvent env decode verifyWithValidatorSet v input.event).2.2 = .processNewState)
    (hsync : input.majorSyncing = false) :
    let v' := (turn env blsExperimental getSignedPayload decode verifyWithValidatorSet v input).2
    ∀ m vs, v'.worker.persistedState.votingOracle.mandatoryPending = some (m, vs) →
      (∃ peer, v'.onDemandJustifications.state = .awaitingResponse peer ⟨m, vs⟩) ∨
        v'.onDemandJustifications.livePeers.furtherThan m = [] := by
  have hbranch := h.handleEvent decode verifyWithValidatorSet (stable_pending env hwrite)
    input.event
  dsimp only [Voter.turn]
  rw [hexit]
  dsimp only
  rw [hflow, hsync]
  exact processNewState_requests_mandatory env blsExperimental getSignedPayload hwrite hbranch

/-- **A request for the pending mandatory block is out.**  When the database writes succeed,
after every turn of every run of the loop from a new engine whose branch falls through to
`process_new_state` outside a major sync (a finality notification, a valid answer, an
imported or gossiped justification, a gossiped vote), in both builds: if a mandatory block is
pending, the engine awaits an answer for it, with its validator set, from some peer, or no
peer in the book voted above it. -/
theorem mandatory_block_requested (hwrite : ∀ s, env.writeVoterState s = .ok ())
    (w : Worker A S) (livePeers : KnownPeers P) (majorSyncing : Bool)
    (inputs : List (Input A S P)) (input : Input A S P)
    (hexit : (run env blsExperimental getSignedPayload decode verifyWithValidatorSet
      (Voter.new w livePeers) majorSyncing inputs).2.exit = none)
    (hflow : (handleEvent env decode verifyWithValidatorSet
      (run env blsExperimental getSignedPayload decode verifyWithValidatorSet
        (Voter.new w livePeers) majorSyncing inputs).2 input.event).2.2 = .processNewState)
    (hsync : input.majorSyncing = false) :
    let v := (turn env blsExperimental getSignedPayload decode verifyWithValidatorSet
      (run env blsExperimental getSignedPayload decode verifyWithValidatorSet
        (Voter.new w livePeers) majorSyncing inputs).2 input).2
    ∀ m vs, v.worker.persistedState.votingOracle.mandatoryPending = some (m, vs) →
      (∃ peer, v.onDemandJustifications.state = .awaitingResponse peer ⟨m, vs⟩) ∨
        v.onDemandJustifications.livePeers.furtherThan m = [] :=
  turn_requests_mandatory env blsExperimental getSignedPayload decode verifyWithValidatorSet hwrite
    ((inFlight_new _ w livePeers).run blsExperimental getSignedPayload decode
      verifyWithValidatorSet (stable_pending env hwrite) majorSyncing inputs)
    input hexit hflow hsync

/-- The voter of the examples receives a gossiped vote for a later round, during a major
sync at its start and outside one at the vote: the request for the mandatory block goes out
only then. -/
theorem mandatory_block_requested_after_vote :
    let w : Worker ℕ ℕ := ⟨⟨0, ⟨[Rounds.new 1 ⟨[0], [0], 0⟩], 1, 5, 0⟩, 1⟩, ∅, none, [], [], [], [], []⟩
    let env : Env ℕ ℕ := ⟨fun _ => .ok (), fun n => some n, fun _ => some 1, fun _ => none,
      fun _ => .ok ()⟩
    let input : Input ℕ ℕ ℕ := ⟨.vote (some ⟨⟨⟨[]⟩, 9, 0⟩, 1, 0⟩), false⟩
    let v₀ := (run env false (fun _ _ _ => .ok none) (fun _ => .error "") (fun _ _ _ => .ok ())
      (Voter.new w ⟨[(7, 3)], by decide⟩) true ([] : List (Input ℕ ℕ ℕ))).2
    let v := (turn env false (fun _ _ _ => .ok none) (fun _ => .error "") (fun _ _ _ => .ok ())
      v₀ input).2
    v₀.onDemandJustifications.state = .idle ∧
      v.worker.persistedState.votingOracle.mandatoryPending = some (1, ⟨[0], [0], 0⟩) ∧
      ((∃ peer, v.onDemandJustifications.state = .awaitingResponse peer ⟨1, ⟨[0], [0], 0⟩⟩) ∨
        v.onDemandJustifications.livePeers.furtherThan 1 = []) := by
  intro w env input
  exact ⟨rfl, rfl, mandatory_block_requested env false _ _ _ (fun _ => rfl) w _ true [] input rfl
    rfl rfl 1 _ rfl⟩

/-! ### The worker's steps in the loop -/

section Steps

variable (payload : ℕ → Option Payload) (sign : A → Commitment → Except String S)

omit [Std.TransOrd A] in
/-- `process_new_state` moves the worker by the steps of `Worker.Step`: the buffered
justifications, then our vote. -/
theorem processNewState_steps (v : Voter A S P) (majorSyncing : Bool) :
    Relation.ReflTransGen (Step env payload sign) v.worker
      (processNewState env false (getSignedPayloadEcdsa payload sign) v majorSyncing).1.worker := by
  have h₁ : Relation.ReflTransGen (Step env payload sign) v.worker
      (tryPendingJustifications env v.worker).1 := .single .pendingJustifications
  dsimp only [Voter.processNewState]
  split
  · exact h₁
  split <;> exact h₁.tail .vote

omit [Std.TransOrd A] in
/-- The branch of an event moves the worker by at most one step of `Worker.Step`, when a
finality notification it handles is one the chain gives. -/
theorem handleEvent_steps (v : Voter A S P) (event : Event A S P)
    (hok : ∀ header treeRoute, event = .finalityNotification (some (header, treeRoute)) →
      NotificationOk v.worker header treeRoute) :
    Relation.ReflTransGen (Step env payload sign) v.worker
      (handleEvent env decode verifyWithValidatorSet v event).1.worker := by
  cases event with
  | finalityNotification notification =>
    rcases notification with _ | ⟨header, treeRoute⟩
    · exact .refl
    dsimp only [Voter.handleEvent]
    have hstep : Step env payload sign v.worker
        (handleFinalityNotification env v.worker header treeRoute).1 :=
      .finalityNotification (hok header treeRoute rfl)
    split <;> exact .single hstep
  | onDemandResponse response =>
    dsimp only [Voter.handleEvent]
    split
    · exact .single (.incomingJustif _)
    · exact .refl
    · exact .refl
    · exact .refl
  | blockImportJustif justif =>
    rcases justif with _ | justif
    · exact .refl
    · exact .single (.incomingJustif justif)
  | gossipProof justif =>
    rcases justif with _ | justif
    · exact .refl
    · exact .single (.incomingJustif justif)
  | vote vote =>
    rcases vote with _ | vote
    · exact .refl
    · exact .single (.incomingVote vote)
  | gossipEngineTerminated | gossipReport _ | noteVoteFor _ _ | peerDisconnected _ => exact .refl

omit [Std.TransOrd A] in
/-- **The loop refines the worker's steps.**  A turn of the loop (build without
`bls-experimental`) moves the worker by steps of `Worker.Step`, when a finality notification
it handles is one the chain gives. -/
theorem turn_steps (v : Voter A S P) (input : Input A S P)
    (hok : ∀ header treeRoute, input.event = .finalityNotification (some (header, treeRoute)) →
      NotificationOk v.worker header treeRoute) :
    Relation.ReflTransGen (Step env payload sign) v.worker
      (turn env false (getSignedPayloadEcdsa payload sign) decode verifyWithValidatorSet v
        input).2.worker := by
  have hbranch := handleEvent_steps env decode verifyWithValidatorSet payload sign v input.event hok
  dsimp only [Voter.turn]
  split
  · exact .refl
  split
  · exact hbranch
  · exact hbranch
  · exact hbranch.trans (processNewState_steps env payload sign _ _)

/-- **Session-ordered finalization over the loop** (build without `bls-experimental`).  From
a state `checked_new` accepts, in one of the three documented states and caught up, with a
new engine: over every run of the loop whose finality notifications are the chain's, under
any interleaving of the other events, every block the loop finalizes, whether from a vote,
an imported or gossiped justification or an answer of the engine, is session-ordered, and
the oracle stays caught up. -/
theorem loop_session_ordered_finalization {grandpa bestBeefy minBlockDelta palletGenesis : ℕ}
    {sessions : List (Rounds A S)} {p : PersistedState A S}
    (hp : PersistedState.checkedNew grandpa bestBeefy sessions minBlockDelta palletGenesis = some p)
    (hpruned : VoterOracle.Pruned p.votingOracle) (hcaught : p.votingOracle.CaughtUp)
    {w₀ : Worker A S} (hw₀ : w₀.persistedState = p) (hpend : w₀.pendingJustifications = ∅)
    (hlog : w₀.finalized = []) (livePeers : KnownPeers P) (majorSyncing : Bool)
    (inputs : List (Input A S P))
    (hok : ∀ k (hk : k < inputs.length) header treeRoute,
      inputs[k].event = .finalityNotification (some (header, treeRoute)) →
        NotificationOk (run env false (getSignedPayloadEcdsa payload sign) decode
          verifyWithValidatorSet (Voter.new w₀ livePeers) majorSyncing (inputs.take k)).2.worker
          header treeRoute) :
    let w := (run env false (getSignedPayloadEcdsa payload sign) decode verifyWithValidatorSet
      (Voter.new w₀ livePeers) majorSyncing inputs).2.worker
    (∀ x ∈ w.finalized, x.2.SessionOrdered x.1) ∧ w.persistedState.votingOracle.CaughtUp := by
  -- every prefix of the run moves the worker by the steps of `Worker.Step`
  have hsteps := Run.runFrom_take_invariant
    (P := fun v : Voter A S P => Relation.ReflTransGen (Step env payload sign) w₀ v.worker)
    (processNewState_steps env payload sign (Voter.new w₀ livePeers) majorSyncing) inputs
    fun k hk hv => hv.trans (turn_steps env decode verifyWithValidatorSet payload sign _ _
      (hok k hk))
  have hrun := hsteps inputs.length le_rfl
  rw [List.take_length] at hrun
  have hinv := inv_of_reflTransGen env (inv_init hp hpruned hcaught hw₀ hpend hlog) hrun
  exact ⟨hinv.finalized, hinv.sound.caughtUp⟩

/-- One validator, ours, at the genesis session starting at block `1`, with the best GRANDPA
block at `5`: the first `process_new_state` votes on and finalizes the mandatory block `1`;
then a finality notification of block `6` and a vote on, and finalization of, block `5`. -/
theorem loop_session_ordered_finalization_two_votes :
    let p : PersistedState ℕ ℕ := ⟨0, ⟨[Rounds.new 1 ⟨[0], [0], 0⟩], 1, 5, 0⟩, 1⟩
    let env : Env ℕ ℕ :=
      ⟨fun _ => .ok (), fun n => some n, fun _ => some 1, fun vs => vs.head?, fun _ => .ok ()⟩
    let w := (run env false (getSignedPayloadEcdsa (fun _ => some ⟨[]⟩) fun _ _ => .ok 0)
      (fun _ => .error "") (fun _ _ _ => .ok ()) (Voter.new ⟨p, ∅, none, [], [], [], [], []⟩
        (KnownPeers.new : KnownPeers ℕ)) false [⟨.finalityNotification (some (⟨6, []⟩, [])), false⟩]).2.worker
    w.finalized.map Prod.fst = [1, 5] ∧
      (∀ x ∈ w.finalized, x.2.SessionOrdered x.1) ∧ w.persistedState.votingOracle.CaughtUp := by
  intro p env w
  have hp : PersistedState.checkedNew 5 0 [Rounds.new 1 ⟨[0], [0], 0⟩] 1 1 = some p := rfl
  have hpruned : VoterOracle.Pruned p.votingOracle := fun hlen => absurd hlen (by decide)
  have hcaught : p.votingOracle.CaughtUp := by
    intro front hfront hle
    have hfront' : Rounds.new 1 ⟨[0], [0], 0⟩ = front := by simpa [p] using hfront
    subst hfront'
    exact absurd hle (by decide)
  refine ⟨by decide +kernel, loop_session_ordered_finalization env _ _ _ _ hp hpruned hcaught rfl
    rfl rfl _ false _ ?_⟩
  -- the notification is the chain's: one header above the best GRANDPA block, no new set
  intro k hk header treeRoute hevent
  obtain rfl : k = 0 := by simpa using hk
  obtain ⟨rfl, rfl⟩ : (⟨6, []⟩ : Header ℕ) = header ∧ ([] : List (Header ℕ)) = treeRoute := by
    simpa using hevent
  have hnone : findAuthoritiesChange (⟨6, []⟩ : Header ℕ) = none := rfl
  exact ⟨by simp, by simp, by simp [hnone], by simp [hnone], by simp [hnone]⟩

end Steps

end Voter

end BeefyEtf
