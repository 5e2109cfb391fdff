/-
The on-demand justification engine
(`communication/request_response/outgoing_requests_engine.rs`).

While the front session waits for its mandatory block, the worker asks the engine for that
block's justification.  The engine keeps at most one request in flight.  It asks the peers
that voted above the block, one at a time, and moves to the next peer after every failed or
invalid answer, until none is left.  It shares the peer book with the gossip validator,
which changes it at any time.

* `asked_once` — since the engine last started a request, the peers it asked are distinct,
  and each one had voted above the block when the request started; so it asks at most as
  many peers as had;
* `valid_proofs_requested` — a justification the engine hands to the worker verifies
  against the block and the validator set of a request the worker made.
-/
import BeefyEtf.Gossip
import BeefyEtf.Run

namespace BeefyEtf

open Run

namespace KnownPeers

variable {P : Type*}

/-- The peers that voted above `block` appear in the order of the peer book. -/
theorem furtherThan_sublist (k : KnownPeers P) (block : ℕ) :
    (k.furtherThan block).Sublist (k.live.map Prod.fst) := by
  unfold furtherThan
  induction k.live with
  | nil => exact List.Sublist.slnil
  | cons e live ih =>
    by_cases h : e.2 > block
    · simpa [List.filterMap_cons, h] using ih.cons_cons e.1
    · simpa [List.filterMap_cons, h] using ih.cons e.1

/-- The peers that voted above a block are distinct. -/
theorem furtherThan_nodup (k : KnownPeers P) (block : ℕ) : (k.furtherThan block).Nodup :=
  k.nodup.sublist (k.furtherThan_sublist block)

/-- The peers that voted above a block are in the book. -/
theorem contains_of_mem_furtherThan [DecidableEq P] {k : KnownPeers P} {block : ℕ} {peer : P}
    (h : peer ∈ k.furtherThan block) : k.contains peer = true :=
  decide_eq_true ((k.furtherThan_sublist block).subset h)

end KnownPeers

/-- `decode_and_verify_finality_proof`: decode the whole response as a justification and
verify it against the validator set at the target block. -/
def decodeAndVerifyFinalityProof {A S : Type*}
    (decode : List UInt8 → Except String (VersionedFinalityProof S × List UInt8))
    (verifyWithValidatorSet : ℕ → ValidatorSet A → VersionedFinalityProof S →
      Except (ConsensusError × ℕ) Unit)
    (encoded : List UInt8) (targetNumber : ℕ) (validatorSet : ValidatorSet A) :
    Except (ConsensusError × ℕ) (VersionedFinalityProof S) :=
  match decodeAll decode encoded with
  | .error _ => .error (.invalidJustification, 0)
  | .ok (proof, _) => (verifyWithValidatorSet targetNumber validatorSet proof).map fun _ => proof

/-- `RequestFailure` of the network's request-response protocol. -/
inductive RequestFailure where
  | notConnected
  | unknownProtocol
  | refused
  | obsolete
  | network
  deriving DecidableEq, Repr

namespace OnDemand

/-- `RequestInfo`: the block asked for and the set its justification is checked against. -/
structure RequestInfo (A : Type*) where
  block : ℕ
  activeSet : ValidatorSet A

/-- `State` of the engine.  The receiver of the pending answer is the network's: it answers
through `next`. -/
inductive State (A P : Type*) where
  | idle
  | awaitingResponse (peer : P) (reqInfo : RequestInfo A)

/-- `ResponseInfo`: what `next` hands to the worker. -/
inductive ResponseInfo (S P : Type*) where
  | pending
  | validProof (proof : VersionedFinalityProof S) (peerReport : PeerReport P)
  | peerReport (peerReport : PeerReport P)

/-- The two variants of `request_response::Error` that answers produce. -/
inductive Error (P : Type*) where
  | responseError
  | invalidResponse (peerReport : PeerReport P)

/-- The loop of `try_next_peer`: pop the peers cache until a peer that is still
connected; with the cache that is left. -/
def popLivePeer {P : Type*} [DecidableEq P] (live : KnownPeers P) :
    List P → Option P × List P
  | [] => (none, [])
  | peer :: peersCache =>
    if live.contains peer then (some peer, peersCache) else popLivePeer live peersCache

variable {P : Type*} [DecidableEq P]

/-- The peer popped, followed by the cache that is left, is part of the cache. -/
theorem popLivePeer_sublist (live : KnownPeers P) (peersCache : List P) :
    ((popLivePeer live peersCache).1.toList ++ (popLivePeer live peersCache).2).Sublist
      peersCache := by
  induction peersCache with
  | nil => exact List.Sublist.slnil
  | cons peer peersCache ih =>
    unfold popLivePeer
    split
    · exact List.Sublist.refl _
    · exact ih.cons peer

end OnDemand

open OnDemand

/-- `OnDemandJustificationsEngine`: the peer book it shares with the gossip validator, the
peers left to ask, its state; and, as proof-only ghost state, the peers the cache held when
the current request started and those asked since. -/
structure OnDemandJustificationsEngine (A P : Type*) where
  livePeers : KnownPeers P
  peersCache : List P
  state : OnDemand.State A P
  candidates : List P
  asked : List P

namespace OnDemandJustificationsEngine

variable {A S P : Type*} [DecidableEq P]

/-- `OnDemandJustificationsEngine::new`. -/
def new (livePeers : KnownPeers P) : OnDemandJustificationsEngine A P :=
  ⟨livePeers, [], .idle, [], []⟩

/-- `reset_peers_cache_for_block`: the peers that voted above `block`. -/
def resetPeersCacheForBlock (e : OnDemandJustificationsEngine A P) (block : ℕ) :
    OnDemandJustificationsEngine A P :=
  { e with
      peersCache := e.livePeers.furtherThan block
      candidates := e.livePeers.furtherThan block
      asked := [] }

/-- `request_from_peer`: start the request on the network and wait for its answer.
Returns the request sent: the peer and the block it begins at. -/
def requestFromPeer (e : OnDemandJustificationsEngine A P) (peer : P)
    (reqInfo : RequestInfo A) : OnDemandJustificationsEngine A P × (P × ℕ) :=
  ({ e with state := .awaitingResponse peer reqInfo, asked := e.asked ++ [peer] },
    (peer, reqInfo.block))

/-- `try_next_peer` followed by `request_from_peer` when it finds a peer, as both
`request` and `next` do. -/
def requestFromNextPeer (e : OnDemandJustificationsEngine A P) (reqInfo : RequestInfo A) :
    OnDemandJustificationsEngine A P × Option (P × ℕ) :=
  match popLivePeer e.livePeers e.peersCache with
  | (some peer, peersCache) =>
    let r := { e with peersCache := peersCache }.requestFromPeer peer reqInfo
    (r.1, some r.2)
  -- no good peer left to request from
  | (none, peersCache) => ({ e with peersCache := peersCache }, none)

/-- `request`: start a request for `block`, unless one is in flight. -/
def request (e : OnDemandJustificationsEngine A P) (block : ℕ) (activeSet : ValidatorSet A) :
    OnDemandJustificationsEngine A P × Option (P × ℕ) :=
  match e.state with
  | .awaitingResponse _ _ => (e, none)
  | .idle => (e.resetPeersCacheForBlock block).requestFromNextPeer ⟨block, activeSet⟩

/-- `cancel_requests_older_than`. -/
def cancelRequestsOlderThan (e : OnDemandJustificationsEngine A P) (block : ℕ) :
    OnDemandJustificationsEngine A P :=
  match e.state with
  | .awaitingResponse _ reqInfo =>
    if reqInfo.block ≤ block then { e with state := .idle } else e
  | .idle => e

section Response

variable (decode : List UInt8 → Except String (VersionedFinalityProof S × List UInt8))
  (verifyWithValidatorSet : ℕ → ValidatorSet A → VersionedFinalityProof S →
    Except (ConsensusError × ℕ) Unit)

/-- `process_response`: `none` is a closed channel; a refusal and an invalid proof are the
peer's fault and reported. -/
def processResponse (peer : P) (reqInfo : RequestInfo A)
    (response : Option (Except RequestFailure (List UInt8))) :
    Except (OnDemand.Error P) (VersionedFinalityProof S) :=
  match response with
  | none => .error .responseError
  | some (.error .refused) => .error (.invalidResponse ⟨peer, Cost.refusalResponse⟩)
  | some (.error _) => .error .responseError
  | some (.ok encoded) =>
    match decodeAndVerifyFinalityProof decode verifyWithValidatorSet encoded reqInfo.block
        reqInfo.activeSet with
    | .error (_, signaturesChecked) =>
      .error (.invalidResponse ⟨peer, Cost.invalidProofChecked signaturesChecked⟩)
    | .ok proof => .ok proof

/-- `next` with the network's answer to the request in flight.  Without one the source's
future never completes: nothing happens.  Returns the engine, what it hands to the worker,
and the request it sends to the next peer, if any. -/
def next (e : OnDemandJustificationsEngine A P)
    (response : Option (Except RequestFailure (List UInt8))) :
    OnDemandJustificationsEngine A P × Option (ResponseInfo S P) × Option (P × ℕ) :=
  match e.state with
  | .idle => (e, none, none)
  | .awaitingResponse peer reqInfo =>
    let e := { e with state := .idle }
    match processResponse decode verifyWithValidatorSet peer reqInfo response with
    | .error err =>
      -- no valid justification received: try the next peer
      let r := e.requestFromNextPeer reqInfo
      match err with
      | .invalidResponse peerReport => (r.1, some (.peerReport peerReport), r.2)
      | .responseError => (r.1, some .pending, r.2)
    | .ok proof => (e, some (.validProof proof ⟨peer, Benefit.validatedProof⟩), none)

end Response

end OnDemandJustificationsEngine

/-- A call into the engine: the worker's requests, cancellations and waits for an answer,
and the gossip validator's changes to the peer book it shares. -/
inductive OnDemandCall (A P : Type*) where
  | request (block : ℕ) (activeSet : ValidatorSet A)
  | cancelRequestsOlderThan (block : ℕ)
  | next (response : Option (Except RequestFailure (List UInt8)))
  | noteVoteFor (peer : P) (round : ℕ)
  | peerDisconnected (peer : P)

/-- What a call returns: the request it sent on the network, and what it handed to the
worker. -/
structure OnDemandReply (S P : Type*) where
  sent : Option (P × ℕ)
  response : Option (ResponseInfo S P)

namespace OnDemandJustificationsEngine

variable {A S P : Type*} [DecidableEq P]
  (decode : List UInt8 → Except String (VersionedFinalityProof S × List UInt8))
  (verifyWithValidatorSet : ℕ → ValidatorSet A → VersionedFinalityProof S →
    Except (ConsensusError × ℕ) Unit)

/-- One call into the engine. -/
def call (e : OnDemandJustificationsEngine A P) :
    OnDemandCall A P → OnDemandReply S P × OnDemandJustificationsEngine A P
  | .request block activeSet =>
    let r := e.request block activeSet
    (⟨r.2, none⟩, r.1)
  | .cancelRequestsOlderThan block => (⟨none, none⟩, e.cancelRequestsOlderThan block)
  | .next response =>
    let r := e.next decode verifyWithValidatorSet response
    (⟨r.2.2, r.2.1⟩, r.1)
  | .noteVoteFor peer round =>
    (⟨none, none⟩, { e with livePeers := e.livePeers.noteVoteFor peer round })
  | .peerDisconnected peer => (⟨none, none⟩, { e with livePeers := e.livePeers.remove peer })

/-- The block a call starts a new request for: a `request` while none is in flight. -/
def startedBlock (e : OnDemandJustificationsEngine A P) : OnDemandCall A P → Option ℕ
  | .request block _ =>
    match e.state with
    | .idle => some block
    | .awaitingResponse _ _ => none
  | _ => none

/-! ### Asking the next peer -/

omit [DecidableEq P] in
@[simp] theorem requestFromPeer_candidates (e : OnDemandJustificationsEngine A P) (peer : P)
    (reqInfo : RequestInfo A) : (e.requestFromPeer peer reqInfo).1.candidates = e.candidates :=
  rfl

/-- What asking the next peer does: the peer popped from the cache, if any, is asked the
request and becomes the one awaited; the peer book and the candidates stay. -/
theorem requestFromNextPeer_eq (e : OnDemandJustificationsEngine A P) (reqInfo : RequestInfo A) :
    (e.requestFromNextPeer reqInfo).1.livePeers = e.livePeers ∧
      (e.requestFromNextPeer reqInfo).1.candidates = e.candidates ∧
      (e.requestFromNextPeer reqInfo).1.peersCache = (popLivePeer e.livePeers e.peersCache).2 ∧
      (e.requestFromNextPeer reqInfo).1.asked =
        e.asked ++ (popLivePeer e.livePeers e.peersCache).1.toList ∧
      (e.requestFromNextPeer reqInfo).2 =
        (popLivePeer e.livePeers e.peersCache).1.map (fun peer => (peer, reqInfo.block)) ∧
      (e.requestFromNextPeer reqInfo).1.state =
        ((popLivePeer e.livePeers e.peersCache).1.map
          (fun peer => State.awaitingResponse peer reqInfo)).getD e.state := by
  unfold requestFromNextPeer
  rcases popLivePeer e.livePeers e.peersCache with ⟨_ | peer, peersCache⟩
  · simp
  · simp [requestFromPeer]

/-- Asking the next peer keeps the peers asked and those left within the candidates. -/
theorem requestFromNextPeer_sublist (e : OnDemandJustificationsEngine A P)
    (reqInfo : RequestInfo A) :
    ((e.requestFromNextPeer reqInfo).1.asked ++
        (e.requestFromNextPeer reqInfo).1.peersCache).Sublist (e.asked ++ e.peersCache) := by
  obtain ⟨-, -, hcache, hasked, -⟩ := e.requestFromNextPeer_eq reqInfo
  rw [hcache, hasked, List.append_assoc]
  exact (popLivePeer_sublist e.livePeers e.peersCache).append_left e.asked

/-! ### What a call can do -/

/-- What `request` can do: nothing while a request is in flight; otherwise take the peers
that voted above the block as the cache and ask the first connected one. -/
theorem request_cases (e : OnDemandJustificationsEngine A P) (block : ℕ)
    (activeSet : ValidatorSet A) :
    (∃ peer reqInfo, e.state = .awaitingResponse peer reqInfo ∧
        e.request block activeSet = (e, none)) ∨
      (e.state = .idle ∧ e.request block activeSet =
        (e.resetPeersCacheForBlock block).requestFromNextPeer ⟨block, activeSet⟩) := by
  rcases hstate : e.state with _ | ⟨peer, reqInfo⟩
  · exact .inr ⟨rfl, by simp only [request, hstate]⟩
  · exact .inl ⟨peer, reqInfo, rfl, by simp only [request, hstate]⟩

/-- What `next` can do: nothing while idle; with a request in flight, end it, either handing
over the answer when it verifies, or reporting the failure (or nothing) and asking the next
peer. -/
theorem next_cases (e : OnDemandJustificationsEngine A P)
    (response : Option (Except RequestFailure (List UInt8))) :
    (e.state = .idle ∧ e.next decode verifyWithValidatorSet response = (e, none, none)) ∨
      ∃ peer reqInfo, e.state = .awaitingResponse peer reqInfo ∧
        ((∃ proof, processResponse decode verifyWithValidatorSet peer reqInfo response = .ok proof ∧
            e.next decode verifyWithValidatorSet response =
              ({ e with state := .idle }, some (.validProof proof ⟨peer, Benefit.validatedProof⟩),
                none)) ∨
          ∃ info : ResponseInfo S P,
            (info = .pending ∨ ∃ peerReport, info = .peerReport peerReport) ∧
            e.next decode verifyWithValidatorSet response =
              (({ e with state := .idle }.requestFromNextPeer reqInfo).1, some info,
                ({ e with state := .idle }.requestFromNextPeer reqInfo).2)) := by
  rcases hstate : e.state with _ | ⟨peer, reqInfo⟩
  · exact .inl ⟨rfl, by simp only [next, hstate]⟩
  refine .inr ⟨peer, reqInfo, rfl, ?_⟩
  -- the answer decides between handing it over and asking the next peer
  rcases hresponse : processResponse decode verifyWithValidatorSet peer reqInfo response with
    (_ | peerReport) | proof
  · exact .inr ⟨.pending, .inl rfl, by simp only [next, hstate, hresponse]⟩
  · exact .inr ⟨.peerReport peerReport, .inr ⟨peerReport, rfl⟩,
      by simp only [next, hstate, hresponse]⟩
  · exact .inl ⟨proof, rfl, by simp only [next, hstate, hresponse]⟩

omit [DecidableEq P] in
/-- Cancelling changes only the state. -/
theorem cancelRequestsOlderThan_frame (e : OnDemandJustificationsEngine A P) (block : ℕ) :
    (e.cancelRequestsOlderThan block).candidates = e.candidates ∧
      (e.cancelRequestsOlderThan block).asked = e.asked ∧
      (e.cancelRequestsOlderThan block).peersCache = e.peersCache := by
  unfold cancelRequestsOlderThan
  split
  · split <;> exact ⟨rfl, rfl, rfl⟩
  · exact ⟨rfl, rfl, rfl⟩

omit [DecidableEq P] in
/-- After `cancel_requests_older_than block`, no request at or below `block` is in
flight. -/
theorem cancelRequestsOlderThan_state {e : OnDemandJustificationsEngine A P} {block : ℕ}
    {peer : P} {reqInfo : RequestInfo A}
    (h : (e.cancelRequestsOlderThan block).state = .awaitingResponse peer reqInfo) :
    block < reqInfo.block ∧ e.state = .awaitingResponse peer reqInfo := by
  unfold cancelRequestsOlderThan at h
  split at h
  · rename_i peer' reqInfo' hstate
    split at h
    · cases h
    · rename_i hle
      rw [hstate] at h
      cases h
      exact ⟨by omega, hstate⟩
  · rename_i hstate
    rw [hstate] at h
    cases h

/-! ### The peers asked since the request started -/

omit [DecidableEq P] in
/-- The peers asked since the current request started, followed by those left to ask, are
among the candidates, which are distinct. -/
structure AskedOnce (e : OnDemandJustificationsEngine A P) : Prop where
  sublist : (e.asked ++ e.peersCache).Sublist e.candidates
  nodup : e.candidates.Nodup

omit [DecidableEq P] in
theorem askedOnce_new (livePeers : KnownPeers P) :
    AskedOnce (new livePeers : OnDemandJustificationsEngine A P) :=
  ⟨List.Sublist.slnil, List.nodup_nil⟩

omit [DecidableEq P] in
/-- Starting a request takes the peers that voted above its block as candidates. -/
theorem askedOnce_resetPeersCacheForBlock (e : OnDemandJustificationsEngine A P) (block : ℕ) :
    AskedOnce (e.resetPeersCacheForBlock block) := by
  refine ⟨?_, e.livePeers.furtherThan_nodup block⟩
  dsimp only [resetPeersCacheForBlock]
  rw [List.nil_append]

theorem AskedOnce.requestFromNextPeer {e : OnDemandJustificationsEngine A P} (h : AskedOnce e)
    (reqInfo : RequestInfo A) : AskedOnce (e.requestFromNextPeer reqInfo).1 := by
  obtain ⟨-, hcandidates, -⟩ := e.requestFromNextPeer_eq reqInfo
  refine ⟨?_, ?_⟩
  · rw [hcandidates]
    exact (e.requestFromNextPeer_sublist reqInfo).trans h.sublist
  · rw [hcandidates]
    exact h.nodup

/-- **One step of the engine.**  Every call keeps the peers asked among the candidates. -/
theorem AskedOnce.call {e : OnDemandJustificationsEngine A P} (h : AskedOnce e)
    (c : OnDemandCall A P) : AskedOnce (e.call decode verifyWithValidatorSet c).2 := by
  -- the calls that leave the peers asked, the cache and the candidates as they are
  have hsame : ∀ e' : OnDemandJustificationsEngine A P, e'.asked = e.asked →
      e'.peersCache = e.peersCache → e'.candidates = e.candidates → AskedOnce e' := by
    intro e' hasked hcache hcandidates
    exact ⟨hasked ▸ hcache ▸ hcandidates ▸ h.sublist, hcandidates ▸ h.nodup⟩
  cases c with
  | request block activeSet =>
    show AskedOnce (e.request block activeSet).1
    rcases e.request_cases block activeSet with ⟨-, -, -, hrequest⟩ | ⟨-, hrequest⟩
    · rw [hrequest]
      exact h
    · rw [hrequest]
      exact (askedOnce_resetPeersCacheForBlock e block).requestFromNextPeer _
  | cancelRequestsOlderThan block =>
    obtain ⟨hcandidates, hasked, hcache⟩ := e.cancelRequestsOlderThan_frame block
    exact hsame _ hasked hcache hcandidates
  | next response =>
    show AskedOnce (e.next decode verifyWithValidatorSet response).1
    have hidle : AskedOnce { e with state := .idle } := hsame _ rfl rfl rfl
    rcases e.next_cases decode verifyWithValidatorSet response with
      ⟨-, hnext⟩ | ⟨peer, reqInfo, -, ⟨proof, -, hnext⟩ | ⟨info, -, hnext⟩⟩
    · rw [hnext]
      exact h
    · rw [hnext]
      exact hidle
    · -- a failed answer asks the next peer
      rw [hnext]
      exact hidle.requestFromNextPeer reqInfo
  | noteVoteFor peer round => exact hsame _ rfl rfl rfl
  | peerDisconnected peer => exact hsame _ rfl rfl rfl

/-- **Each peer once.**  In every run of the engine, the peers asked since the current
request started are distinct, each of them among the peers that had voted above its block
when it started, and no more than those. -/
theorem asked_once (livePeers : KnownPeers P) (calls : List (OnDemandCall A P)) :
    ((runFrom (call decode verifyWithValidatorSet) (new livePeers) calls).2.asked).Nodup ∧
      (∀ peer ∈ (runFrom (call decode verifyWithValidatorSet) (new livePeers) calls).2.asked,
        peer ∈ (runFrom (call decode verifyWithValidatorSet) (new livePeers) calls).2.candidates) ∧
      (runFrom (call decode verifyWithValidatorSet) (new livePeers) calls).2.asked.length ≤
        (runFrom (call decode verifyWithValidatorSet) (new livePeers) calls).2.candidates.length := by
  have h := @runFrom_invariant _ _ _ (call decode verifyWithValidatorSet) AskedOnce
    (fun _ c h => h.call decode verifyWithValidatorSet c) _ (askedOnce_new livePeers) calls
  -- the peers asked alone are part of the candidates
  have hasked := (List.sublist_append_left _ _).trans h.sublist
  exact ⟨h.nodup.sublist hasked, fun peer hpeer => hasked.subset hpeer, hasked.length_le⟩

/-! ### The justifications handed to the worker -/

omit [DecidableEq P] in
/-- A decoded and verified response verifies against the target block's set. -/
theorem decodeAndVerifyFinalityProof_eq_ok {encoded : List UInt8} {targetNumber : ℕ}
    {validatorSet : ValidatorSet A} {proof : VersionedFinalityProof S}
    (h : decodeAndVerifyFinalityProof decode verifyWithValidatorSet encoded targetNumber
      validatorSet = .ok proof) :
    verifyWithValidatorSet targetNumber validatorSet proof = .ok () := by
  unfold decodeAndVerifyFinalityProof at h
  split at h
  · cases h
  · rename_i proof' rest hd
    cases hv : verifyWithValidatorSet targetNumber validatorSet proof' with
    | error e =>
      rw [hv] at h
      cases h
    | ok u =>
      rw [hv] at h
      cases h
      exact hv

omit [DecidableEq P] in
/-- An answer is accepted only when its bytes decode to a justification that verifies
against the request's block and set. -/
theorem processResponse_eq_ok {peer : P} {reqInfo : RequestInfo A}
    {response : Option (Except RequestFailure (List UInt8))} {proof : VersionedFinalityProof S}
    (h : processResponse decode verifyWithValidatorSet peer reqInfo response = .ok proof) :
    ∃ encoded, response = some (.ok encoded) ∧
      decodeAndVerifyFinalityProof decode verifyWithValidatorSet encoded reqInfo.block
        reqInfo.activeSet = .ok proof := by
  unfold processResponse at h
  split at h
  · cases h
  · cases h
  · cases h
  · rename_i encoded
    split at h
    · cases h
    · rename_i proof' hverified
      cases h
      exact ⟨encoded, rfl, hverified⟩

/-- `next` hands over a justification only as the answer to the request in flight, decoded
from the answer's bytes and verified against that request's block and set; the peer awaited
is rewarded. -/
theorem next_eq_validProof {e : OnDemandJustificationsEngine A P}
    {response : Option (Except RequestFailure (List UInt8))} {proof : VersionedFinalityProof S}
    {peerReport : PeerReport P}
    (h : (e.next decode verifyWithValidatorSet response).2.1 =
      some (.validProof proof peerReport)) :
    ∃ peer reqInfo encoded, e.state = .awaitingResponse peer reqInfo ∧
      response = some (.ok encoded) ∧
      decodeAndVerifyFinalityProof decode verifyWithValidatorSet encoded reqInfo.block
        reqInfo.activeSet = .ok proof ∧
      peerReport = ⟨peer, Benefit.validatedProof⟩ := by
  rcases e.next_cases decode verifyWithValidatorSet response with
    ⟨-, hnext⟩ | ⟨peer, reqInfo, hstate, ⟨proof', hok, hnext⟩ | ⟨info, hinfo, hnext⟩⟩
  · rw [hnext] at h
    cases h
  · rw [hnext] at h
    cases h
    obtain ⟨encoded, hresponse, hdecoded⟩ := processResponse_eq_ok decode verifyWithValidatorSet hok
    exact ⟨peer, reqInfo, encoded, hstate, hresponse, hdecoded, rfl⟩
  · -- a failed answer hands over a report or nothing
    rw [hnext] at h
    cases h
    rcases hinfo with hinfo | ⟨peerReport, hinfo⟩ <;> cases hinfo

/-- Only `next` hands anything to the worker. -/
theorem call_response {e : OnDemandJustificationsEngine A P} {c : OnDemandCall A P}
    {info : ResponseInfo S P}
    (h : (e.call decode verifyWithValidatorSet c).1.response = some info) :
    ∃ response, c = .next response ∧
      (e.next decode verifyWithValidatorSet response).2.1 = some info := by
  cases c with
  | next response => exact ⟨response, rfl, h⟩
  | request | cancelRequestsOlderThan | noteVoteFor | peerDisconnected => cases h

/-- After asking the next peer, the request awaited is the one just sent to that peer, or the
one that was awaited before when no peer was left to ask. -/
theorem requestFromNextPeer_awaitingResponse {e : OnDemandJustificationsEngine A P}
    {reqInfo reqInfo' : RequestInfo A} {peer : P}
    (h : (e.requestFromNextPeer reqInfo).1.state = .awaitingResponse peer reqInfo') :
    (e.requestFromNextPeer reqInfo).2 = some (peer, reqInfo.block) ∧ reqInfo' = reqInfo ∨
      (e.requestFromNextPeer reqInfo).2 = none ∧ e.state = .awaitingResponse peer reqInfo' := by
  obtain ⟨-, -, -, -, hsent, hstate⟩ := e.requestFromNextPeer_eq reqInfo
  rw [hstate] at h
  rw [hsent]
  cases hpop : (popLivePeer e.livePeers e.peersCache).1 with
  | none =>
    rw [hpop, Option.map_none, Option.getD_none] at h
    exact .inr ⟨rfl, h⟩
  | some peer' =>
    rw [hpop, Option.map_some, Option.getD_some] at h
    cases h
    exact .inl ⟨rfl, rfl⟩

/-- After asking the next peer, the request awaited is the one asked, or the one that was
awaited before. -/
theorem requestFromNextPeer_state_eq {e : OnDemandJustificationsEngine A P}
    {reqInfo reqInfo' : RequestInfo A} {peer : P}
    (h : (e.requestFromNextPeer reqInfo).1.state = .awaitingResponse peer reqInfo') :
    reqInfo' = reqInfo ∨ e.state = .awaitingResponse peer reqInfo' := by
  rcases requestFromNextPeer_awaitingResponse h with ⟨-, hreq⟩ | ⟨-, hstate⟩
  · exact .inl hreq
  · exact .inr hstate

/-- **What a call leaves in flight.**  A request in flight after a call was sent by it to
the peer awaited, the call having started it or asked the next peer after a failed answer;
or the call sent nothing and the request was in flight, from the same peer, before. -/
theorem call_eq_awaitingResponse {e : OnDemandJustificationsEngine A P}
    {c : OnDemandCall A P} {peer : P} {reqInfo : RequestInfo A}
    (h : (e.call decode verifyWithValidatorSet c).2.state = .awaitingResponse peer reqInfo) :
    (e.call decode verifyWithValidatorSet c).1.sent = some (peer, reqInfo.block) ∧
        ((∃ block activeSet, c = .request block activeSet ∧ reqInfo = ⟨block, activeSet⟩) ∨
          ∃ peer', e.state = .awaitingResponse peer' reqInfo) ∨
      (e.call decode verifyWithValidatorSet c).1.sent = none ∧
        e.state = .awaitingResponse peer reqInfo := by
  cases c with
  | request block activeSet =>
    change (e.request block activeSet).1.state = _ at h
    change (e.request block activeSet).2 = _ ∧ _ ∨ (e.request block activeSet).2 = _ ∧ _
    rcases e.request_cases block activeSet with ⟨-, -, -, hrequest⟩ | ⟨hidle, hrequest⟩
    · rw [hrequest] at h ⊢
      exact .inr ⟨rfl, h⟩
    · -- a new request is sent to the peer popped, if any
      rw [hrequest] at h ⊢
      rcases requestFromNextPeer_awaitingResponse h with ⟨hsent, rfl⟩ | ⟨-, hreset⟩
      · exact .inl ⟨hsent, .inl ⟨block, activeSet, rfl, rfl⟩⟩
      · rw [show (e.resetPeersCacheForBlock block).state = e.state from rfl, hidle] at hreset
        cases hreset
  | cancelRequestsOlderThan block =>
    exact .inr ⟨rfl, (cancelRequestsOlderThan_state h).2⟩
  | next response =>
    change (e.next decode verifyWithValidatorSet response).1.state = _ at h
    change (e.next decode verifyWithValidatorSet response).2.2 = _ ∧ _ ∨
      (e.next decode verifyWithValidatorSet response).2.2 = _ ∧ _
    rcases e.next_cases decode verifyWithValidatorSet response with
      ⟨-, hnext⟩ | ⟨peer', reqInfo', hstate, ⟨proof, -, hnext⟩ | ⟨info, -, hnext⟩⟩
    · rw [hnext] at h ⊢
      exact .inr ⟨rfl, h⟩
    · rw [hnext] at h
      cases h
    · -- the request in flight is sent again, to the next peer
      rw [hnext] at h ⊢
      rcases requestFromNextPeer_awaitingResponse h with ⟨hsent, rfl⟩ | ⟨-, hidle⟩
      · exact .inl ⟨hsent, .inr ⟨peer', hstate⟩⟩
      · cases hidle
  | noteVoteFor peer' round => exact .inr ⟨rfl, h⟩
  | peerDisconnected peer' => exact .inr ⟨rfl, h⟩

/-- A request is in flight after a call only if the call started it, or it was in flight
before. -/
theorem call_state_eq_awaitingResponse {e : OnDemandJustificationsEngine A P}
    {c : OnDemandCall A P} {peer : P} {reqInfo : RequestInfo A}
    (h : (e.call decode verifyWithValidatorSet c).2.state = .awaitingResponse peer reqInfo) :
    (∃ block activeSet, c = .request block activeSet ∧ reqInfo = ⟨block, activeSet⟩) ∨
      ∃ peer', e.state = .awaitingResponse peer' reqInfo := by
  rcases call_eq_awaitingResponse decode verifyWithValidatorSet h with
    ⟨-, hcall | hbefore⟩ | ⟨-, hstate⟩
  · exact .inl hcall
  · exact .inr hbefore
  · exact .inr ⟨peer, hstate⟩

omit [DecidableEq P] in
/-- The last request sent in a run's history: the peer it went to and its block.  The
network's answer that a later `next` brings is that peer's. -/
def lastSent (h : List (OnDemandCall A P × OnDemandReply S P)) : Option (P × ℕ) :=
  (h.filterMap fun x => x.2.sent).getLast?

omit [DecidableEq P] in
@[simp] theorem lastSent_append_singleton (h : List (OnDemandCall A P × OnDemandReply S P))
    (x : OnDemandCall A P × OnDemandReply S P) :
    lastSent (h ++ [x]) = x.2.sent.or (lastSent h) := by
  unfold lastSent
  rw [List.filterMap_append]
  cases hx : x.2.sent <;> simp [hx]

omit [DecidableEq P] in
/-- What a run has done so far, given its calls with their results: the request in flight
was made by one of the calls and was the last one sent, to the peer awaited; and every
justification handed over at a call of the run came in that call's answer, decoded from its
bytes and verified against the block and the set of a request made before, and the peer
rewarded is the one the last request before it went to. -/
def RequestsMade (e : OnDemandJustificationsEngine A P)
    (h : List (OnDemandCall A P × OnDemandReply S P)) : Prop :=
  (∀ peer reqInfo, e.state = .awaitingResponse peer reqInfo →
    OnDemandCall.request reqInfo.block reqInfo.activeSet ∈ h.map Prod.fst ∧
      lastSent h = some (peer, reqInfo.block)) ∧
  ∀ k x, h[k]? = some x → ∀ proof peerReport,
    x.2.response = some (.validProof proof peerReport) →
    ∃ block activeSet peer encoded,
      OnDemandCall.request block activeSet ∈ (h.take k).map Prod.fst ∧
      lastSent (h.take k) = some (peer, block) ∧
      x.1 = .next (some (.ok encoded)) ∧
      decodeAndVerifyFinalityProof decode verifyWithValidatorSet encoded block activeSet =
        .ok proof ∧
      peerReport = ⟨peer, Benefit.validatedProof⟩

omit [DecidableEq P] in
theorem requestsMade_new (livePeers : KnownPeers P) :
    RequestsMade decode verifyWithValidatorSet (new livePeers : OnDemandJustificationsEngine A P)
      ([] : List (OnDemandCall A P × OnDemandReply S P)) := by
  refine ⟨fun peer reqInfo hstate => ?_, fun k x hx => ?_⟩
  · cases hstate
  · cases hx

/-- **One call.**  A call keeps the record of the requests made: a request it leaves in
flight is one it sent, or was in flight already with nothing sent since; and a
justification it hands over answers the request in flight, so comes from the peer last
sent a request. -/
theorem RequestsMade.call {e : OnDemandJustificationsEngine A P}
    {h : List (OnDemandCall A P × OnDemandReply S P)}
    (hs : RequestsMade decode verifyWithValidatorSet e h) (c : OnDemandCall A P) :
    RequestsMade decode verifyWithValidatorSet (e.call decode verifyWithValidatorSet c).2
      (h ++ [(c, (e.call decode verifyWithValidatorSet c).1)]) := by
  -- what the earlier calls made stays made
  have hmono : ∀ c' ∈ h.map Prod.fst,
      c' ∈ (h ++ [(c, (e.call decode verifyWithValidatorSet c).1)]).map Prod.fst := by
    intro c' hc'
    rw [List.map_append]
    exact List.mem_append_left _ hc'
  refine ⟨fun peer reqInfo hstate => ?_, fun k x hx proof peerReport hr => ?_⟩
  · rw [lastSent_append_singleton]
    rcases call_eq_awaitingResponse decode verifyWithValidatorSet hstate with
      ⟨hsent, ⟨block, activeSet, rfl, rfl⟩ | ⟨peer', hbefore⟩⟩ | ⟨hsent, hbefore⟩
    · rw [List.map_append]
      exact ⟨List.mem_append_right _ (List.mem_singleton_self _), by rw [hsent]; rfl⟩
    · exact ⟨hmono _ (hs.1 peer' reqInfo hbefore).1, by rw [hsent]; rfl⟩
    · obtain ⟨hmem, hlast⟩ := hs.1 peer reqInfo hbefore
      exact ⟨hmono _ hmem, by rw [hsent, hlast]; rfl⟩
  · by_cases hk : k < h.length
    · -- an earlier call: its prefix is unchanged
      rw [List.getElem?_append_left hk] at hx
      rw [List.take_append_of_le_length hk.le]
      exact hs.2 k x hx proof peerReport hr
    · -- this call, whose prefix is the whole history so far
      rw [List.getElem?_append_right (Nat.le_of_not_lt hk), List.getElem?_singleton] at hx
      split_ifs at hx with hk'
      cases hx
      have hlen : k = h.length := by omega
      subst hlen
      rw [List.take_left]
      obtain ⟨response, rfl, hnext⟩ := call_response decode verifyWithValidatorSet hr
      obtain ⟨peer, reqInfo, encoded, hstate, rfl, hdecoded, rfl⟩ :=
        next_eq_validProof decode verifyWithValidatorSet hnext
      obtain ⟨hmem, hlast⟩ := hs.1 peer reqInfo hstate
      exact ⟨reqInfo.block, reqInfo.activeSet, peer, encoded, hmem, hlast, rfl, hdecoded, rfl⟩

/-- **Handed-over justifications answer the worker's requests.**  In every run of the
engine, each justification `next` hands to the worker at the `k`-th call came in that call's
answer: it decodes from the answer's bytes and verifies against the block and the validator
set of a request the worker made before, and the peer rewarded for it is the peer the last
request before that call was sent to, for that block. -/
theorem valid_proofs_requested (livePeers : KnownPeers P) (calls : List (OnDemandCall A P)) :
    ∀ k x, (trace (call decode verifyWithValidatorSet) (new livePeers) calls)[k]? = some x →
      ∀ proof peerReport, x.2.response = some (.validProof proof peerReport) →
        ∃ block activeSet peer encoded, OnDemandCall.request block activeSet ∈ calls.take k ∧
          lastSent ((trace (call decode verifyWithValidatorSet) (new livePeers) calls).take k) =
            some (peer, block) ∧
          x.1 = .next (some (.ok encoded)) ∧
          decodeAndVerifyFinalityProof decode verifyWithValidatorSet encoded block activeSet =
            .ok proof ∧
          verifyWithValidatorSet block activeSet proof = .ok () ∧
          peerReport = ⟨peer, Benefit.validatedProof⟩ := by
  have hrun := @trace_history_mem _ _ _ (call decode verifyWithValidatorSet)
    (RequestsMade decode verifyWithValidatorSet) calls
    (fun _ _ c _ hs => hs.call decode verifyWithValidatorSet c) _ _
    (requestsMade_new decode verifyWithValidatorSet livePeers)
  rw [List.nil_append] at hrun
  intro k x hx proof peerReport hr
  obtain ⟨block, activeSet, peer, encoded, hmem, hlast, hcall, hdecoded, hreport⟩ :=
    hrun.2 k x hx proof peerReport hr
  -- the calls of the trace's prefix are the prefix of the calls
  rw [trace_take, map_fst_trace] at hmem
  exact ⟨block, activeSet, peer, encoded, hmem, hlast, hcall, hdecoded,
    decodeAndVerifyFinalityProof_eq_ok decode verifyWithValidatorSet hdecoded, hreport⟩

/-- Peer `7`, which voted on block `9`, is asked for the justification of block `5` and
answers it. -/
theorem valid_proofs_requested_answered :
    let livePeers : KnownPeers ℕ := ⟨[(7, 9)], List.nodup_singleton 7⟩
    let proof : VersionedFinalityProof ℕ := .v1 ⟨⟨⟨[]⟩, 5, 0⟩, [some 0]⟩
    let decode : List UInt8 → Except String (VersionedFinalityProof ℕ × List UInt8) :=
      fun _ => .ok (proof, [])
    let verifyWithValidatorSet : ℕ → ValidatorSet ℕ → VersionedFinalityProof ℕ →
        Except (ConsensusError × ℕ) Unit := fun _ _ _ => .ok ()
    let calls : List (OnDemandCall ℕ ℕ) := [.request 5 ⟨[0], [0], 0⟩, .next (some (.ok [1]))]
    let x : OnDemandCall ℕ ℕ × OnDemandReply ℕ ℕ :=
      (.next (some (.ok [1])), ⟨none, some (.validProof proof ⟨7, Benefit.validatedProof⟩)⟩)
    (trace (call decode verifyWithValidatorSet) (new livePeers) calls)[1]? = some x ∧
      ∃ block activeSet peer encoded, OnDemandCall.request block activeSet ∈ calls.take 1 ∧
        lastSent ((trace (call decode verifyWithValidatorSet) (new livePeers) calls).take 1) =
          some (peer, block) ∧
        x.1 = .next (some (.ok encoded)) ∧
        decodeAndVerifyFinalityProof decode verifyWithValidatorSet encoded block activeSet =
          .ok proof ∧
        verifyWithValidatorSet block activeSet proof = .ok () ∧
        (⟨7, Benefit.validatedProof⟩ : PeerReport ℕ) = ⟨peer, Benefit.validatedProof⟩ := by
  intro livePeers proof decode verifyWithValidatorSet calls x
  -- the request goes to peer 7, whose answer is handed over
  have htrace : trace (call decode verifyWithValidatorSet) (new livePeers) calls =
      [(.request 5 ⟨[0], [0], 0⟩, ⟨some (7, 5), none⟩), x] := rfl
  have hx : (trace (call decode verifyWithValidatorSet) (new livePeers) calls)[1]? = some x := by
    rw [htrace]
    rfl
  exact ⟨hx, valid_proofs_requested decode verifyWithValidatorSet livePeers calls 1 x hx proof _
    rfl⟩

end OnDemandJustificationsEngine

end BeefyEtf
