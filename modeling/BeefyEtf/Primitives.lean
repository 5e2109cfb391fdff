/-
The data BEEFY-ETF voters, verifiers and the pallet exchange
(`primitives/consensus/beefy-etf/src/{lib,commitment,payload}.rs`).

Validator sets with their ETF round-key commitments, payloads, commitments,
votes, signed commitments, finality proofs and equivocation proofs, and the
equivocation checker `checkEquivocationProof` that the pallet and the voter
run before reporting.

Design notes: block numbers are `ℕ` (`NumberFor<B>` is an unsigned integer and
only compared here); the set id (`u64`) is `ℕ` as well.  Authority ids `A` and
signatures `S` are type parameters.  Signature checking lives in w3f-bls and
secp256k1, outside the repository: every place in the source verifies a
signature over the SCALE encoding of a commitment, so the model takes that
check as one parameter `verify a s c` ("`s` is `a`'s signature over `c.encode()`").
Maps keyed by these types are `Std.TreeMap`s, ordered as the source orders
them: tuples and payload entries lexicographically (the derived `Ord`), and
`Commitment` by set id, then block number, then payload (its hand-written `Ord`).
-/
import Mathlib

namespace BeefyEtf

/-- Rust orders tuples lexicographically. -/
instance instOrdProd {α β : Type*} [Ord α] [Ord β] : Ord (α × β) := lexOrd

/-- `BeefyPayloadId = [u8; 2]`. -/
abbrev BeefyPayloadId := Vector UInt8 2

/-- `Payload(Vec<(BeefyPayloadId, Vec<u8>)>)`: SCALE-encoded values, each under an id. -/
structure Payload where
  entries : List (BeefyPayloadId × List UInt8)
  deriving DecidableEq, Repr

namespace Payload

instance : Ord Payload := ⟨compareOn Payload.entries⟩

instance : Std.TransOrd Payload := inferInstanceAs (Std.TransCmp (compareOn Payload.entries))

instance : Std.LawfulEqOrd Payload where
  eq_of_compare {a b} h := by
    have h' := Std.LawfulEqOrd.eq_of_compare (α := List (BeefyPayloadId × List UInt8)) h
    cases a
    cases b
    simpa using h'

end Payload

/-- A commitment: the payload of the finalized block `blockNumber`, signed by the
validator set `validatorSetId`. -/
structure Commitment where
  payload : Payload
  blockNumber : ℕ
  validatorSetId : ℕ
  deriving DecidableEq, Repr

namespace Commitment

/-- The key `Commitment`'s `Ord` compares: set id, then block number, then payload. -/
def ordKey (c : Commitment) : ℕ × ℕ × Payload := (c.validatorSetId, c.blockNumber, c.payload)

instance : Ord Commitment := ⟨compareOn ordKey⟩

instance : Std.TransOrd Commitment := inferInstanceAs (Std.TransCmp (compareOn ordKey))

instance : Std.LawfulEqOrd Commitment where
  eq_of_compare {a b} h := by
    have h' := Std.LawfulEqOrd.eq_of_compare (α := ℕ × ℕ × Payload) h
    cases a
    cases b
    simp only [ordKey, Prod.mk.injEq] at h'
    obtain ⟨rfl, rfl, rfl⟩ := h'
    rfl

end Commitment

/-- A set of BEEFY authorities, with the public round-key commitments of the ETF
scheme beside them. -/
structure ValidatorSet (A : Type*) where
  validators : List A
  commitments : List A
  id : ℕ
  deriving DecidableEq, Repr

namespace ValidatorSet

variable {A : Type*}

/-- `ValidatorSet::new`: refuses an empty validator or commitment list. -/
def new (validators commitments : List A) (id : ℕ) : Option (ValidatorSet A) :=
  if validators.isEmpty || commitments.isEmpty then none
  else some { validators, commitments, id }

/-- `ValidatorSet::len`: the number of validators, duplicates counted. -/
def len (vs : ValidatorSet A) : ℕ := vs.validators.length

end ValidatorSet

/-- A vote: `id`'s signature over `commitment`. -/
structure VoteMessage (A S : Type*) where
  commitment : Commitment
  id : A
  signature : S
  deriving DecidableEq, Repr

/-- A commitment with the signatures collected for it, one slot per validator. -/
structure SignedCommitment (S : Type*) where
  commitment : Commitment
  signatures : List (Option S)
  deriving DecidableEq, Repr

/-- `VersionedFinalityProof`: a justification, currently only version 1. -/
inductive VersionedFinalityProof (S : Type*) where
  | v1 (sc : SignedCommitment S)
  deriving DecidableEq, Repr

namespace VersionedFinalityProof

variable {S : Type*}

/-- The block the proof finalizes. -/
def blockNumber : VersionedFinalityProof S → ℕ
  | v1 sc => sc.commitment.blockNumber

end VersionedFinalityProof

/-- `ConsensusLog`: the BEEFY digest items of a header. -/
inductive ConsensusLog (A : Type*) where
  | authoritiesChange (validatorSet : ValidatorSet A)
  | onDisabled (index : ℕ)
  | mmrRoot (hash : List UInt8)
  deriving DecidableEq, Repr

/-- Two votes of one voter for one round, with different payloads. -/
structure EquivocationProof (A S : Type*) where
  first : VoteMessage A S
  second : VoteMessage A S
  deriving DecidableEq, Repr

section Checks

variable {A S : Type*} [DecidableEq A]

/-- `check_commitment_signature`: `signature` is `authorityId`'s signature over the
encoded `commitment`. -/
def checkCommitmentSignature (verify : A → S → Commitment → Bool) (commitment : Commitment)
    (authorityId : A) (signature : S) : Bool :=
  verify authorityId signature commitment

/-- `check_equivocation_proof`: both votes come from one authority, for one round and
one set id, with different payloads, and both signatures are valid. -/
def checkEquivocationProof (verify : A → S → Commitment → Bool)
    (report : EquivocationProof A S) : Bool :=
  let first := report.first
  let second := report.second
  if first.id ≠ second.id ∨
      first.commitment.blockNumber ≠ second.commitment.blockNumber ∨
      first.commitment.validatorSetId ≠ second.commitment.validatorSetId ∨
      first.commitment.payload = second.commitment.payload then
    false
  else
    checkCommitmentSignature verify first.commitment first.id first.signature &&
      checkCommitmentSignature verify second.commitment second.id second.signature

/-- On a proof whose two votes agree on voter, round and set id and differ in payload,
the checker only checks the two signatures. -/
theorem checkEquivocationProof_eq_verify (verify : A → S → Commitment → Bool)
    {report : EquivocationProof A S} (hid : report.first.id = report.second.id)
    (hnum : report.first.commitment.blockNumber = report.second.commitment.blockNumber)
    (hset : report.first.commitment.validatorSetId = report.second.commitment.validatorSetId)
    (hpayload : report.first.commitment.payload ≠ report.second.commitment.payload) :
    checkEquivocationProof verify report =
      (verify report.first.id report.first.signature report.first.commitment &&
        verify report.second.id report.second.signature report.second.commitment) := by
  simp [checkEquivocationProof, checkCommitmentSignature, hid, hnum, hset, hpayload]

end Checks

end BeefyEtf
