/-
The BEEFY block import (`import.rs`).

`BeefyBlockImport` wraps the client's block import.  It takes the BEEFY justification out of
a block before handing the block to the inner import; once the block is imported with its
state, it checks the justification against the validator set the runtime reports at the
block, at or above the pallet genesis, and sends it to the voter when it verifies.  The
inner import is any step function on a state of its own; the runtime API and the backend's
`state_at` are read after it.

* `importBlock_eq_inner` — the wrapper returns what the inner import returns on the block
  without its BEEFY justification, and leaves the inner import in the same state;
* `imported_justifications_verified` — over any run, every justification sent to the voter
  is the BEEFY justification of a block the inner import imported, decoded from its bytes
  and verified against the runtime's validator set at the block, which is at or above the
  pallet genesis.
-/
import BeefyEtf.OnDemand
import BeefyEtf.Run

namespace BeefyEtf

/-- `ConsensusEngineId`. -/
abbrev ConsensusEngineId := Vector UInt8 4

/-- `BEEFY_ENGINE_ID = *b"BEEF"`. -/
def beefyEngineId : ConsensusEngineId := #v[66, 69, 69, 70]

/-- `Justifications`: encoded justifications, each with the id of its consensus engine. -/
structure Justifications where
  entries : List (ConsensusEngineId × List UInt8)

namespace Justifications

/-- `Justifications::get`: the first justification of the engine. -/
def get (justifs : Justifications) (engineId : ConsensusEngineId) : Option (List UInt8) :=
  (justifs.entries.find? fun j => j.1 == engineId).map Prod.snd

/-- `Justifications::remove`: every justification of the engine dropped. -/
def remove (justifs : Justifications) (engineId : ConsensusEngineId) : Justifications :=
  ⟨justifs.entries.filter fun j => j.1 != engineId⟩

@[simp]
theorem get_remove (justifs : Justifications) (engineId : ConsensusEngineId) :
    (justifs.remove engineId).get engineId = none := by
  simp [get, remove, List.find?_filter]

end Justifications

/-- `ImportResult`. -/
inductive ImportResult where
  | imported
  | alreadyInChain
  | knownBad
  | unknownParent
  | missingState
  deriving DecidableEq, Repr

/-- `sp_consensus::Error` as block import returns it: the client's import messages, or the
verifier's error. -/
inductive ImportError where
  | clientImport (msg : String)
  | consensus (err : ConsensusError)
  deriving DecidableEq, Repr

/-- `BlockImportParams`: of the block, its number, its hash after import and its
justifications. -/
structure BlockImportParams (H : Type*) where
  number : ℕ
  postHash : H
  justifications : Option Justifications

/-- The block as the inner import gets it: its BEEFY justification removed. -/
def BlockImportParams.withoutBeefy {H : Type*} (block : BlockImportParams H) :
    BlockImportParams H :=
  { block with justifications := block.justifications.map (·.remove beefyEngineId) }

/-- What `BeefyBlockImport` reads outside itself: the runtime API at a block, and whether the
backend holds the state of a block. -/
structure ImportEnv (A H σ : Type*) where
  beefyGenesis : H → Except String (Option ℕ)
  validatorSet : H → Except String (Option (ValidatorSet A))
  stateAt : σ → H → Bool

namespace BeefyBlockImport

variable {A S H σ : Type*}
  (decode : List UInt8 → Except String (VersionedFinalityProof S × List UInt8))
  (verifyWithValidatorSet : ℕ → ValidatorSet A → VersionedFinalityProof S →
    Except (ConsensusError × ℕ) Unit)
  (inner : σ → BlockImportParams H → Except ImportError ImportResult × σ)
  (env : ImportEnv A H σ)

/-- `BeefyBlockImport::decode_and_verify`. -/
def decodeAndVerify (encoded : List UInt8) (number : ℕ) (hash : H) :
    Except ImportError (VersionedFinalityProof S) :=
  match env.beefyGenesis hash with
  | .error e => .error (.clientImport e)
  | .ok none => .error (.clientImport "Unknown BEEFY genesis")
  | .ok (some beefyGenesis) =>
    if number < beefyGenesis then .error (.clientImport "BEEFY genesis is set for future block")
    else
      match env.validatorSet hash with
      | .error e => .error (.clientImport e)
      | .ok none => .error (.clientImport "Unknown validator set")
      | .ok (some validatorSet) =>
        match decodeAndVerifyFinalityProof decode verifyWithValidatorSet encoded number
            validatorSet with
        | .error (err, _) => .error (.consensus err)
        | .ok proof => .ok proof

/-- `BlockImport::import_block`: the result, the justification sent to the voter, if any, and
the inner import's state. -/
def importBlock (st : σ) (block : BlockImportParams H) :
    (Except ImportError ImportResult × Option (VersionedFinalityProof S)) × σ :=
  let beefyEncoded := block.justifications.bind (·.get beefyEngineId)
  match inner st block.withoutBeefy with
  | (.error e, st') => ((.error e, none), st')
  | (.ok result, st') =>
    -- a block imported without its state, as part of a sync, is left to the voter's startup
    if env.stateAt st' block.postHash then
      match beefyEncoded, result with
      | some encoded, .imported =>
        match decodeAndVerify decode verifyWithValidatorSet env encoded block.number
            block.postHash with
        | .ok proof => ((.ok result, some proof), st')
        | .error _ => ((.ok result, none), st')
      | _, _ => ((.ok result, none), st')
    else ((.ok result, none), st')

/-- The result and the state are the inner import's on the block without its BEEFY
justification. -/
theorem importBlock_eq_inner (st : σ) (block : BlockImportParams H) :
    ((importBlock decode verifyWithValidatorSet inner env st block).1.1,
        (importBlock decode verifyWithValidatorSet inner env st block).2) =
      inner st block.withoutBeefy := by
  unfold importBlock
  rcases hinner : inner st block.withoutBeefy with ⟨result | result, st'⟩
  · rfl
  · dsimp only
    split_ifs
    · split
      · split <;> rfl
      · rfl
    · rfl

theorem importBlock_result (st : σ) (block : BlockImportParams H) :
    (importBlock decode verifyWithValidatorSet inner env st block).1.1 =
      (inner st block.withoutBeefy).1 :=
  congrArg Prod.fst (importBlock_eq_inner decode verifyWithValidatorSet inner env st block)

theorem decodeAndVerify_eq_ok {encoded : List UInt8} {number : ℕ} {hash : H}
    {proof : VersionedFinalityProof S}
    (h : decodeAndVerify decode verifyWithValidatorSet env encoded number hash = .ok proof) :
    ∃ beefyGenesis validatorSet, env.beefyGenesis hash = .ok (some beefyGenesis) ∧
      beefyGenesis ≤ number ∧ env.validatorSet hash = .ok (some validatorSet) ∧
      decodeAndVerifyFinalityProof decode verifyWithValidatorSet encoded number validatorSet =
        .ok proof := by
  unfold decodeAndVerify at h
  rcases hg : env.beefyGenesis hash with e | _ | beefyGenesis <;> rw [hg] at h
  · cases h
  · cases h
  · dsimp only at h
    split_ifs at h with hlt
    rcases hv : env.validatorSet hash with e | _ | validatorSet <;> rw [hv] at h
    · cases h
    · cases h
    · refine ⟨beefyGenesis, validatorSet, rfl, Nat.le_of_not_lt hlt, rfl, ?_⟩
      dsimp only at h
      split at h
      · cases h
      · rename_i proof' hproof
        cases h
        exact hproof

/-- A justification is sent only for a block imported with its state, from the block's
BEEFY justification, once it verifies at the block. -/
theorem importBlock_sent {st : σ} {block : BlockImportParams H}
    {proof : VersionedFinalityProof S}
    (h : (importBlock decode verifyWithValidatorSet inner env st block).1.2 = some proof) :
    ∃ encoded st', block.justifications.bind (·.get beefyEngineId) = some encoded ∧
      inner st block.withoutBeefy = (.ok .imported, st') ∧ env.stateAt st' block.postHash ∧
      decodeAndVerify decode verifyWithValidatorSet env encoded block.number block.postHash =
        .ok proof := by
  unfold importBlock at h
  rcases hinner : inner st block.withoutBeefy with ⟨result | result, st'⟩ <;> rw [hinner] at h
  · cases h
  · dsimp only at h
    split_ifs at h with hstate
    split at h
    · rename_i encoded hencoded
      split at h
      · cases h
        exact ⟨encoded, st', hencoded, rfl, hstate, by assumption⟩
      · cases h
    · cases h

/-! ### Runs -/

/-- **The voter only gets verified justifications from block import.**  Over any run, every
justification the wrapper sends to the voter is the BEEFY justification of a block the
inner import imported with its state, decoded and verified against the validator set the
runtime reports at the block, which is at or above the pallet genesis. -/
theorem imported_justifications_verified (st : σ) (blocks : List (BlockImportParams H))
    (k : ℕ) (result : Except ImportError ImportResult) (proof : VersionedFinalityProof S)
    (h : (Run.runFrom (importBlock decode verifyWithValidatorSet inner env) st blocks).1[k]? =
      some (result, some proof)) :
    ∃ (hk : k < blocks.length) (encoded : List UInt8) (beefyGenesis : ℕ)
      (validatorSet : ValidatorSet A),
      blocks[k].justifications.bind (·.get beefyEngineId) = some encoded ∧
      result = .ok .imported ∧
      env.beefyGenesis blocks[k].postHash = .ok (some beefyGenesis) ∧
      beefyGenesis ≤ blocks[k].number ∧
      env.validatorSet blocks[k].postHash = .ok (some validatorSet) ∧
      decodeAndVerifyFinalityProof decode verifyWithValidatorSet encoded blocks[k].number
        validatorSet = .ok proof ∧
      verifyWithValidatorSet blocks[k].number validatorSet proof = .ok () := by
  have hk : k < blocks.length := by
    have := (List.getElem?_eq_some_iff.mp h).1
    rwa [Run.length_runFrom] at this
  rw [Run.getElem?_runFrom _ blocks k hk, Option.some.injEq] at h
  -- block `k` is imported from where the first `k` blocks left the inner import
  obtain ⟨encoded, st', hencoded, hinner, -, hverify⟩ :=
    importBlock_sent decode verifyWithValidatorSet inner env (congrArg Prod.snd h)
  obtain ⟨beefyGenesis, validatorSet, hg, hle, hv, hproof⟩ :=
    decodeAndVerify_eq_ok decode verifyWithValidatorSet env hverify
  have hresult : result = .ok .imported := by
    have := importBlock_result decode verifyWithValidatorSet inner env
      (Run.runFrom (importBlock decode verifyWithValidatorSet inner env) st
        (blocks.take k)).2 blocks[k]
    rwa [hinner, h] at this
  exact ⟨hk, encoded, beefyGenesis, validatorSet, hencoded, hresult, hg, hle, hv, hproof,
    OnDemandJustificationsEngine.decodeAndVerifyFinalityProof_eq_ok decode verifyWithValidatorSet
      hproof⟩

end BeefyBlockImport

end BeefyEtf
