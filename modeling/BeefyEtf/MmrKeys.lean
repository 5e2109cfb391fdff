/-
What the MMR of the BEEFY-MMR pallet commits to under the conversion its runtime uses,
`BeefyBlsToEthereum` (`pallets/beefy-mmr-etf/src/lib.rs`, "not really functional at the
moment"), which turns every authority into no bytes.

Rename every key of a runtime, the authorities, the queued validators and the commitments, by
any map `f`: the runtime runs the same way, with the renamed keys in its storage and in the
authority changes of its headers (`run_mapKeys`).  The BEEFY-MMR pallet, though, sees only the
id and the size of each set through the BLS conversion, so its leaves and roots are those of
the original run.

* `bls_mmr_ignores_keys` — with the BLS conversion, the roots in the headers and the leaves of
  the MMR are the same whichever keys the authorities hold: the MMR commits to no key of a
  BEEFY authority set, so a light client following it cannot tell two sets of one size
  apart.
-/
import BeefyEtf.Runtime

namespace BeefyEtf

variable {B B' : Type*} (f : B → B')

/-- The set with every key renamed by `f`. -/
def ValidatorSet.mapKeys (vs : ValidatorSet B) : ValidatorSet B' :=
  ⟨vs.validators.map f, vs.commitments.map f, vs.id⟩

theorem ValidatorSet.new_mapKeys (validators commitments : List B) (id : ℕ) :
    ValidatorSet.new (validators.map f) (commitments.map f) id =
      (ValidatorSet.new validators commitments id).map (ValidatorSet.mapKeys f) := by
  simp only [ValidatorSet.new, List.isEmpty_map]
  split <;> rfl

/-- The digest item with every key renamed by `f`. -/
def ConsensusLog.mapKeys : ConsensusLog B → ConsensusLog B'
  | .authoritiesChange validatorSet => .authoritiesChange (validatorSet.mapKeys f)
  | .onDisabled index => .onDisabled index
  | .mmrRoot hash => .mmrRoot hash

/-- The header with every key of its digest renamed by `f`. -/
def Header.mapKeys (header : Header B) : Header B' :=
  ⟨header.number, header.digest.map (ConsensusLog.mapKeys f)⟩

/-- Renaming keys keeps the roots of a header. -/
theorem findMmrRootDigest_mapKeys (header : Header B) :
    findMmrRootDigest (header.mapKeys f) = findMmrRootDigest header := by
  simp only [findMmrRootDigest, Header.mapKeys, List.findSome?_map]
  congr 1
  funext item
  cases item <;> rfl

namespace Pallet

/-- The BEEFY pallet's storage with every key renamed by `f`. -/
def State.mapKeys (s : State B) : State B' :=
  ⟨s.authorities.map f, s.validatorSetId, s.nextAuthorities.map f, s.setIdSession,
    s.digest.map (ConsensusLog.mapKeys f),
    s.newValidatorSets.map (Prod.map (ValidatorSet.mapKeys f) (ValidatorSet.mapKeys f))⟩

@[simp] theorem State.mapKeys_validatorSetId (s : State B) :
    (s.mapKeys f).validatorSetId = s.validatorSetId := rfl

@[simp] theorem State.mapKeys_setIdSession (s : State B) :
    (s.mapKeys f).setIdSession = s.setIdSession := rfl

theorem announcement_mapKeys (commitments new queued : List B) (id : ℕ) :
    announcement (commitments.map f) (new.map f) (queued.map f) id =
      (announcement commitments new queued id).map
        (Prod.map (ValidatorSet.mapKeys f) (ValidatorSet.mapKeys f)) := by
  unfold announcement
  rw [ValidatorSet.new_mapKeys, ValidatorSet.new_mapKeys]
  cases ValidatorSet.new new commitments id <;>
    cases ValidatorSet.new queued commitments (id + 1) <;> rfl

theorem changeAuthorities_mapKeys (commitments : List B) (s : State B) (new queued : List B) :
    changeAuthorities (commitments.map f) (s.mapKeys f) (new.map f) (queued.map f) =
      (changeAuthorities commitments s new queued).mapKeys f := by
  rw [changeAuthorities_eq, changeAuthorities_eq]
  cases h : ValidatorSet.new new commitments (s.validatorSetId + 1) <;>
    simp [State.mapKeys, ValidatorSet.new_mapKeys, announcement_mapKeys, h, ConsensusLog.mapKeys,
      Option.toList_map]

theorem onNewSession_mapKeys (cfg : Config) (commitments : List B) (s : State B)
    (validators queued : List B) (sessionIndex : ℕ) :
    onNewSession cfg (commitments.map f) (s.mapKeys f) (validators.map f) (queued.map f)
        sessionIndex =
      (onNewSession cfg commitments s validators queued sessionIndex).mapKeys f := by
  dsimp only [onNewSession]
  rw [← List.map_take, ← List.map_take, changeAuthorities_mapKeys]
  -- the rest touches only the set id and `SetIdSession`, which renaming keeps
  generalize changeAuthorities commitments s _ _ = t
  obtain ⟨authorities, validatorSetId, nextAuthorities, setIdSession, digest, sets⟩ := t
  dsimp only [State.mapKeys]
  by_cases hprune : max cfg.maxSetIdSessionEntries 1 ≤ validatorSetId
  · simp [hprune]
  · simp [hprune]

theorem initializeAuthorities_mapKeys (cfg : Config) (commitments : List B) (s : State B)
    (authorities : List B) :
    initializeAuthorities cfg (commitments.map f) (s.mapKeys f) (authorities.map f) =
      (initializeAuthorities cfg commitments s authorities).map (State.mapKeys f) := by
  unfold initializeAuthorities
  simp only [List.isEmpty_map, List.length_map, State.mapKeys]
  split_ifs
  · rfl
  · rfl
  · rfl
  · rw [ValidatorSet.new_mapKeys, ValidatorSet.new_mapKeys]
    cases ValidatorSet.new authorities commitments genesisAuthoritySetId <;>
      cases ValidatorSet.new authorities commitments (genesisAuthoritySetId + 1) <;>
      simp [Except.map, State.mapKeys]

end Pallet

namespace EtfPallet

/-- The etf pallet's storage with every commitment renamed by `f`. -/
def State.mapKeys (s : State B) : State B' := ⟨s.shares, s.commitments.map f, s.roundPublic⟩

theorem genesisBuild_mapKeys (maxAuthorities : ℕ) (genesisResharing : List (B × List UInt8))
    (roundPubkey : List UInt8) :
    genesisBuild maxAuthorities (genesisResharing.map (Prod.map f id)) roundPubkey =
      (genesisBuild maxAuthorities genesisResharing roundPubkey).map (State.mapKeys f) := by
  unfold genesisBuild initializeResharing
  simp only [List.any_map, List.length_map, Function.comp_def, Prod.map_snd, id_eq]
  split_ifs <;> simp [State.mapKeys, Function.comp_def]

end EtfPallet

namespace Runtime

variable {Hash H E : Type*}

/-- The runtime with every key renamed by `f`: the MMR holds none. -/
def State.mapKeys (r : State B Hash H E) : State B' Hash H E :=
  ⟨r.etf.mapKeys f, r.beefy.mapKeys f, r.beefyMmr, r.leaves⟩

/-- The block with the keys of its session renamed by `f`. -/
def Block.mapKeys (b : Block B Hash E) : Block B' Hash E :=
  ⟨b.number, b.parentHash, b.newSession.map fun x => (x.1.map f, x.2.1.map f, x.2.2),
    b.leafExtra⟩

variable (cfg : Config) (merkleRoot : List (List UInt8) → H)

/-- Through the BLS conversion, the BEEFY-MMR pallet cannot see a renaming. -/
theorem onNewValidatorSets_bls_mapKeys (m : BeefyMmr.State H)
    (sets : List (ValidatorSet B × ValidatorSet B)) :
    onNewValidatorSets BeefyMmr.beefyBlsToEthereum merkleRoot m
        (sets.map (Prod.map (ValidatorSet.mapKeys f) (ValidatorSet.mapKeys f))) =
      onNewValidatorSets BeefyMmr.beefyBlsToEthereum merkleRoot m sets := by
  simp only [onNewValidatorSets, List.foldl_map]
  congr 1
  funext m x
  simp [BeefyMmr.onNewValidatorSet, BeefyMmr.computeAuthoritySet_bls, ValidatorSet.mapKeys]

theorem withOnNewValidatorSet_bls_mapKeys (r : State B Hash H E) (beefy : Pallet.State B) :
    withOnNewValidatorSet BeefyMmr.beefyBlsToEthereum merkleRoot (r.mapKeys f)
        (beefy.mapKeys f) =
      (withOnNewValidatorSet BeefyMmr.beefyBlsToEthereum merkleRoot r beefy).mapKeys f := by
  simp only [withOnNewValidatorSet, State.mapKeys, Pallet.State.mapKeys, List.length_map,
    ← List.map_drop, onNewValidatorSets_bls_mapKeys]

theorem sessionOnInitialize_bls_mapKeys (r : State B Hash H E)
    (newSession : Option (List B × List B × ℕ)) :
    sessionOnInitialize cfg BeefyMmr.beefyBlsToEthereum merkleRoot (r.mapKeys f)
        (newSession.map fun x => (x.1.map f, x.2.1.map f, x.2.2)) =
      (sessionOnInitialize cfg BeefyMmr.beefyBlsToEthereum merkleRoot r newSession).mapKeys f := by
  cases newSession with
  | none => rfl
  | some x =>
    simp only [Option.map_some, Runtime.sessionOnInitialize]
    rw [← withOnNewValidatorSet_bls_mapKeys]
    congr 1
    exact Pallet.onNewSession_mapKeys f cfg.beefy r.etf.commitments r.beefy x.1 x.2.1 x.2.2

variable (leafVersion : MmrLeafVersion) (mmrRoot : List (MmrLeaf ℕ Hash H E) → List UInt8)

/-- A block with renamed keys: its header with the keys renamed, and the runtime after it
renamed. -/
theorem initBlock_bls_mapKeys (r : State B Hash H E) (b : Block B Hash E) :
    initBlock cfg BeefyMmr.beefyBlsToEthereum merkleRoot leafVersion mmrRoot (r.mapKeys f)
        (b.mapKeys f) =
      ((initBlock cfg BeefyMmr.beefyBlsToEthereum merkleRoot leafVersion mmrRoot r b).1.mapKeys f,
        (initBlock cfg BeefyMmr.beefyBlsToEthereum merkleRoot leafVersion mmrRoot r b).2.mapKeys
          f) := by
  have hsession := sessionOnInitialize_bls_mapKeys f cfg merkleRoot r b.newSession
  simp only [Runtime.initBlock, mmrOnInitialize, Block.mapKeys, hsession]
  simp [State.mapKeys, Pallet.State.mapKeys, Header.mapKeys, ← List.map_drop,
    BeefyMmr.depositBeefyDigest, ConsensusLog.mapKeys]

/-- **Renamed runs.**  A run of renamed blocks from a renamed runtime is the run renamed. -/
theorem run_bls_mapKeys (r : State B Hash H E) (blocks : List (Block B Hash E)) :
    run cfg BeefyMmr.beefyBlsToEthereum merkleRoot leafVersion mmrRoot (r.mapKeys f)
        (blocks.map (Block.mapKeys f)) =
      ((run cfg BeefyMmr.beefyBlsToEthereum merkleRoot leafVersion mmrRoot r blocks).1.map
          (Header.mapKeys f),
        (run cfg BeefyMmr.beefyBlsToEthereum merkleRoot leafVersion mmrRoot r blocks).2.mapKeys
          f) := by
  induction blocks generalizing r with
  | nil => rfl
  | cons b blocks ih =>
    simp only [run, List.map_cons, Run.runFrom_cons] at ih ⊢
    rw [initBlock_bls_mapKeys, ih]

variable [Inhabited H]

/-- Genesis with renamed keys is genesis renamed. -/
theorem genesis_bls_mapKeys (genesisResharing : List (B × List UInt8))
    (roundPubkey : List UInt8) (authorities : List B) :
    (genesis cfg BeefyMmr.beefyBlsToEthereum merkleRoot (genesisResharing.map (Prod.map f id))
        roundPubkey (authorities.map f) : Option (State B' Hash H E)) =
      (genesis cfg BeefyMmr.beefyBlsToEthereum merkleRoot genesisResharing roundPubkey
        authorities).map (State.mapKeys f) := by
  unfold genesis
  rw [EtfPallet.genesisBuild_mapKeys]
  cases EtfPallet.genesisBuild cfg.etfMaxAuthorities genesisResharing roundPubkey with
  | none => rfl
  | some etf =>
    have hinit := Pallet.initializeAuthorities_mapKeys f cfg.beefy etf.commitments
      Pallet.State.empty authorities
    simp only [Option.map_some, EtfPallet.roundCommitments]
    rw [show (etf.mapKeys f).commitments = etf.commitments.map f from rfl,
      show (Pallet.State.empty : Pallet.State B') = Pallet.State.empty.mapKeys f from rfl, hinit]
    cases Pallet.initializeAuthorities cfg.beefy etf.commitments Pallet.State.empty authorities with
    | error e => rfl
    | ok beefy =>
      simp only [Except.map, Option.map_some]
      rw [← withOnNewValidatorSet_bls_mapKeys]
      rfl

/-- **The MMR ignores the BEEFY keys.**  With the BLS conversion, rename every key of the
genesis config and of the blocks by any `f`: genesis succeeds exactly when it did, and then
the roots in the headers and the leaves of the MMR are those of the original run. -/
theorem bls_mmr_ignores_keys (genesisResharing : List (B × List UInt8))
    (roundPubkey : List UInt8) (authorities : List B) (blocks : List (Block B Hash E)) :
    (genesis cfg BeefyMmr.beefyBlsToEthereum merkleRoot (genesisResharing.map (Prod.map f id))
        roundPubkey (authorities.map f)).map (fun r =>
      ((run cfg BeefyMmr.beefyBlsToEthereum merkleRoot leafVersion mmrRoot r
          (blocks.map (Block.mapKeys f))).1.map findMmrRootDigest,
        (run cfg BeefyMmr.beefyBlsToEthereum merkleRoot leafVersion mmrRoot r
          (blocks.map (Block.mapKeys f))).2.leaves)) =
      (genesis cfg BeefyMmr.beefyBlsToEthereum merkleRoot genesisResharing roundPubkey
        authorities).map (fun r =>
      ((run cfg BeefyMmr.beefyBlsToEthereum merkleRoot leafVersion mmrRoot r blocks).1.map
          findMmrRootDigest,
        (run cfg BeefyMmr.beefyBlsToEthereum merkleRoot leafVersion mmrRoot r blocks).2.leaves)) := by
  rw [genesis_bls_mapKeys, Option.map_map]
  congr 1
  funext r
  simp only [Function.comp_apply, run_bls_mapKeys, List.map_map]
  congr 2
  funext header
  exact findMmrRootDigest_mapKeys f header

end Runtime

end BeefyEtf
