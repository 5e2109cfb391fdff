/-
The runtime the BEEFY-MMR pallet is tested in (`pallets/beefy-mmr-etf/src/mock.rs`): the etf
pallet (`pallets/etf/src/lib.rs`) holds the round commitments, the BEEFY pallet the validator
sets, and the BEEFY-MMR pallet the authority sets the leaves of the MMR commit to.  The node's
own runtime wires none of the three.

At genesis the etf pallet is built first, then the session's genesis initializes the BEEFY
pallet with the genesis authorities.  Each block (`init_block` of the pallet's tests) runs
`Session::on_initialize`, which may start a session and so change the BEEFY authorities, then
`Mmr::on_initialize`, which appends the block's leaf and deposits the new root.  The BEEFY
pallet calls `OnNewValidatorSet` from `initialize` and `change_authorities`, with nothing
after the call that could fail; the model of that pallet records the calls in
`newValidatorSets`, and here each reaches the BEEFY-MMR pallet as it was made
(`withOnNewValidatorSet`).  The MMR is `pallet_mmr`'s: its leaves, with their root a
parameter.

* `mmr_leaves_replay_announcements` — over any run, the BEEFY-MMR pallet holds the authority
  sets of the last pair the BEEFY pallet announced, and the leaf of each block commits to the
  next set of the last pair announced by then;
* `mmr_tracks_validator_sets` — from a seeded genesis, through sessions with validators, the
  authority sets the MMR proves are the BEEFY pallet's current and queued sets;
* `unseeded_mmr_keeps_defaults` — from the etf pallet's default genesis, no header announces a
  validator set and every leaf commits to the default authority set, while the set id counts
  the sessions.
-/
import BeefyEtf.Mmr
import BeefyEtf.Pallet
import BeefyEtf.Run

namespace BeefyEtf

namespace EtfPallet

/-- The etf pallet's storage: the shares of the resharing, the commitments, and the round
key. -/
structure State (B : Type*) where
  shares : List (List UInt8)
  commitments : List B
  roundPublic : List UInt8
  deriving DecidableEq, Repr

variable {B : Type*}

/-- Every `ValueQuery` at its default. -/
def State.empty : State B := ⟨[], [], []⟩

/-- `Pallet::initialize`: the round key, the proofs of knowledge as shares and the ids as
commitments, each a `BoundedVec` under its bound; `none` where an `expect` panics. -/
def initializeResharing (maxAuthorities : ℕ) (s : State B) (genesisResharing : List (B × List UInt8))
    (roundKey : List UInt8) : Option (Except Unit (State B)) :=
  if 144 < roundKey.length then none
  else
    let s := { s with roundPublic := roundKey }
    if genesisResharing.any (fun g => 1024 < g.2.length) then none
    else if maxAuthorities < genesisResharing.length then none
    else
      let s := { s with shares := genesisResharing.map Prod.snd }
      if maxAuthorities < genesisResharing.length then some (.error ())
      else some (.ok { s with commitments := genesisResharing.map Prod.fst })

/-- The genesis build: `initialize` of the genesis config, its `Err` a panic as well. -/
def genesisBuild (maxAuthorities : ℕ) (genesisResharing : List (B × List UInt8))
    (roundPubkey : List UInt8) : Option (State B) :=
  match initializeResharing maxAuthorities State.empty genesisResharing roundPubkey with
  | some (.ok s) => some s
  | _ => none

/-- `RoundCommitmentProvider::get`. -/
def roundCommitments (s : State B) : List B := s.commitments

/-- The genesis build succeeds exactly on a round key of at most 144 bytes and at most
`MaxAuthorities` proofs of at most 1024 bytes: the shares are the proofs and the commitments
the ids. -/
theorem genesisBuild_eq_some_iff {maxAuthorities : ℕ} {genesisResharing : List (B × List UInt8)}
    {roundPubkey : List UInt8} {s : State B} :
    genesisBuild maxAuthorities genesisResharing roundPubkey = some s ↔
      roundPubkey.length ≤ 144 ∧ (∀ g ∈ genesisResharing, g.2.length ≤ 1024) ∧
        genesisResharing.length ≤ maxAuthorities ∧
        s = ⟨genesisResharing.map Prod.snd, genesisResharing.map Prod.fst, roundPubkey⟩ := by
  unfold genesisBuild initializeResharing
  split_ifs with hkey hpoks hlen
  · simp only [false_iff, not_and]
    omega
  · simp only [false_iff, not_and]
    intro _ hpoks'
    obtain ⟨g, hg, hlong⟩ := List.any_eq_true.mp hpoks
    exact absurd (hpoks' g hg) (by simpa using hlong)
  · simp only [false_iff, not_and]
    omega
  · have hpoks' : ∀ g ∈ genesisResharing, g.2.length ≤ 1024 := by
      simpa using hpoks
    simp only [Option.some.injEq, eq_comm (b := s)]
    exact ⟨fun h => ⟨by omega, hpoks', by omega, h⟩, fun h => h.2.2.2⟩

end EtfPallet

namespace Pallet

variable {B : Type*}

/-- The pair `change_authorities` hands `OnNewValidatorSet` for a new set `id`: none unless
both the set and the next one can be built. -/
def announcement (commitments new queued : List B) (id : ℕ) :
    Option (ValidatorSet B × ValidatorSet B) :=
  match ValidatorSet.new new commitments id with
  | some validatorSet => (ValidatorSet.new queued commitments (id + 1)).map (validatorSet, ·)
  | none => none

/-- What `change_authorities` does to the storage, all fields at once. -/
theorem changeAuthorities_eq (commitments : List B) (s : State B) (new queued : List B) :
    changeAuthorities commitments s new queued =
      { s with
          authorities := new
          validatorSetId := s.validatorSetId + 1
          nextAuthorities := queued
          digest := s.digest ++
            ((ValidatorSet.new new commitments (s.validatorSetId + 1)).map
              .authoritiesChange).toList
          newValidatorSets := s.newValidatorSets ++
            (announcement commitments new queued (s.validatorSetId + 1)).toList } := by
  dsimp only [changeAuthorities, announcement]
  split
  · split <;> simp_all
  · simp_all

/-- `on_new_session` is `change_authorities` of the lists cut to `MaxAuthorities`, with a new
`SetIdSession`. -/
theorem onNewSession_eq (cfg : Config) (commitments : List B) (s : State B)
    (validators queued : List B) (sessionIndex : ℕ) :
    ∃ setIdSession, onNewSession cfg commitments s validators queued sessionIndex =
      { changeAuthorities commitments s (validators.take cfg.maxAuthorities)
          (queued.take cfg.maxAuthorities) with setIdSession := setIdSession } := by
  dsimp only [onNewSession]
  split <;> exact ⟨_, rfl⟩

section OnNewSession

variable (cfg : Config) (commitments : List B) (s : State B) (validators queued : List B)
  (sessionIndex : ℕ)

@[simp] theorem onNewSession_authorities :
    (onNewSession cfg commitments s validators queued sessionIndex).authorities =
      validators.take cfg.maxAuthorities := by
  obtain ⟨m, hm⟩ := onNewSession_eq cfg commitments s validators queued sessionIndex
  rw [hm, changeAuthorities_eq]

@[simp] theorem onNewSession_nextAuthorities :
    (onNewSession cfg commitments s validators queued sessionIndex).nextAuthorities =
      queued.take cfg.maxAuthorities := by
  obtain ⟨m, hm⟩ := onNewSession_eq cfg commitments s validators queued sessionIndex
  rw [hm, changeAuthorities_eq]

@[simp] theorem onNewSession_digest :
    (onNewSession cfg commitments s validators queued sessionIndex).digest =
      s.digest ++ ((ValidatorSet.new (validators.take cfg.maxAuthorities) commitments
        (s.validatorSetId + 1)).map .authoritiesChange).toList := by
  obtain ⟨m, hm⟩ := onNewSession_eq cfg commitments s validators queued sessionIndex
  rw [hm, changeAuthorities_eq]

@[simp] theorem onNewSession_newValidatorSets :
    (onNewSession cfg commitments s validators queued sessionIndex).newValidatorSets =
      s.newValidatorSets ++ (announcement commitments (validators.take cfg.maxAuthorities)
        (queued.take cfg.maxAuthorities) (s.validatorSetId + 1)).toList := by
  obtain ⟨m, hm⟩ := onNewSession_eq cfg commitments s validators queued sessionIndex
  rw [hm, changeAuthorities_eq]

end OnNewSession

/-- Both sets can be built from non-empty lists and commitments. -/
theorem announcement_eq_some {commitments new queued : List B} (hnew : new ≠ [])
    (hqueued : queued ≠ []) (hcommitments : commitments ≠ []) (id : ℕ) :
    announcement commitments new queued id =
      some (⟨new, commitments, id⟩, ⟨queued, commitments, id + 1⟩) := by
  simp [announcement, ValidatorSet.new, hnew, hqueued, hcommitments]

/-- No set can be built without commitments. -/
@[simp] theorem announcement_nil (new queued : List B) (id : ℕ) :
    announcement [] new queued id = none := by
  simp [announcement, ValidatorSet.new]

/-- `initialize` of unset storage with at most `MaxAuthorities` authorities: set `0` of them,
announced when it can be built, and nothing deposited. -/
theorem initializeAuthorities_empty_eq (cfg : Config) (commitments authorities : List B)
    (hbound : authorities.length ≤ cfg.maxAuthorities) :
    ∃ setIdSession, initializeAuthorities cfg commitments State.empty authorities = .ok
      { State.empty with
          authorities := authorities
          nextAuthorities := authorities
          setIdSession := setIdSession
          newValidatorSets := (announcement commitments authorities authorities 0).toList } := by
  unfold initializeAuthorities
  split_ifs with hempty hset hmax
  · -- no authorities: the storage stays unset
    obtain rfl := List.isEmpty_iff.mp hempty
    exact ⟨∅, rfl⟩
  · simp [State.empty] at hset
  · omega
  · refine ⟨(∅ : Std.TreeMap ℕ ℕ).insert 0 0, ?_⟩
    unfold announcement
    rcases h₀ : ValidatorSet.new authorities commitments 0 with _ | vs <;>
      rcases h₁ : ValidatorSet.new authorities commitments 1 with _ | nvs <;>
      simp [h₀, h₁, genesisAuthoritySetId, State.empty]

end Pallet

namespace Runtime

/-- The runtime's constants: the BEEFY pallet's, and the etf pallet's `MaxAuthorities`. -/
structure Config where
  beefy : Pallet.Config
  etfMaxAuthorities : ℕ

/-- The storage of the three pallets, and the leaves of the MMR. -/
structure State (B Hash H E : Type*) where
  etf : EtfPallet.State B
  beefy : Pallet.State B
  beefyMmr : BeefyMmr.State H
  leaves : List (MmrLeaf ℕ Hash H E)

/-- What a block brings: its number and parent hash, the session it starts, if any, with the
validators, the queued validators and the index `pallet_session` hands on, and the extra data
of its leaf. -/
structure Block (B Hash E : Type*) where
  number : ℕ
  parentHash : Hash
  newSession : Option (List B × List B × ℕ)
  leafExtra : E

variable {B Hash H E : Type*}
variable (cfg : Config) (convert : B → List UInt8) (merkleRoot : List (List UInt8) → H)

/-- `on_new_validator_set` of the BEEFY-MMR pallet for each pair, in order. -/
def onNewValidatorSets (m : BeefyMmr.State H) (sets : List (ValidatorSet B × ValidatorSet B)) :
    BeefyMmr.State H :=
  sets.foldl (fun m x => BeefyMmr.onNewValidatorSet convert merkleRoot m x.1 x.2) m

/-- The runtime once a call of the BEEFY pallet left its storage at `beefy`: the pairs the
call announced reached the BEEFY-MMR pallet. -/
def withOnNewValidatorSet (r : State B Hash H E) (beefy : Pallet.State B) : State B Hash H E :=
  { r with
      beefy := beefy
      beefyMmr := onNewValidatorSets convert merkleRoot r.beefyMmr
        (beefy.newValidatorSets.drop r.beefy.newValidatorSets.length) }

/-- `Session::on_initialize`: on a new session, the BEEFY pallet's `on_new_session` with the
etf pallet's commitments. -/
def sessionOnInitialize (r : State B Hash H E) :
    Option (List B × List B × ℕ) → State B Hash H E
  | some (validators, queuedValidators, sessionIndex) =>
    withOnNewValidatorSet convert merkleRoot r
      (Pallet.onNewSession cfg.beefy (EtfPallet.roundCommitments r.etf) r.beefy validators
        queuedValidators sessionIndex)
  | none => r

variable (leafVersion : MmrLeafVersion) (mmrRoot : List (MmrLeaf ℕ Hash H E) → List UInt8)

/-- `Mmr::on_initialize`: the block's leaf appended, with `ParentNumberAndHash::leaf_data`
the parent's number, saturating, and hash; and the digest item of the new root. -/
def mmrOnInitialize (r : State B Hash H E) (b : Block B Hash E) :
    ConsensusLog B × State B Hash H E :=
  let leaves := r.leaves ++
    [BeefyMmr.leafData leafVersion (b.number - 1, b.parentHash) b.leafExtra r.beefyMmr]
  (BeefyMmr.depositBeefyDigest (mmrRoot leaves), { r with leaves := leaves })

/-- `init_block`: `Session::on_initialize`, then `Mmr::on_initialize`.  The block's header,
with the digest items the block deposited, and the runtime after it. -/
def initBlock (r : State B Hash H E) (b : Block B Hash E) : Header B × State B Hash H E :=
  let r₁ := sessionOnInitialize cfg convert merkleRoot r b.newSession
  let r₂ := mmrOnInitialize leafVersion mmrRoot r₁ b
  (⟨b.number, r₁.beefy.digest.drop r.beefy.digest.length ++ [r₂.1]⟩, r₂.2)

/-- Blocks one after another: their headers, and the runtime after the last. -/
def run (r : State B Hash H E) (blocks : List (Block B Hash E)) :
    List (Header B) × State B Hash H E :=
  Run.runFrom (initBlock cfg convert merkleRoot leafVersion mmrRoot) r blocks

section Runs

variable [Inhabited H]

/-- The storage at genesis: the etf pallet's genesis build, then the session's, which
initializes the BEEFY pallet with the genesis authorities (`on_genesis_session`); `none`
where either panics. -/
def genesis (genesisResharing : List (B × List UInt8)) (roundPubkey : List UInt8)
    (authorities : List B) : Option (State B Hash H E) :=
  match EtfPallet.genesisBuild cfg.etfMaxAuthorities genesisResharing roundPubkey with
  | none => none
  | some etf =>
    let r : State B Hash H E := ⟨etf, Pallet.State.empty, BeefyMmr.State.empty, []⟩
    match Pallet.initializeAuthorities cfg.beefy (EtfPallet.roundCommitments etf) r.beefy
        authorities with
    | .ok beefy => some (withOnNewValidatorSet convert merkleRoot r beefy)
    -- "Authorities vec too big"
    | .error () => none

/-- The authority sets of the last pair announced, or the defaults when none was. -/
def lastAuthoritySets (sets : List (ValidatorSet B × ValidatorSet B)) : BeefyMmr.State H :=
  match sets.getLast? with
  | some (currentSet, nextSet) =>
    ⟨BeefyMmr.computeAuthoritySet convert merkleRoot currentSet,
      BeefyMmr.computeAuthoritySet convert merkleRoot nextSet⟩
  | none => BeefyMmr.State.empty

/-! ### The BEEFY-MMR pallet follows the announcements -/

/-- `on_new_validator_set` overwrites both sets: from the defaults, the pairs announced leave
the sets of the last one. -/
theorem onNewValidatorSets_empty (sets : List (ValidatorSet B × ValidatorSet B)) :
    onNewValidatorSets convert merkleRoot BeefyMmr.State.empty sets =
      lastAuthoritySets convert merkleRoot sets := by
  rcases sets.eq_nil_or_concat with rfl | ⟨sets, x, rfl⟩
  · rfl
  · simp [onNewValidatorSets, lastAuthoritySets, BeefyMmr.onNewValidatorSet]

/-- The BEEFY-MMR pallet holds the authority sets of the last pair the BEEFY pallet
announced. -/
def Replays (r : State B Hash H E) : Prop :=
  r.beefyMmr = lastAuthoritySets convert merkleRoot r.beefy.newValidatorSets

omit [Inhabited H] in
/-- Announcements made after the first ones are replayed after them. -/
theorem onNewValidatorSets_append (m : BeefyMmr.State H)
    (sets sets' : List (ValidatorSet B × ValidatorSet B)) :
    onNewValidatorSets convert merkleRoot m (sets ++ sets') =
      onNewValidatorSets convert merkleRoot (onNewValidatorSets convert merkleRoot m sets) sets' :=
  List.foldl_append

/-- A call of the BEEFY pallet that only adds announcements keeps the BEEFY-MMR pallet in
step. -/
theorem Replays.withOnNewValidatorSet {r : State B Hash H E}
    (hr : Replays convert merkleRoot r) {beefy : Pallet.State B}
    (hpre : r.beefy.newValidatorSets <+: beefy.newValidatorSets) :
    Replays convert merkleRoot (withOnNewValidatorSet convert merkleRoot r beefy) := by
  obtain ⟨sets, hsets⟩ := hpre
  unfold Replays Runtime.withOnNewValidatorSet at *
  rw [← hsets, List.drop_left, hr, ← onNewValidatorSets_empty, ← onNewValidatorSets_empty,
    onNewValidatorSets_append]

omit [Inhabited H] in
@[simp] theorem sessionOnInitialize_etf (r : State B Hash H E)
    (newSession : Option (List B × List B × ℕ)) :
    (sessionOnInitialize cfg convert merkleRoot r newSession).etf = r.etf := by
  cases newSession <;> rfl

omit [Inhabited H] in
@[simp] theorem sessionOnInitialize_leaves (r : State B Hash H E)
    (newSession : Option (List B × List B × ℕ)) :
    (sessionOnInitialize cfg convert merkleRoot r newSession).leaves = r.leaves := by
  cases newSession <;> rfl

theorem Replays.sessionOnInitialize {r : State B Hash H E}
    (hr : Replays convert merkleRoot r) (newSession : Option (List B × List B × ℕ)) :
    Replays convert merkleRoot (sessionOnInitialize cfg convert merkleRoot r newSession) := by
  cases newSession with
  | none => exact hr
  | some x =>
    -- `on_new_session` only appends to the announcements
    apply hr.withOnNewValidatorSet
    simp only [Pallet.onNewSession_newValidatorSets]
    exact List.prefix_append _ _

omit [Inhabited H] in
/-- The step of a block: the session's, then the leaf and the root of it. -/
theorem initBlock_snd (r : State B Hash H E) (b : Block B Hash E) :
    (initBlock cfg convert merkleRoot leafVersion mmrRoot r b).2 =
      { sessionOnInitialize cfg convert merkleRoot r b.newSession with
          leaves := r.leaves ++ [BeefyMmr.leafData leafVersion (b.number - 1, b.parentHash)
            b.leafExtra (sessionOnInitialize cfg convert merkleRoot r b.newSession).beefyMmr] } := by
  simp [initBlock, mmrOnInitialize]

theorem Replays.initBlock {r : State B Hash H E} (hr : Replays convert merkleRoot r)
    (b : Block B Hash E) :
    Replays convert merkleRoot (initBlock cfg convert merkleRoot leafVersion mmrRoot r b).2 := by
  rw [initBlock_snd]
  exact hr.sessionOnInitialize cfg convert merkleRoot b.newSession

/-! ### Leaves -/

omit [Inhabited H] in
/-- A block appends exactly its leaf, which commits to the next authority set cached after
its session. -/
theorem initBlock_leaves (r : State B Hash H E) (b : Block B Hash E) :
    (initBlock cfg convert merkleRoot leafVersion mmrRoot r b).2.leaves =
      r.leaves ++ [BeefyMmr.leafData leafVersion (b.number - 1, b.parentHash) b.leafExtra
        (initBlock cfg convert merkleRoot leafVersion mmrRoot r b).2.beefyMmr] := by
  rw [initBlock_snd]

omit [Inhabited H] in
theorem length_leaves_run (r : State B Hash H E) (blocks : List (Block B Hash E)) :
    (run cfg convert merkleRoot leafVersion mmrRoot r blocks).2.leaves.length =
      r.leaves.length + blocks.length := by
  induction blocks generalizing r with
  | nil => rfl
  | cons b blocks ih =>
    simp only [run, Run.runFrom_cons] at ih ⊢
    rw [ih, initBlock_leaves, List.length_append, List.length_singleton, List.length_cons]
    omega

omit [Inhabited H] in
theorem leaves_prefix_run (r : State B Hash H E) (blocks : List (Block B Hash E)) :
    r.leaves <+: (run cfg convert merkleRoot leafVersion mmrRoot r blocks).2.leaves :=
  Run.runFrom_invariant (P := fun s : State B Hash H E => r.leaves <+: s.leaves)
    (fun s b hs => hs.trans (by rw [initBlock_leaves]; exact List.prefix_append _ _))
    (List.prefix_refl r.leaves) blocks

omit [Inhabited H] in
/-- The leaf of block `k` of a run commits to the next authority set the BEEFY-MMR pallet
held once that block's session was over. -/
theorem getElem?_leaves_run (r : State B Hash H E) (blocks : List (Block B Hash E)) (k : ℕ)
    (hk : k < blocks.length) :
    (run cfg convert merkleRoot leafVersion mmrRoot r blocks).2.leaves[r.leaves.length + k]? =
      some (BeefyMmr.leafData leafVersion (blocks[k].number - 1, blocks[k].parentHash)
        blocks[k].leafExtra
        (run cfg convert merkleRoot leafVersion mmrRoot r (blocks.take (k + 1))).2.beefyMmr) := by
  -- the run is its first `k + 1` blocks, then the rest
  have hsplit : (run cfg convert merkleRoot leafVersion mmrRoot r blocks).2 =
      (run cfg convert merkleRoot leafVersion mmrRoot
        (run cfg convert merkleRoot leafVersion mmrRoot r (blocks.take (k + 1))).2
        (blocks.drop (k + 1))).2 := by
    conv_lhs => rw [← List.take_append_drop (k + 1) blocks]
    simp only [run, Run.runFrom_append]
  have hstep : (run cfg convert merkleRoot leafVersion mmrRoot r (blocks.take (k + 1))).2 =
      (initBlock cfg convert merkleRoot leafVersion mmrRoot
        (run cfg convert merkleRoot leafVersion mmrRoot r (blocks.take k)).2 blocks[k]).2 := by
    simp only [run]
    rw [Run.runFrom_take_succ r blocks k hk]
  -- block `k` appends its leaf after the `r.leaves.length + k` before it
  have hlen : (run cfg convert merkleRoot leafVersion mmrRoot r (blocks.take k)).2.leaves.length =
      r.leaves.length + k := by
    rw [length_leaves_run, List.length_take]
    omega
  obtain ⟨rest, hrest⟩ := leaves_prefix_run cfg convert merkleRoot leafVersion mmrRoot
    (run cfg convert merkleRoot leafVersion mmrRoot r (blocks.take (k + 1))).2 (blocks.drop (k + 1))
  rw [hsplit, ← hrest, hstep, initBlock_leaves, List.getElem?_append_left (by simp [hlen]),
    ← hlen, List.getElem?_concat_length]

/-! ### Headers -/

omit [Inhabited H] in
/-- What a session deposits are authority changes: never a root. -/
theorem sessionOnInitialize_digest (r : State B Hash H E)
    (newSession : Option (List B × List B × ℕ)) :
    ∃ items, (sessionOnInitialize cfg convert merkleRoot r newSession).beefy.digest =
      r.beefy.digest ++ items ∧ ∀ root, .mmrRoot root ∉ items := by
  cases newSession with
  | none => exact ⟨[], by simp [Runtime.sessionOnInitialize], by simp⟩
  | some x =>
    refine ⟨((ValidatorSet.new (x.1.take cfg.beefy.maxAuthorities)
      (EtfPallet.roundCommitments r.etf) (r.beefy.validatorSetId + 1)).map
        .authoritiesChange).toList,
      by simp [Runtime.sessionOnInitialize, withOnNewValidatorSet], ?_⟩
    intro root hroot
    simp at hroot

omit [Inhabited H] in
/-- The payload of a block's header is the root of the MMR with the block's leaf. -/
theorem payload_initBlock (mmrRootApi : Option (List UInt8)) (r : State B Hash H E)
    (b : Block B Hash E) :
    MmrRootProvider.payload mmrRootApi (initBlock cfg convert merkleRoot leafVersion mmrRoot r b).1 =
      some (Payload.fromSingleEntry mmrRootId
        (mmrRoot (initBlock cfg convert merkleRoot leafVersion mmrRoot r b).2.leaves)) := by
  obtain ⟨items, hdigest, hitems⟩ := sessionOnInitialize_digest cfg convert merkleRoot r b.newSession
  simp only [Runtime.initBlock, mmrOnInitialize, hdigest, List.drop_left]
  exact MmrRootProvider.payload_depositBeefyDigest mmrRootApi b.number items hitems _

omit [Inhabited H] in
/-- **Every header carries its MMR root.**  Over any run, the payload the client's
`MmrRootProvider` gives for the header of block `k` is the root of the MMR once block `k`
appended its leaf, read from the header's digest, whatever the runtime API would answer. -/
theorem payload_headers_run (mmrRootApi : ℕ → Option (List UInt8)) (r : State B Hash H E)
    (blocks : List (Block B Hash E)) :
    (run cfg convert merkleRoot leafVersion mmrRoot r blocks).1.map
        (fun header => MmrRootProvider.payload (mmrRootApi header.number) header) =
      (List.range blocks.length).map fun k =>
        some (Payload.fromSingleEntry mmrRootId
          (mmrRoot (run cfg convert merkleRoot leafVersion mmrRoot r (blocks.take (k + 1))).2.leaves)) := by
  apply List.ext_getElem?
  intro k
  by_cases hk : k < blocks.length
  · -- header `k` is that of block `k`, made where the first `k` blocks left the runtime
    simp only [List.getElem?_map, run, Run.getElem?_runFrom r blocks k hk, Option.map_some,
      List.getElem?_range hk, Run.runFrom_take_succ r blocks k hk, payload_initBlock]
  · have hlen : blocks.length ≤ k := Nat.le_of_not_lt hk
    simp [hlen, run]

/-! ### Genesis -/

/-- Genesis within the bounds: the etf pallet's storage from the config, and set `0` of the
genesis authorities, announced when it can be built; no leaf yet. -/
theorem genesis_eq_some (genesisResharing : List (B × List UInt8)) (roundPubkey : List UInt8)
    (authorities : List B) (hkey : roundPubkey.length ≤ 144)
    (hpoks : ∀ g ∈ genesisResharing, g.2.length ≤ 1024)
    (hshares : genesisResharing.length ≤ cfg.etfMaxAuthorities)
    (hauthorities : authorities.length ≤ cfg.beefy.maxAuthorities) :
    ∃ r : State B Hash H E,
      genesis cfg convert merkleRoot genesisResharing roundPubkey authorities = some r ∧
      r.etf.commitments = genesisResharing.map Prod.fst ∧ r.beefy.authorities = authorities ∧
      r.beefy.nextAuthorities = authorities ∧ r.beefy.validatorSetId = 0 ∧ r.beefy.digest = [] ∧
      r.beefy.newValidatorSets =
        (Pallet.announcement (genesisResharing.map Prod.fst) authorities authorities 0).toList ∧
      r.leaves = [] ∧ Replays convert merkleRoot r := by
  have hetf := EtfPallet.genesisBuild_eq_some_iff.mpr ⟨hkey, hpoks, hshares, rfl⟩
  obtain ⟨setIdSession, hinit⟩ := Pallet.initializeAuthorities_empty_eq cfg.beefy
    (genesisResharing.map Prod.fst) authorities hauthorities
  -- the storage before the BEEFY pallet's genesis
  let r₀ : State B Hash H E :=
    ⟨⟨genesisResharing.map Prod.snd, genesisResharing.map Prod.fst, roundPubkey⟩,
      Pallet.State.empty, BeefyMmr.State.empty, []⟩
  have hr₀ : Replays convert merkleRoot r₀ := rfl
  refine ⟨withOnNewValidatorSet convert merkleRoot r₀
    { Pallet.State.empty with
        authorities := authorities
        nextAuthorities := authorities
        setIdSession := setIdSession
        newValidatorSets :=
          (Pallet.announcement (genesisResharing.map Prod.fst) authorities authorities 0).toList },
    ?_, rfl, rfl, rfl, rfl, rfl, rfl, rfl,
    hr₀.withOnNewValidatorSet convert merkleRoot (List.nil_prefix)⟩
  simp only [genesis, hetf, EtfPallet.roundCommitments, hinit]
  rfl

/-- **The MMR replays the BEEFY announcements.**  From a genesis within the bounds, over any
blocks: the BEEFY-MMR pallet holds the authority sets of the last pair the BEEFY pallet
announced, and the leaf of each block commits to the next set of the last pair announced by
the end of that block's session. -/
theorem mmr_leaves_replay_announcements (genesisResharing : List (B × List UInt8))
    (roundPubkey : List UInt8) (authorities : List B) (hkey : roundPubkey.length ≤ 144)
    (hpoks : ∀ g ∈ genesisResharing, g.2.length ≤ 1024)
    (hshares : genesisResharing.length ≤ cfg.etfMaxAuthorities)
    (hauthorities : authorities.length ≤ cfg.beefy.maxAuthorities)
    (blocks : List (Block B Hash E)) :
    ∃ r, genesis cfg convert merkleRoot genesisResharing roundPubkey authorities = some r ∧
      (run cfg convert merkleRoot leafVersion mmrRoot r blocks).2.beefyMmr =
        lastAuthoritySets convert merkleRoot
          (run cfg convert merkleRoot leafVersion mmrRoot r blocks).2.beefy.newValidatorSets ∧
      ∀ k (hk : k < blocks.length),
        (run cfg convert merkleRoot leafVersion mmrRoot r blocks).2.leaves[k]? =
          some ⟨leafVersion, (blocks[k].number - 1, blocks[k].parentHash),
            (lastAuthoritySets convert merkleRoot (run cfg convert merkleRoot leafVersion mmrRoot
              r (blocks.take (k + 1))).2.beefy.newValidatorSets).beefyNextAuthorities,
            blocks[k].leafExtra⟩ := by
  obtain ⟨r, hgen, -, -, -, -, -, -, hleaves, hr⟩ :=
    genesis_eq_some cfg convert merkleRoot genesisResharing roundPubkey authorities hkey hpoks
      hshares hauthorities
  -- every run from genesis keeps the BEEFY-MMR pallet in step
  have hruns : ∀ bs, Replays convert merkleRoot
      (run cfg convert merkleRoot leafVersion mmrRoot r bs).2 :=
    fun bs => Run.runFrom_invariant (fun s b hs => hs.initBlock cfg convert merkleRoot
      leafVersion mmrRoot b) hr bs
  refine ⟨r, hgen, hruns blocks, fun k hk => ?_⟩
  have h := getElem?_leaves_run cfg convert merkleRoot leafVersion mmrRoot r blocks k hk
  rw [hleaves, List.length_nil, Nat.zero_add, hruns (blocks.take (k + 1))] at h
  exact h

/-- The mock's genesis, authorities `1` and `2` with their shares, then a block that starts
the session of `1, 2` with `3, 4` queued and one that starts the session of `3, 4`. -/
theorem mmr_leaves_replay_announcements_mock :
    let cfg : Config := ⟨⟨100, 100⟩, 100⟩
    let genesisResharing : List (ℕ × List UInt8) := [(1, [2]), (2, [2])]
    let blocks : List (Block ℕ ℕ ℕ) :=
      [⟨1, 69, some ([1, 2], [3, 4], 1), 0⟩, ⟨2, 69, some ([3, 4], [3, 4], 2), 0⟩]
    let runOf := run cfg BeefyMmr.beefyBlsToEthereum List.length ⟨37⟩
      fun leaves : List (MmrLeaf ℕ ℕ ℕ ℕ) => [leaves.length.toUInt8]
    ([1] : List UInt8).length ≤ 144 ∧ (∀ g ∈ genesisResharing, g.2.length ≤ 1024) ∧
      genesisResharing.length ≤ cfg.etfMaxAuthorities ∧
      ([1, 2] : List ℕ).length ≤ cfg.beefy.maxAuthorities ∧
      ∃ r, genesis cfg BeefyMmr.beefyBlsToEthereum List.length genesisResharing [1] [1, 2] =
          some r ∧
        (runOf r blocks).2.beefyMmr = lastAuthoritySets BeefyMmr.beefyBlsToEthereum List.length
          (runOf r blocks).2.beefy.newValidatorSets ∧
        ∀ k (hk : k < blocks.length), (runOf r blocks).2.leaves[k]? =
          some ⟨⟨37⟩, (blocks[k].number - 1, blocks[k].parentHash),
            (lastAuthoritySets BeefyMmr.beefyBlsToEthereum List.length
              (runOf r (blocks.take (k + 1))).2.beefy.newValidatorSets).beefyNextAuthorities,
            blocks[k].leafExtra⟩ := by
  intro cfg genesisResharing blocks runOf
  exact ⟨by decide, by decide, by decide, by decide,
    mmr_leaves_replay_announcements cfg BeefyMmr.beefyBlsToEthereum List.length ⟨37⟩
      (fun leaves : List (MmrLeaf ℕ ℕ ℕ ℕ) => [leaves.length.toUInt8]) genesisResharing [1]
      [1, 2] (by decide) (by decide) (by decide) (by decide) blocks⟩

/-! ### Seeded runs -/

/-- The last pair the BEEFY pallet announced is its current set and the queued one, with the
etf pallet's commitments, and there are commitments. -/
def Announced (r : State B Hash H E) : Prop :=
  r.etf.commitments ≠ [] ∧
    r.beefy.newValidatorSets.getLast? =
      some (⟨r.beefy.authorities, r.etf.commitments, r.beefy.validatorSetId⟩,
        ⟨r.beefy.nextAuthorities, r.etf.commitments, r.beefy.validatorSetId + 1⟩)

omit [Inhabited H] in
/-- A session with validators and queued validators announces its sets. -/
theorem Announced.sessionOnInitialize (hmax : 0 < cfg.beefy.maxAuthorities)
    {r : State B Hash H E} (hr : Announced r) (newSession : Option (List B × List B × ℕ))
    (hsession : ∀ x ∈ newSession, x.1 ≠ [] ∧ x.2.1 ≠ []) :
    Announced (sessionOnInitialize cfg convert merkleRoot r newSession) := by
  cases newSession with
  | none => exact hr
  | some x =>
    obtain ⟨validators, queued, sessionIndex⟩ := x
    obtain ⟨hvalidators, hqueued⟩ := hsession _ rfl
    -- cut to `MaxAuthorities > 0`, the lists stay non-empty
    have hvalidators' : validators.take cfg.beefy.maxAuthorities ≠ [] := by
      simp [hvalidators, hmax.ne']
    have hqueued' : queued.take cfg.beefy.maxAuthorities ≠ [] := by
      simp [hqueued, hmax.ne']
    refine ⟨hr.1, ?_⟩
    simp [Runtime.sessionOnInitialize, withOnNewValidatorSet, EtfPallet.roundCommitments,
      Pallet.announcement_eq_some hvalidators' hqueued' hr.1]

omit [Inhabited H] in
theorem Announced.initBlock (hmax : 0 < cfg.beefy.maxAuthorities) {r : State B Hash H E}
    (hr : Announced r) (b : Block B Hash E)
    (hsession : ∀ x ∈ b.newSession, x.1 ≠ [] ∧ x.2.1 ≠ []) :
    Announced (initBlock cfg convert merkleRoot leafVersion mmrRoot r b).2 := by
  rw [initBlock_snd]
  exact hr.sessionOnInitialize cfg convert merkleRoot hmax b.newSession hsession

/-- **The MMR tracks the BEEFY validator sets.**  From a genesis within the bounds, with a
resharing and authorities, through blocks whose sessions have validators and queued
validators: the authority sets the BEEFY-MMR pallet proves are those of the BEEFY pallet's
current set and of its queued set, with the next id. -/
theorem mmr_tracks_validator_sets (genesisResharing : List (B × List UInt8))
    (roundPubkey : List UInt8) (authorities : List B) (hkey : roundPubkey.length ≤ 144)
    (hpoks : ∀ g ∈ genesisResharing, g.2.length ≤ 1024)
    (hshares : genesisResharing.length ≤ cfg.etfMaxAuthorities)
    (hauthorities : authorities.length ≤ cfg.beefy.maxAuthorities)
    (hseeded : genesisResharing ≠ []) (hne : authorities ≠ []) (blocks : List (Block B Hash E))
    (hsessions : ∀ b ∈ blocks, ∀ x ∈ b.newSession, x.1 ≠ [] ∧ x.2.1 ≠ []) :
    ∃ r, genesis cfg convert merkleRoot genesisResharing roundPubkey authorities = some r ∧
      BeefyMmr.authoritySetProof (run cfg convert merkleRoot leafVersion mmrRoot r blocks).2.beefyMmr =
        BeefyMmr.computeAuthoritySet convert merkleRoot
          ⟨(run cfg convert merkleRoot leafVersion mmrRoot r blocks).2.beefy.authorities,
            EtfPallet.roundCommitments (run cfg convert merkleRoot leafVersion mmrRoot r blocks).2.etf,
            (run cfg convert merkleRoot leafVersion mmrRoot r blocks).2.beefy.validatorSetId⟩ ∧
      BeefyMmr.nextAuthoritySetProof
          (run cfg convert merkleRoot leafVersion mmrRoot r blocks).2.beefyMmr =
        BeefyMmr.computeAuthoritySet convert merkleRoot
          ⟨(run cfg convert merkleRoot leafVersion mmrRoot r blocks).2.beefy.nextAuthorities,
            EtfPallet.roundCommitments (run cfg convert merkleRoot leafVersion mmrRoot r blocks).2.etf,
            (run cfg convert merkleRoot leafVersion mmrRoot r blocks).2.beefy.validatorSetId + 1⟩ := by
  obtain ⟨r, hgen, hcommitments, hauth, hnext, hid, -, hsets, -, hr⟩ :=
    genesis_eq_some cfg convert merkleRoot genesisResharing roundPubkey authorities hkey hpoks
      hshares hauthorities
  have hmax : 0 < cfg.beefy.maxAuthorities :=
    Nat.lt_of_lt_of_le (List.length_pos_of_ne_nil hne) hauthorities
  -- genesis announces set `0` of the authorities, and set `1` of them next
  have hseeded' : genesisResharing.map Prod.fst ≠ [] := by simpa using hseeded
  have ha : Announced r := by
    refine ⟨hcommitments ▸ hseeded', ?_⟩
    rw [hsets, hcommitments, Pallet.announcement_eq_some hne hne hseeded', hauth, hnext, hid]
    rfl
  -- both hold along the run: each block keeps them
  have hrun : Replays convert merkleRoot (run cfg convert merkleRoot leafVersion mmrRoot r blocks).2 ∧
      Announced (run cfg convert merkleRoot leafVersion mmrRoot r blocks).2 :=
    Run.runFrom_invariant_mem (P := fun s : State B Hash H E =>
        Replays convert merkleRoot s ∧ Announced s)
      (fun s b hb hs => ⟨hs.1.initBlock cfg convert merkleRoot leafVersion mmrRoot b,
        hs.2.initBlock cfg convert merkleRoot leafVersion mmrRoot hmax b (hsessions b hb)⟩)
      ⟨hr, ha⟩
  obtain ⟨hreplays, -, hlast⟩ := hrun
  unfold Replays at hreplays
  refine ⟨r, hgen, ?_, ?_⟩ <;>
    simp only [BeefyMmr.authoritySetProof, BeefyMmr.nextAuthoritySetProof, hreplays,
      lastAuthoritySets, hlast, EtfPallet.roundCommitments]

/-- The mock's genesis and its first two sessions, as for the leaves. -/
theorem mmr_tracks_validator_sets_mock :
    let cfg : Config := ⟨⟨100, 100⟩, 100⟩
    let genesisResharing : List (ℕ × List UInt8) := [(1, [2]), (2, [2])]
    let blocks : List (Block ℕ ℕ ℕ) :=
      [⟨1, 69, some ([1, 2], [3, 4], 1), 0⟩, ⟨2, 69, some ([3, 4], [3, 4], 2), 0⟩]
    let runOf := run cfg BeefyMmr.beefyBlsToEthereum List.length ⟨37⟩
      fun leaves : List (MmrLeaf ℕ ℕ ℕ ℕ) => [leaves.length.toUInt8]
    ([1] : List UInt8).length ≤ 144 ∧ (∀ g ∈ genesisResharing, g.2.length ≤ 1024) ∧
      genesisResharing.length ≤ cfg.etfMaxAuthorities ∧
      ([1, 2] : List ℕ).length ≤ cfg.beefy.maxAuthorities ∧ genesisResharing ≠ [] ∧
      ([1, 2] : List ℕ) ≠ [] ∧ (∀ b ∈ blocks, ∀ x ∈ b.newSession, x.1 ≠ [] ∧ x.2.1 ≠ []) ∧
      ∃ r, genesis cfg BeefyMmr.beefyBlsToEthereum List.length genesisResharing [1] [1, 2] =
          some r ∧
        BeefyMmr.authoritySetProof (runOf r blocks).2.beefyMmr =
          BeefyMmr.computeAuthoritySet BeefyMmr.beefyBlsToEthereum List.length
            ⟨(runOf r blocks).2.beefy.authorities,
              EtfPallet.roundCommitments (runOf r blocks).2.etf,
              (runOf r blocks).2.beefy.validatorSetId⟩ ∧
        BeefyMmr.nextAuthoritySetProof (runOf r blocks).2.beefyMmr =
          BeefyMmr.computeAuthoritySet BeefyMmr.beefyBlsToEthereum List.length
            ⟨(runOf r blocks).2.beefy.nextAuthorities,
              EtfPallet.roundCommitments (runOf r blocks).2.etf,
              (runOf r blocks).2.beefy.validatorSetId + 1⟩ := by
  intro cfg genesisResharing blocks runOf
  have hsessions : ∀ b ∈ blocks, ∀ x ∈ b.newSession, x.1 ≠ [] ∧ x.2.1 ≠ [] := by
    simp [blocks]
  exact ⟨by decide, by decide, by decide, by decide, by decide, by decide, hsessions,
    mmr_tracks_validator_sets cfg BeefyMmr.beefyBlsToEthereum List.length ⟨37⟩
      (fun leaves : List (MmrLeaf ℕ ℕ ℕ ℕ) => [leaves.length.toUInt8]) genesisResharing [1]
      [1, 2] (by decide) (by decide) (by decide) (by decide) (by decide) (by decide) blocks
      hsessions⟩

/-! ### Unseeded runs -/

omit [Inhabited H] in
/-- The BEEFY set id counts the sessions the blocks start. -/
theorem validatorSetId_run (r : State B Hash H E) (blocks : List (Block B Hash E)) :
    (run cfg convert merkleRoot leafVersion mmrRoot r blocks).2.beefy.validatorSetId =
      r.beefy.validatorSetId + (blocks.filter (·.newSession.isSome)).length := by
  induction blocks generalizing r with
  | nil => rfl
  | cons b blocks ih =>
    simp only [run, Run.runFrom_cons] at ih ⊢
    rw [ih, initBlock_snd]
    cases hb : b.newSession with
    | none => simp [hb, Runtime.sessionOnInitialize]
    | some x =>
      simp [hb, Runtime.sessionOnInitialize, withOnNewValidatorSet]
      omega

/-- Without commitments: the BEEFY pallet never deposited nor announced a set, and the
BEEFY-MMR pallet and every leaf hold the default authority sets. -/
structure Unseeded (r : State B Hash H E) : Prop where
  commitments : r.etf.commitments = []
  digest : r.beefy.digest = []
  newValidatorSets : r.beefy.newValidatorSets = []
  beefyMmr : r.beefyMmr = BeefyMmr.State.empty
  leaves : ∀ leaf ∈ r.leaves, leaf.beefyNextAuthoritySet = default

theorem Unseeded.sessionOnInitialize {r : State B Hash H E} (hr : Unseeded r)
    (newSession : Option (List B × List B × ℕ)) :
    Unseeded (sessionOnInitialize cfg convert merkleRoot r newSession) := by
  cases newSession with
  | none => exact hr
  | some x =>
    -- no set can be built without commitments
    have hnone : ∀ (validators : List B) id, ValidatorSet.new validators [] id = none := by
      simp [ValidatorSet.new]
    obtain ⟨hcommitments, hdigest, hsets, hmmr, hleaves⟩ := hr
    exact ⟨hcommitments, by simp [Runtime.sessionOnInitialize, EtfPallet.roundCommitments,
        withOnNewValidatorSet, hcommitments, hdigest, hnone],
      by simp [Runtime.sessionOnInitialize, EtfPallet.roundCommitments, withOnNewValidatorSet,
        hcommitments, hsets],
      by simp [Runtime.sessionOnInitialize, EtfPallet.roundCommitments, withOnNewValidatorSet,
        onNewValidatorSets, hcommitments, hsets, hmmr],
      hleaves⟩

/-- A block of an unseeded runtime announces no set in its header and appends a leaf with
the default authority set. -/
theorem Unseeded.initBlock {r : State B Hash H E} (hr : Unseeded r) (b : Block B Hash E) :
    Unseeded (initBlock cfg convert merkleRoot leafVersion mmrRoot r b).2 ∧
      findAuthoritiesChange (initBlock cfg convert merkleRoot leafVersion mmrRoot r b).1 = none := by
  have h₁ := hr.sessionOnInitialize cfg convert merkleRoot b.newSession
  refine ⟨?_, ?_⟩
  · rw [initBlock_snd]
    refine ⟨h₁.commitments, h₁.digest, h₁.newValidatorSets, h₁.beefyMmr, ?_⟩
    intro leaf hleaf
    rcases List.mem_append.mp hleaf with hold | hnew
    · exact hr.leaves leaf (by simpa using hold)
    · simp only [List.mem_singleton] at hnew
      simp [hnew, BeefyMmr.leafData, h₁.beefyMmr, BeefyMmr.State.empty]
  · -- the header holds only the root
    simp [Runtime.initBlock, mmrOnInitialize, h₁.digest, findAuthoritiesChange,
      BeefyMmr.depositBeefyDigest]

/-- **Unseeded ETF genesis.**  With the etf pallet's default genesis, no resharing, and a
genesis otherwise within the bounds, over any blocks: no header announces a validator set,
the BEEFY-MMR pallet keeps its default authority sets and every leaf commits to the default
one, while the BEEFY set id counts the sessions. -/
theorem unseeded_mmr_keeps_defaults (roundPubkey : List UInt8) (authorities : List B)
    (hkey : roundPubkey.length ≤ 144)
    (hauthorities : authorities.length ≤ cfg.beefy.maxAuthorities)
    (blocks : List (Block B Hash E)) :
    ∃ r, genesis cfg convert merkleRoot [] roundPubkey authorities = some r ∧
      (∀ header ∈ (run cfg convert merkleRoot leafVersion mmrRoot r blocks).1,
        findAuthoritiesChange header = none) ∧
      (run cfg convert merkleRoot leafVersion mmrRoot r blocks).2.beefyMmr =
        BeefyMmr.State.empty ∧
      (∀ leaf ∈ (run cfg convert merkleRoot leafVersion mmrRoot r blocks).2.leaves,
        leaf.beefyNextAuthoritySet = default) ∧
      (run cfg convert merkleRoot leafVersion mmrRoot r blocks).2.beefy.validatorSetId =
        (blocks.filter (·.newSession.isSome)).length := by
  obtain ⟨r, hgen, hcommitments, -, -, hid, hdigest, hsets, hleaves, hr⟩ :
      ∃ r : State B Hash H E, _ :=
    genesis_eq_some cfg convert merkleRoot [] roundPubkey authorities hkey
      (fun _ hg => absurd hg List.not_mem_nil) (Nat.zero_le _) hauthorities
  have hunseeded : Unseeded r :=
    ⟨hcommitments, hdigest, by simp [hsets], by simp [hr.trans, hsets, lastAuthoritySets],
      by simp [hleaves]⟩
  -- the headers so far announce nothing, block after block
  have hrun : Unseeded (run cfg convert merkleRoot leafVersion mmrRoot r blocks).2 ∧
      ∀ header ∈ [] ++ (run cfg convert merkleRoot leafVersion mmrRoot r blocks).1,
        findAuthoritiesChange header = none :=
    Run.runFrom_history (P := fun (s : State B Hash H E) (headers : List (Header B)) =>
        Unseeded s ∧ ∀ header ∈ headers, findAuthoritiesChange header = none)
      (fun s headers b hs => ⟨(hs.1.initBlock cfg convert merkleRoot leafVersion mmrRoot b).1,
        fun header hheader => by
          rcases List.mem_append.mp hheader with hold | hnew
          · exact hs.2 header hold
          · rw [List.mem_singleton.mp hnew]
            exact (hs.1.initBlock cfg convert merkleRoot leafVersion mmrRoot b).2⟩)
      ⟨hunseeded, by simp⟩ blocks
  obtain ⟨hend, hheaders⟩ := hrun
  refine ⟨r, hgen, fun header h => hheaders header (by simpa using h), hend.beefyMmr,
    hend.leaves, ?_⟩
  rw [validatorSetId_run, hid, Nat.zero_add]

/-- The etf pallet's default genesis under the mock's authorities and sessions. -/
theorem unseeded_mmr_keeps_defaults_mock :
    let cfg : Config := ⟨⟨100, 100⟩, 100⟩
    let blocks : List (Block ℕ ℕ ℕ) :=
      [⟨1, 69, some ([1, 2], [3, 4], 1), 0⟩, ⟨2, 69, none, 0⟩, ⟨3, 69, some ([3, 4], [3, 4], 2), 0⟩]
    let runOf := run cfg BeefyMmr.beefyBlsToEthereum List.length ⟨37⟩
      fun leaves : List (MmrLeaf ℕ ℕ ℕ ℕ) => [leaves.length.toUInt8]
    ([] : List UInt8).length ≤ 144 ∧ ([1, 2] : List ℕ).length ≤ cfg.beefy.maxAuthorities ∧
      ∃ r, genesis cfg BeefyMmr.beefyBlsToEthereum List.length [] [] [1, 2] = some r ∧
        (∀ header ∈ (runOf r blocks).1, findAuthoritiesChange header = none) ∧
        (runOf r blocks).2.beefyMmr = BeefyMmr.State.empty ∧
        (∀ leaf ∈ (runOf r blocks).2.leaves, leaf.beefyNextAuthoritySet = default) ∧
        (runOf r blocks).2.beefy.validatorSetId = 2 := by
  intro cfg blocks runOf
  exact ⟨by decide, by decide,
    unseeded_mmr_keeps_defaults cfg BeefyMmr.beefyBlsToEthereum List.length ⟨37⟩
      (fun leaves : List (MmrLeaf ℕ ℕ ℕ ℕ) => [leaves.length.toUInt8]) [] [1, 2] (by decide)
      (by decide) blocks⟩

end Runs

end Runtime

end BeefyEtf
