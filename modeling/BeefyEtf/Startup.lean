/-
Starting the voter (`BeefyWorkerBuilder::init_state` and `load_or_init_state`,
`client/consensus/beefy-etf/src/lib.rs`).

With no usable state in the database, `init_state` walks the finalized chain back from the
best GRANDPA block, pushing a session to the front of the queue for each header that
announces a validator set, until it meets a block with a BEEFY justification (the voter
resumes there) or the pallet's genesis block (the voter starts there with the genesis
validator set); `checked_new` then checks the queue.  With a stored state of the same
pallet genesis, `load_or_init_state` starts the sessions announced since.

The chain is given by its finalized headers, numbered from `0`: their digests, which of
them have a BEEFY justification, and what the runtime answers at each.

* `initStateLoop_walk` — past blocks with no justification and other than the genesis,
  the walk has collected exactly the sessions announced above it;
* `loadOrInitState_of_loaded` — a stored state gets the sessions announced above both its
  last session and its best BEEFY block, in increasing order, after `try_prune`;
* `initState_genesis_zero` — with the pallet genesis at block `0` the voter cannot start:
  `checked_new` refuses a session starting at block `0`;
* `startup_establishes_invariant` — on a consistent chain whose pallet genesis is past
  block `0`, `init_state` returns a state `checked_new` accepts, with the sessions announced
  above the last justified block or, with none justified, the genesis session and those
  after it.
-/
import BeefyEtf.Worker

namespace BeefyEtf

namespace Error

/-- The `Display` of the worker's `Error`, as `thiserror` derives it. -/
def toString : Error → String
  | .backend msg => "Backend: " ++ msg
  | .keystore msg => "Keystore error: " ++ msg
  | .runtimeApi msg => "Runtime api error: " ++ msg
  | .signature msg => "Signature error: " ++ msg
  | .uninitSession => "Session uninitialized"
  | .consensusReset => "pallet-beefy was reset"

end Error

/-- The finalized chain as the voter reads it at startup. -/
structure Chain (A : Type*) where
  /-- The BEEFY digest items of the header at each block number. -/
  digest : ℕ → List (ConsensusLog A)
  /-- The hash of the header at each block number, as the node prints it. -/
  hash : ℕ → String
  /-- Whether the backend holds a BEEFY justification for the block. -/
  justified : ℕ → Bool
  /-- The runtime's `validator_set` at the block, when it answers one. -/
  validatorSet : ℕ → Option (ValidatorSet A)
  /-- The runtime's `beefy_genesis` at the block, when it answers one. -/
  beefyGenesis : ℕ → Option ℕ

/-- The voter's database (`aux_schema`), as startup uses it. -/
structure AuxStore (A S : Type*) [Ord A] where
  /-- `load_persistent`: the stored state, if any, or the backend's error. -/
  loadPersistent : Except Error (Option (PersistedState A S))
  /-- `write_current_version`: the backend's message if the write fails. -/
  writeCurrentVersion : Except String Unit
  /-- `write_voter_state`: the backend's message if the write fails. -/
  writeVoterState : PersistedState A S → Except String Unit

namespace VoterOracle

variable {A S : Type*} [Ord A]

/-- The start of the last queued session, `0` with none. -/
def lastSessionStart (o : VoterOracle A S) : ℕ :=
  (o.sessions.getLast?.map Rounds.sessionStart).getD 0

/-- `can_add_session` of a block past `0`: whether it is above the last queued session. -/
theorem canAddSession_eq_decide (o : VoterOracle A S) {n : ℕ} (hn : 0 < n) :
    o.canAddSession n = decide (o.lastSessionStart < n) := by
  unfold canAddSession lastSessionStart
  cases o.sessions.getLast? with
  | some last => rfl
  | none => simp [hn]

/-- Adding a session that is not done drops the done ones, then appends it. -/
theorem addSession_eq {o : VoterOracle A S} {r : Rounds A S} (hr : r.mandatoryDone = false) :
    o.addSession r =
      { o with sessions := o.sessions.filter (fun s => !s.mandatoryDone) ++ [r] } := by
  unfold addSession tryPrune
  split
  · simp [List.filter_append, hr]
  · -- a single session after the append: the queue was empty
    rename_i hlen
    dsimp only at hlen
    have hnil : o.sessions = [] := List.eq_nil_of_length_eq_zero (by
      simp only [List.length_append, List.length_singleton] at hlen
      omega)
    simp [hnil]

end VoterOracle

namespace PersistedState

variable {A S : Type*} [Ord A]

/-- Starting sessions that are not done, in order, with `init_session_at`: the done
sessions are pruned once anything is added, and the new ones follow. -/
theorem foldl_initSessionAt (p : PersistedState A S) (l : List (ValidatorSet A × ℕ)) :
    l.foldl (fun state x => state.initSessionAt x.2 x.1) p =
      if l = [] then p
      else
        { p with
          votingOracle.sessions :=
            p.votingOracle.sessions.filter (fun r => !r.mandatoryDone) ++
              l.map fun x => Rounds.new x.2 x.1 } := by
  induction l generalizing p with
  | nil => rfl
  | cons x l ih =>
    rw [List.foldl_cons, ih, if_neg (List.cons_ne_nil x l)]
    unfold initSessionAt
    rw [VoterOracle.addSession_eq rfl]
    by_cases hl : l = []
    · simp [hl]
    · -- pruning again keeps what the first pruning kept, and the new sessions
      rw [if_neg hl]
      simp [List.filter_append, Rounds.new]

end PersistedState

namespace Chain

variable {A : Type*}

/-- The header at block `n`. -/
def header (chain : Chain A) (n : ℕ) : Header A := ⟨n, chain.digest n⟩

/-- The error of `wait_for_parent_header` at the genesis header.  Every other header has its
parent in the chain, so the wait for a header still syncing never happens here. -/
def noParentError (chain : Chain A) : Error :=
  .backend ("header " ++ chain.hash 0 ++ " is Genesis, there is no parent for it")

/-- `expect_validator_set`: the runtime's validator set at the header, else the one its
digest announces, else the same at its parent. -/
def expectValidatorSet (chain : Chain A) (n : ℕ) : Except Error (ValidatorSet A) :=
  match chain.validatorSet n, findAuthoritiesChange (chain.header n), n with
  | some active, _, _ => .ok active
  | none, some active, _ => .ok active
  -- `wait_for_parent_header`'s error, wrapped as `Error::Backend(e.to_string())`
  | none, none, 0 => .error (.backend chain.noParentError.toString)
  | none, none, m + 1 => expectValidatorSet chain m

section Startup

variable {S : Type*} [Ord A]

/-- `PersistedState::checked_new(..).ok_or_else(|| Error::Backend("Invalid BEEFY chain"))`. -/
def checkedNewOrInvalid (bestGrandpa bestBeefy : ℕ) (sessions : List (Rounds A S))
    (minBlockDelta beefyGenesis : ℕ) : Except Error (PersistedState A S) :=
  match PersistedState.checkedNew bestGrandpa bestBeefy sessions minBlockDelta beefyGenesis with
  | some state => .ok state
  | none => .error (.backend "Invalid BEEFY chain")

/-- One header of the walk of `init_state`, with the sessions found above it, earliest
first: at a block with a BEEFY justification, then at the pallet genesis, the walk ends
with the state built there (`.inl`); elsewhere it goes on (`.inr`) with the session the
header announces, if any, pushed to the front. -/
def initStateVisit (chain : Chain A) (beefyGenesis bestGrandpa minBlockDelta n : ℕ)
    (sessions : List (Rounds A S)) : Except Error (PersistedState A S) ⊕ List (Rounds A S) :=
  if chain.justified n then
    -- the voter resumes at the last BEEFY finalized block
    let bestBeefy := n
    if sessions.isEmpty then
      -- no session boundary above: new rounds here, marked as already finalized
      match chain.expectValidatorSet n with
      | .error e => .inl (.error e)
      | .ok activeSet =>
        .inl (checkedNewOrInvalid bestGrandpa bestBeefy
          [(Rounds.new bestBeefy activeSet).conclude bestBeefy] minBlockDelta beefyGenesis)
    else .inl (checkedNewOrInvalid bestGrandpa bestBeefy sessions minBlockDelta beefyGenesis)
  else if n = beefyGenesis then
    match chain.expectValidatorSet n with
    | .error e => .inl (.error e)
    | .ok genesisSet =>
      .inl (checkedNewOrInvalid bestGrandpa 0 (Rounds.new beefyGenesis genesisSet :: sessions)
        minBlockDelta beefyGenesis)
  else
    -- a block announcing a validator set is a mandatory block
    match findAuthoritiesChange (chain.header n) with
    | some active => .inr (Rounds.new n active :: sessions)
    | none => .inr sessions

/-- The loop of `init_state` from block `n` down. -/
def initStateLoop (chain : Chain A) (beefyGenesis bestGrandpa minBlockDelta : ℕ) :
    ℕ → List (Rounds A S) → Except Error (PersistedState A S)
  | n, sessions =>
    match chain.initStateVisit beefyGenesis bestGrandpa minBlockDelta n sessions, n with
    | .inl state, _ => state
    | .inr _, 0 => .error chain.noParentError
    | .inr sessions, m + 1 => initStateLoop chain beefyGenesis bestGrandpa minBlockDelta m sessions

/-- `BeefyWorkerBuilder::init_state`: the runtime must report the expected pallet genesis at
the best GRANDPA block; the walk starts there with no session, and its state is written. -/
def initState (chain : Chain A) (aux : AuxStore A S) (beefyGenesis bestGrandpa minBlockDelta : ℕ) :
    Except Error (PersistedState A S) :=
  if chain.beefyGenesis bestGrandpa = some beefyGenesis then
    match initStateLoop chain beefyGenesis bestGrandpa minBlockDelta bestGrandpa [] with
    | .error e => .error e
    | .ok state =>
      match aux.writeCurrentVersion, aux.writeVoterState state with
      | .error e, _ => .error (.backend e)
      | .ok (), .error e => .error (.backend e)
      | .ok (), .ok () => .ok state
  else .error (.backend "BEEFY pallet expected to be active.")

/-- The walk of `load_or_init_state` from block `n` down to the best BEEFY block of the
stored state: the validator sets announced above its last session, latest first.  The loop
stops before block `0`, whose missing parent is never asked for. -/
def missedSessions (chain : Chain A) (state : PersistedState A S) :
    ℕ → List (ValidatorSet A × ℕ) → List (ValidatorSet A × ℕ)
  | 0, newSessions => newSessions
  | m + 1, newSessions =>
    if m + 1 > state.votingOracle.bestBeefyBlock then
      let newSessions :=
        if state.votingOracle.canAddSession (m + 1) then
          match findAuthoritiesChange (chain.header (m + 1)) with
          | some active => newSessions ++ [(active, m + 1)]
          | none => newSessions
        else newSessions
      missedSessions chain state m newSessions
    else newSessions

/-- `BeefyWorkerBuilder::load_or_init_state`: a stored state of the same pallet genesis is
brought to the best GRANDPA block and `min_block_delta`, and the sessions missed meanwhile
are started, earliest first; otherwise the state is built by `init_state`. -/
def loadOrInitState (chain : Chain A) (aux : AuxStore A S)
    (beefyGenesis bestGrandpa minBlockDelta : ℕ) : Except Error (PersistedState A S) :=
  match aux.loadPersistent with
  | .error e => .error e
  | .ok persisted =>
    match persisted.filter (·.palletGenesis == beefyGenesis) with
    | some state =>
      let state := (state.setBestGrandpa bestGrandpa).setMinBlockDelta minBlockDelta
      let newSessions := chain.missedSessions state bestGrandpa []
      .ok (newSessions.reverse.foldl (fun state x => state.initSessionAt x.2 x.1) state)
    | none => initState chain aux beefyGenesis bestGrandpa minBlockDelta

end Startup

/-! ### What the headers announce -/

/-- The validator sets the headers in `(lo, hi]` announce, with their blocks, earliest
first. -/
def announcements (chain : Chain A) (lo hi : ℕ) : List (ValidatorSet A × ℕ) :=
  (List.range' (lo + 1) (hi - lo)).filterMap fun k =>
    (findAuthoritiesChange (chain.header k)).map fun active => (active, k)

theorem mem_announcements {chain : Chain A} {lo hi : ℕ} {x : ValidatorSet A × ℕ} :
    x ∈ chain.announcements lo hi ↔
      lo < x.2 ∧ x.2 ≤ hi ∧ findAuthoritiesChange (chain.header x.2) = some x.1 := by
  obtain ⟨vs, k⟩ := x
  simp only [announcements, List.mem_filterMap, List.mem_range'_1, Option.map_eq_some_iff,
    Prod.mk.injEq]
  constructor
  · rintro ⟨k', hk', vs', hfind, rfl, rfl⟩
    exact ⟨by omega, by omega, hfind⟩
  · rintro ⟨hlo, hhi, hfind⟩
    exact ⟨k, ⟨by omega, by omega⟩, vs, hfind, rfl, rfl⟩

theorem announcements_of_le {chain : Chain A} {lo hi : ℕ} (h : hi ≤ lo) :
    chain.announcements lo hi = [] := by
  rw [announcements, Nat.sub_eq_zero_of_le h, List.range'_zero, List.filterMap_nil]

/-- Below `hi`, the announcements from `m` are those of block `m + 1`, then those above. -/
theorem announcements_pred {chain : Chain A} {m hi : ℕ} (h : m < hi) :
    chain.announcements m hi =
      ((findAuthoritiesChange (chain.header (m + 1))).map fun active => (active, m + 1)).toList ++
        chain.announcements (m + 1) hi := by
  unfold announcements
  rw [show hi - m = hi - (m + 1) + 1 by omega, List.range'_succ, List.filterMap_cons]
  cases findAuthoritiesChange (chain.header (m + 1)) <;> rfl

/-- Above `lo`, the announcements up to `m + 1` are those up to `m`, then those of block
`m + 1`. -/
theorem announcements_succ {chain : Chain A} {lo m : ℕ} (h : lo ≤ m) :
    chain.announcements lo (m + 1) = chain.announcements lo m ++
      ((findAuthoritiesChange (chain.header (m + 1))).map fun active => (active, m + 1)).toList := by
  unfold announcements
  rw [show m + 1 - lo = m - lo + 1 by omega, List.range'_concat, List.filterMap_append,
    show lo + 1 + 1 * (m - lo) = m + 1 by omega]
  cases h : findAuthoritiesChange (chain.header (m + 1)) <;> simp [h]

theorem pairwise_announcements (chain : Chain A) (lo hi : ℕ) :
    (chain.announcements lo hi).Pairwise fun x y => x.2 < y.2 := by
  refine List.Pairwise.filterMap _ ?_ List.pairwise_lt_range'
  intro k k' hk x hx y hy
  obtain ⟨-, -, rfl⟩ := Option.map_eq_some_iff.mp hx
  obtain ⟨-, -, rfl⟩ := Option.map_eq_some_iff.mp hy
  exact hk

section Sessions

variable {S : Type*} [Ord A]

/-- A new session for each of them. -/
def announcedSessions (chain : Chain A) (lo hi : ℕ) : List (Rounds A S) :=
  (chain.announcements lo hi).map fun x => Rounds.new x.2 x.1

/-- The sessions announced above `m` are those announced by block `m + 1` and above. -/
theorem announcedSessions_pred {chain : Chain A} {m hi : ℕ} (h : m < hi) :
    (chain.announcedSessions m hi : List (Rounds A S)) =
      match findAuthoritiesChange (chain.header (m + 1)) with
      | some active => Rounds.new (m + 1) active :: chain.announcedSessions (m + 1) hi
      | none => chain.announcedSessions (m + 1) hi := by
  unfold announcedSessions
  rw [announcements_pred h]
  cases findAuthoritiesChange (chain.header (m + 1)) <;> rfl

theorem mandatoryDone_of_mem_announcedSessions {chain : Chain A} {lo hi : ℕ} {r : Rounds A S}
    (hr : r ∈ chain.announcedSessions lo hi) : r.mandatoryDone = false := by
  obtain ⟨x, -, rfl⟩ := List.mem_map.mp hr
  rfl

theorem announcedSessions_self (chain : Chain A) (n : ℕ) :
    (chain.announcedSessions n n : List (Rounds A S)) = [] := by
  rw [announcedSessions, announcements_of_le le_rfl, List.map_nil]

end Sessions

/-! ### The chain the voter starts on -/

/-- A justified block from `g` up to `bg` gives a last one. -/
theorem exists_last_justified (chain : Chain A) {g bg : ℕ}
    (h : ∃ k, g ≤ k ∧ k ≤ bg ∧ chain.justified k = true) :
    ∃ J, g ≤ J ∧ J ≤ bg ∧ chain.justified J = true ∧
      ∀ k, J < k → k ≤ bg → chain.justified k = false := by
  obtain ⟨k, hgk, hkbg, hjk⟩ := h
  have hspec := Nat.findGreatest_spec (P := fun k => g ≤ k ∧ chain.justified k = true) hkbg
    ⟨hgk, hjk⟩
  refine ⟨_, hspec.1, Nat.findGreatest_le bg, hspec.2, fun k hJk hkbg => ?_⟩
  have hnot := Nat.findGreatest_is_greatest hJk hkbg
  simp only [not_and, Bool.not_eq_true] at hnot
  exact hnot (by omega)

/-- Up to `bg`, the last justified block is unique. -/
theorem last_justified_unique {chain : Chain A} {bg J J' : ℕ} (hJ : J ≤ bg)
    (hj : chain.justified J = true) (hlast : ∀ k, J < k → k ≤ bg → chain.justified k = false)
    (hJ' : J' ≤ bg) (hj' : chain.justified J' = true)
    (hlast' : ∀ k, J' < k → k ≤ bg → chain.justified k = false) : J' = J := by
  by_contra hne
  rcases Nat.lt_or_gt_of_ne hne with hlt | hlt
  · exact absurd (hlast' J hlt hJ) (by simp [hj])
  · exact absurd (hlast J' hlt hJ') (by simp [hj'])

/-- What startup needs of the finalized chain from the pallet genesis `beefyGenesis` up to
the best GRANDPA block `bestGrandpa`: the runtime reports this genesis, and from it on a
validator set at the genesis; every reported or announced set has validators; and the
announced set ids strictly increase along the chain, above the genesis set's. -/
structure Consistent (chain : Chain A) (beefyGenesis bestGrandpa : ℕ) : Prop where
  genesis_pos : 0 < beefyGenesis
  genesis_le : beefyGenesis ≤ bestGrandpa
  reports_genesis : chain.beefyGenesis bestGrandpa = some beefyGenesis
  reports_genesis_set : (chain.validatorSet beefyGenesis).isSome
  reported_ne_nil : ∀ k vs, beefyGenesis ≤ k → k ≤ bestGrandpa →
    chain.validatorSet k = some vs → vs.validators ≠ []
  announced_ne_nil : ∀ k vs, beefyGenesis < k → k ≤ bestGrandpa →
    findAuthoritiesChange (chain.header k) = some vs → vs.validators ≠ []
  announced_id_lt : ∀ k k' vs vs', beefyGenesis < k → k < k' → k' ≤ bestGrandpa →
    findAuthoritiesChange (chain.header k) = some vs →
    findAuthoritiesChange (chain.header k') = some vs' → vs.id < vs'.id
  genesis_id_lt : ∀ vs₀ k vs, chain.validatorSet beefyGenesis = some vs₀ →
    beefyGenesis < k → k ≤ bestGrandpa →
    findAuthoritiesChange (chain.header k) = some vs → vs₀.id < vs.id

section Consistent

variable {chain : Chain A} {g bg : ℕ}

/-- Every block from the genesis on has a validator set, and `expect_validator_set` finds
one with validators. -/
theorem Consistent.expectValidatorSet (hc : chain.Consistent g bg) :
    ∀ n, g ≤ n → n ≤ bg → ∃ vs, chain.expectValidatorSet n = .ok vs ∧ vs.validators ≠ [] := by
  intro n hn
  induction n, hn using Nat.le_induction with
  | base =>
    intro hle
    obtain ⟨vs, hvs⟩ := Option.isSome_iff_exists.mp hc.reports_genesis_set
    refine ⟨vs, ?_, hc.reported_ne_nil g vs le_rfl hle hvs⟩
    unfold Chain.expectValidatorSet
    rw [hvs]
  | succ m hgm ih =>
    intro hle
    -- the walk of `expect_validator_set` moves to the parent only past both lookups
    unfold Chain.expectValidatorSet
    cases hrt : chain.validatorSet (m + 1) with
    | some vs => exact ⟨vs, rfl, hc.reported_ne_nil (m + 1) vs (by omega) hle hrt⟩
    | none =>
      cases hann : findAuthoritiesChange (chain.header (m + 1)) with
      | some vs => exact ⟨vs, rfl, hc.announced_ne_nil (m + 1) vs (by omega) hle hann⟩
      | none => exact ih (by omega)

variable {S : Type*} [Ord A]

/-- The sessions announced above a block from the genesis on form a queue `checked_new`
accepts. -/
theorem Consistent.wellFormed_announcedSessions (hc : chain.Consistent g bg) {lo : ℕ}
    (hlo : g ≤ lo) : VoterOracle.WellFormed bg (chain.announcedSessions lo bg : List (Rounds A S)) := by
  have hmem : ∀ r ∈ (chain.announcedSessions lo bg : List (Rounds A S)), ∃ x ∈ chain.announcements lo bg,
      r = Rounds.new x.2 x.1 := by
    intro r hr
    obtain ⟨x, hx, rfl⟩ := List.mem_map.mp hr
    exact ⟨x, hx, rfl⟩
  refine ⟨fun r hr => ?_, fun r hr => ?_, fun r hr => ?_, ?_, fun r hr => ?_⟩
  · obtain ⟨x, hx, rfl⟩ := hmem r hr
    obtain ⟨hlt, hle, hfind⟩ := mem_announcements.mp hx
    exact hc.announced_ne_nil x.2 x.1 (by omega) hle hfind
  · obtain ⟨x, hx, rfl⟩ := hmem r hr
    have := (mem_announcements.mp hx).1
    have := hc.genesis_pos
    show 0 < x.2
    omega
  · obtain ⟨x, hx, rfl⟩ := hmem r hr
    exact (mem_announcements.mp hx).2.1
  · unfold VoterOracle.Increasing announcedSessions
    rw [List.pairwise_map]
    refine (pairwise_announcements chain lo bg).imp_of_mem fun {x y} hx hy hxy => ⟨hxy, ?_⟩
    obtain ⟨hxlo, -, hxfind⟩ := mem_announcements.mp hx
    obtain ⟨-, hyle, hyfind⟩ := mem_announcements.mp hy
    exact hc.announced_id_lt x.2 y.2 x.1 y.1 (by omega) hxy hyle hxfind hyfind
  · exact mandatoryDone_of_mem_announcedSessions (List.mem_of_mem_tail hr)

/-- The genesis session followed by the sessions announced after it is a queue
`checked_new` accepts. -/
theorem Consistent.wellFormed_genesis (hc : chain.Consistent g bg) {vs₀ : ValidatorSet A}
    (hvs₀ : chain.validatorSet g = some vs₀) :
    VoterOracle.WellFormed bg (Rounds.new g vs₀ :: chain.announcedSessions g bg : List (Rounds A S)) := by
  have hwf := hc.wellFormed_announcedSessions (S := S) le_rfl
  -- the announced sessions start after the genesis, with larger set ids
  have habove : ∀ r ∈ (chain.announcedSessions g bg : List (Rounds A S)),
      g < r.sessionStart ∧ vs₀.id < r.validatorSetId := by
    intro r hr
    obtain ⟨x, hx, rfl⟩ := List.mem_map.mp hr
    obtain ⟨hlt, hle, hfind⟩ := mem_announcements.mp hx
    exact ⟨hlt, hc.genesis_id_lt vs₀ x.2 x.1 hvs₀ hlt hle hfind⟩
  refine ⟨?_, ?_, ?_, List.pairwise_cons.mpr ⟨habove, hwf.increasing⟩,
    fun r hr => mandatoryDone_of_mem_announcedSessions hr⟩
  · exact List.forall_mem_cons.mpr
      ⟨hc.reported_ne_nil g vs₀ le_rfl hc.genesis_le hvs₀, hwf.validators_ne_nil⟩
  · exact List.forall_mem_cons.mpr ⟨hc.genesis_pos, hwf.start_pos⟩
  · exact List.forall_mem_cons.mpr ⟨hc.genesis_le, hwf.start_le⟩

end Consistent

section Queue

variable {S : Type*} [Ord A]

/-! ### The walk of `init_state` -/

/-- A queue of one session with validators, starting after block `0` and at most at `bg`,
is accepted by `checked_new`. -/
theorem wellFormed_singleton {bg : ℕ} {r : Rounds A S} (hv : r.validators ≠ [])
    (hpos : 0 < r.sessionStart) (hle : r.sessionStart ≤ bg) : VoterOracle.WellFormed bg [r] where
  validators_ne_nil x hx := List.mem_singleton.mp hx ▸ hv
  start_pos x hx := List.mem_singleton.mp hx ▸ hpos
  start_le x hx := List.mem_singleton.mp hx ▸ hle
  increasing := List.pairwise_singleton _ _
  tail_undone x hx := by simp at hx

/-- `checked_new` accepts a non-empty well-formed queue under the best GRANDPA block. -/
theorem checkedNewOrInvalid_eq_ok {bg b d g : ℕ} {sessions : List (Rounds A S)}
    (hne : sessions ≠ []) (hb : b ≤ bg) (hwf : VoterOracle.WellFormed bg sessions) :
    checkedNewOrInvalid bg b sessions d g = .ok ⟨0, ⟨sessions, max d 1, bg, b⟩, g⟩ := by
  unfold checkedNewOrInvalid PersistedState.checkedNew
  rw [(VoterOracle.checkedNew_eq_some_iff sessions d bg b _).mpr ⟨⟨hne, hb, hwf⟩, rfl⟩]
  rfl

/-- A queue whose front session starts at block `0` is an invalid BEEFY chain. -/
theorem checkedNewOrInvalid_start_zero {bg b d g : ℕ} {r : Rounds A S} {rest : List (Rounds A S)}
    (hr : r.sessionStart = 0) :
    checkedNewOrInvalid bg b (r :: rest) d g = .error (.backend "Invalid BEEFY chain") := by
  unfold checkedNewOrInvalid PersistedState.checkedNew
  cases hnew : VoterOracle.checkedNew (r :: rest) d bg b with
  | none => rfl
  | some o =>
    obtain ⟨⟨-, -, hwf⟩, -⟩ := (VoterOracle.checkedNew_eq_some_iff _ d bg b o).mp hnew
    have := hwf.start_pos r List.mem_cons_self
    omega

section Walk

variable (chain : Chain A) (g bg d : ℕ)

theorem initStateLoop_of_visit_inl {n : ℕ} {sessions : List (Rounds A S)}
    {r : Except Error (PersistedState A S)}
    (h : chain.initStateVisit g bg d n sessions = .inl r) :
    chain.initStateLoop g bg d n sessions = r := by
  unfold initStateLoop
  rw [h]

theorem initStateLoop_succ_of_visit_inr {m : ℕ} {sessions sessions' : List (Rounds A S)}
    (h : chain.initStateVisit g bg d (m + 1) sessions = .inr sessions') :
    chain.initStateLoop g bg d (m + 1) sessions = chain.initStateLoop g bg d m sessions' := by
  conv_lhs => unfold initStateLoop
  rw [h]

/-- A block with no justification, other than the genesis, pushes the session it
announces. -/
theorem initStateVisit_of_pass {n : ℕ} (sessions : List (Rounds A S))
    (hj : chain.justified n = false) (hg : n ≠ g) :
    chain.initStateVisit g bg d n sessions =
      .inr (match findAuthoritiesChange (chain.header n) with
        | some active => Rounds.new n active :: sessions
        | none => sessions) := by
  unfold initStateVisit
  rw [if_neg (by simp [hj]), if_neg hg]
  cases findAuthoritiesChange (chain.header n) <;> rfl

/-- **The walk.**  Down from `n` to `lo`, past blocks with no justification and other than
the genesis, the walk has collected exactly the sessions announced above the block it is
at. -/
theorem initStateLoop_walk {lo n : ℕ} (hlo : lo ≤ n) (hn : n ≤ bg)
    (hpass : ∀ k, lo < k → k ≤ n → chain.justified k = false ∧ k ≠ g) :
    chain.initStateLoop g bg d n (chain.announcedSessions n bg : List (Rounds A S)) =
      chain.initStateLoop g bg d lo (chain.announcedSessions lo bg) := by
  induction n, hlo using Nat.le_induction with
  | base => rfl
  | succ m hlm ih =>
    obtain ⟨hj, hg⟩ := hpass (m + 1) (by omega) le_rfl
    rw [initStateLoop_succ_of_visit_inr chain g bg d (initStateVisit_of_pass chain g bg d _ hj hg),
      ← ih (by omega) fun k hk hkm => hpass k hk (by omega),
      announcedSessions_pred (by omega : m < bg)]

/-- The walk from the best GRANDPA block down to `lo`, past blocks with no justification and
other than the genesis, reaches `lo` with the sessions announced above it. -/
theorem initStateLoop_from_top {lo : ℕ} (hlo : lo ≤ bg)
    (hpass : ∀ k, lo < k → k ≤ bg → chain.justified k = false ∧ k ≠ g) :
    chain.initStateLoop g bg d bg ([] : List (Rounds A S)) =
      chain.initStateLoop g bg d lo (chain.announcedSessions lo bg) := by
  rw [← initStateLoop_walk chain g bg d hlo le_rfl hpass, announcedSessions_self]

/-- At the genesis, with no justification there, the walk ends with the genesis session in
front of the sessions collected. -/
theorem initStateLoop_genesis {vs₀ : ValidatorSet A} (hvs₀ : chain.validatorSet g = some vs₀)
    (hj : chain.justified g = false) (sessions : List (Rounds A S)) :
    chain.initStateLoop g bg d g sessions =
      checkedNewOrInvalid bg 0 (Rounds.new g vs₀ :: sessions) d g := by
  have hev : chain.expectValidatorSet g = .ok vs₀ := by
    unfold expectValidatorSet
    rw [hvs₀]
  apply initStateLoop_of_visit_inl
  unfold initStateVisit
  rw [if_neg (by simp [hj]), if_pos rfl, hev]

/-- At a justified block with sessions collected, the walk ends with them. -/
theorem initStateLoop_justified {J : ℕ} (hj : chain.justified J = true)
    {sessions : List (Rounds A S)} (hne : sessions ≠ []) :
    chain.initStateLoop g bg d J sessions = checkedNewOrInvalid bg J sessions d g := by
  apply initStateLoop_of_visit_inl
  unfold initStateVisit
  rw [if_pos hj, if_neg (by simpa using hne)]

/-- At a justified block with no session collected, the walk ends with a session starting
there, its round already concluded. -/
theorem initStateLoop_justified_nil {J : ℕ} (hj : chain.justified J = true)
    {vs : ValidatorSet A} (hvs : chain.expectValidatorSet J = .ok vs) :
    chain.initStateLoop g bg d J ([] : List (Rounds A S)) =
      checkedNewOrInvalid bg J [(Rounds.new J vs).conclude J] d g := by
  apply initStateLoop_of_visit_inl
  unfold initStateVisit
  rw [if_pos hj, if_pos List.isEmpty_nil, hvs]

end Walk

/-! ### What `init_state` and `load_or_init_state` return -/

section Init

variable {chain : Chain A} {g bg : ℕ} (d : ℕ)

/-- With no justified block from the genesis on, the walk from the best GRANDPA block
starts the voter at the genesis. -/
theorem Consistent.initStateLoop_of_unjustified (hc : chain.Consistent g bg)
    (hnone : ∀ k, g ≤ k → k ≤ bg → chain.justified k = false) :
    ∃ vs₀, chain.validatorSet g = some vs₀ ∧
      chain.initStateLoop g bg d bg ([] : List (Rounds A S)) =
        .ok ⟨0, ⟨Rounds.new g vs₀ :: chain.announcedSessions g bg, max d 1, bg, 0⟩, g⟩ := by
  obtain ⟨vs₀, hvs₀⟩ := Option.isSome_iff_exists.mp hc.reports_genesis_set
  refine ⟨vs₀, hvs₀, ?_⟩
  rw [initStateLoop_from_top chain g bg d hc.genesis_le fun k hk hkbg =>
      ⟨hnone k hk.le hkbg, by omega⟩,
    initStateLoop_genesis chain g bg d hvs₀ (hnone g le_rfl hc.genesis_le)]
  exact checkedNewOrInvalid_eq_ok (List.cons_ne_nil _ _) (Nat.zero_le _)
    (hc.wellFormed_genesis hvs₀)

/-- With `J` the last justified block from the genesis on, the walk from the best GRANDPA
block resumes the voter at `J`, with the sessions announced above it or, with none, a
session at `J` already finalized. -/
theorem Consistent.initStateLoop_of_justified (hc : chain.Consistent g bg) {J : ℕ}
    (hgJ : g ≤ J) (hJ : J ≤ bg) (hj : chain.justified J = true)
    (hlast : ∀ k, J < k → k ≤ bg → chain.justified k = false) :
    ∃ sessions : List (Rounds A S),
      chain.initStateLoop g bg d bg [] = .ok ⟨0, ⟨sessions, max d 1, bg, J⟩, g⟩ ∧
      sessions ≠ [] ∧ VoterOracle.WellFormed bg sessions ∧
      ((chain.announcedSessions J bg : List (Rounds A S)) ≠ [] →
        sessions = chain.announcedSessions J bg) ∧
      ((chain.announcedSessions J bg : List (Rounds A S)) = [] →
        ∃ vs, chain.expectValidatorSet J = .ok vs ∧ sessions = [(Rounds.new J vs).conclude J]) := by
  rw [initStateLoop_from_top chain g bg d hJ fun k hk hkbg => ⟨hlast k hk hkbg, by omega⟩]
  by_cases hann : (chain.announcedSessions J bg : List (Rounds A S)) = []
  · -- nothing announced above `J`: one session at `J`, its round concluded
    obtain ⟨vs, hvs, hne⟩ := hc.expectValidatorSet J hgJ hJ
    have hpos : 0 < J := lt_of_lt_of_le hc.genesis_pos hgJ
    have hwf : VoterOracle.WellFormed bg [((Rounds.new J vs).conclude J : Rounds A S)] :=
      wellFormed_singleton hne hpos hJ
    refine ⟨_, ?_, List.cons_ne_nil _ _, hwf, fun h => absurd hann h, fun _ => ⟨vs, hvs, rfl⟩⟩
    rw [hann, initStateLoop_justified_nil chain g bg d hj hvs]
    exact checkedNewOrInvalid_eq_ok (List.cons_ne_nil _ _) hJ hwf
  · have hwf := hc.wellFormed_announcedSessions (S := S) hgJ
    refine ⟨_, ?_, hann, hwf, fun _ => rfl, fun h => absurd h hann⟩
    rw [initStateLoop_justified chain g bg d hj hann]
    exact checkedNewOrInvalid_eq_ok hann hJ hwf

/-- Past the check of the pallet genesis, `init_state` returns the state of the walk once
both writes succeed. -/
theorem initState_of_initStateLoop {aux : AuxStore A S} {state : PersistedState A S}
    (hrep : chain.beefyGenesis bg = some g)
    (hloop : chain.initStateLoop g bg d bg [] = .ok state)
    (hversion : aux.writeCurrentVersion = .ok ()) (hwrite : aux.writeVoterState state = .ok ()) :
    chain.initState aux g bg d = .ok state := by
  unfold initState
  rw [if_pos hrep, hloop]
  simp only [hversion, hwrite]

end Init

/-- The walk of `load_or_init_state` collects, latest first, the validator sets announced
above both the last session and the best BEEFY block of the stored state. -/
theorem missedSessions_eq (chain : Chain A) (state : PersistedState A S) :
    ∀ n acc, chain.missedSessions state n acc = acc ++ (chain.announcements
      (max state.votingOracle.lastSessionStart state.votingOracle.bestBeefyBlock) n).reverse := by
  intro n
  induction n with
  | zero =>
    intro acc
    rw [missedSessions, announcements_of_le (Nat.zero_le _), List.reverse_nil, List.append_nil]
  | succ m ih =>
    intro acc
    rw [missedSessions]
    by_cases hbb : m + 1 > state.votingOracle.bestBeefyBlock
    · rw [if_pos hbb]
      dsimp only
      by_cases hls : state.votingOracle.lastSessionStart < m + 1
      · -- above both bounds: block `m + 1` adds what it announces
        rw [VoterOracle.canAddSession_eq_decide _ (Nat.succ_pos m), decide_eq_true hls, if_pos rfl,
          ih, announcements_succ (by omega)]
        cases findAuthoritiesChange (chain.header (m + 1)) <;> simp
      · rw [VoterOracle.canAddSession_eq_decide _ (Nat.succ_pos m), decide_eq_false hls,
          if_neg Bool.false_ne_true, ih, announcements_of_le (by omega),
          announcements_of_le (by omega)]
    · rw [if_neg hbb, announcements_of_le (by omega), List.reverse_nil, List.append_nil]

/-- A stored state of the same pallet genesis is loaded by starting, with
`init_session_at`, the validator sets announced above both its last session and its best
BEEFY block, earliest first. -/
theorem loadOrInitState_eq_foldl {chain : Chain A} {aux : AuxStore A S} {g bg d : ℕ}
    {p : PersistedState A S} (hload : aux.loadPersistent = .ok (some p))
    (hg : p.palletGenesis = g) :
    chain.loadOrInitState aux g bg d =
      .ok ((chain.announcements
          (max p.votingOracle.lastSessionStart p.votingOracle.bestBeefyBlock) bg).foldl
        (fun state x => state.initSessionAt x.2 x.1) ((p.setBestGrandpa bg).setMinBlockDelta d)) := by
  unfold loadOrInitState
  rw [hload]
  dsimp only
  rw [Option.filter_some, if_pos (by simp [hg])]
  dsimp only
  rw [missedSessions_eq, List.nil_append, List.reverse_reverse]
  rfl

/-- A stored state of the same pallet genesis is loaded with the sessions announced above
both its last session and its best BEEFY block started, in increasing order. -/
theorem loadOrInitState_of_loaded {chain : Chain A} {aux : AuxStore A S} {g bg d : ℕ}
    {p : PersistedState A S} (hload : aux.loadPersistent = .ok (some p))
    (hg : p.palletGenesis = g) :
    chain.loadOrInitState aux g bg d =
      .ok (let missed := chain.announcements
              (max p.votingOracle.lastSessionStart p.votingOracle.bestBeefyBlock) bg
            let loaded := (p.setBestGrandpa bg).setMinBlockDelta d
            if missed = [] then loaded
            else
              { loaded with
                votingOracle.sessions :=
                  loaded.votingOracle.sessions.filter (fun r => !r.mandatoryDone) ++
                    missed.map fun x => Rounds.new x.2 x.1 }) := by
  rw [loadOrInitState_eq_foldl hload hg, PersistedState.foldl_initSessionAt]

/-- With the pallet genesis at block `0` and no justified block, `init_state` fails: the
genesis session starts at block `0`, which the loop of `checked_new`, starting from
`prev_start = 0`, refuses. -/
theorem initState_genesis_zero {chain : Chain A} {aux : AuxStore A S} {bg d : ℕ}
    {vs₀ : ValidatorSet A} (hrep : chain.beefyGenesis bg = some 0)
    (hvs₀ : chain.validatorSet 0 = some vs₀) (hnone : ∀ k, k ≤ bg → chain.justified k = false) :
    chain.initState aux 0 bg d = .error (.backend "Invalid BEEFY chain") := by
  unfold initState
  rw [if_pos hrep, initStateLoop_from_top chain 0 bg d (Nat.zero_le bg) fun k hk hkbg =>
      ⟨hnone k hkbg, by omega⟩, initStateLoop_genesis chain 0 bg d hvs₀ (hnone 0 (Nat.zero_le _)),
    checkedNewOrInvalid_start_zero rfl]

/-- What `init_state` returns on a consistent chain, by the last justified block from the
genesis on: with none, the genesis session and those announced after it; with `J`, the
sessions announced above `J` or a session at `J` already finalized. -/
theorem Consistent.initState_cases {chain : Chain A} {aux : AuxStore A S} {g bg : ℕ} (d : ℕ)
    (hc : chain.Consistent g bg) (hversion : aux.writeCurrentVersion = .ok ())
    (hwrite : ∀ p, aux.writeVoterState p = .ok ()) :
    ((∀ k, g ≤ k → k ≤ bg → chain.justified k = false) ∧
      ∃ vs₀, chain.validatorSet g = some vs₀ ∧ chain.initState aux g bg d =
        .ok ⟨0, ⟨Rounds.new g vs₀ :: chain.announcedSessions g bg, max d 1, bg, 0⟩, g⟩) ∨
    ∃ J, g ≤ J ∧ J ≤ bg ∧ chain.justified J = true ∧
      (∀ k, J < k → k ≤ bg → chain.justified k = false) ∧
      ∃ sessions : List (Rounds A S),
        chain.initState aux g bg d = .ok ⟨0, ⟨sessions, max d 1, bg, J⟩, g⟩ ∧
        sessions ≠ [] ∧ VoterOracle.WellFormed bg sessions ∧
        ((chain.announcedSessions J bg : List (Rounds A S)) ≠ [] →
          sessions = chain.announcedSessions J bg) ∧
        ((chain.announcedSessions J bg : List (Rounds A S)) = [] →
          ∃ vs, chain.expectValidatorSet J = .ok vs ∧
            sessions = [(Rounds.new J vs).conclude J]) := by
  by_cases hsome : ∃ k, g ≤ k ∧ k ≤ bg ∧ chain.justified k = true
  · -- the walk stops at the last justified block
    obtain ⟨J, hgJ, hJbg, hjJ, hlast⟩ := chain.exists_last_justified hsome
    obtain ⟨sessions, hloop, hrest⟩ := hc.initStateLoop_of_justified d hgJ hJbg hjJ hlast
    exact .inr ⟨J, hgJ, hJbg, hjJ, hlast, sessions,
      initState_of_initStateLoop d hc.reports_genesis hloop hversion (hwrite _), hrest⟩
  · -- no justified block: the walk reaches the genesis
    have hnone : ∀ k, g ≤ k → k ≤ bg → chain.justified k = false := by
      intro k hgk hkbg
      cases hjk : chain.justified k with
      | false => rfl
      | true => exact absurd ⟨k, hgk, hkbg, hjk⟩ hsome
    obtain ⟨vs₀, hvs₀, hloop⟩ := hc.initStateLoop_of_unjustified (S := S) d hnone
    exact .inl ⟨hnone, vs₀, hvs₀,
      initState_of_initStateLoop d hc.reports_genesis hloop hversion (hwrite _)⟩

/-- **Starting the voter.**  On a chain consistent from a pallet genesis past block `0` up
to the best GRANDPA block, with the database accepting the writes, `init_state` returns a
state `checked_new` accepts, keeping the oracle's invariant: with no justified block from
the genesis on, the genesis session with the sessions announced after it and best BEEFY
block `0`; with `J` the last justified block, best BEEFY block `J` and the sessions
announced above `J`, or with none a session at `J` already finalized.  A stored state of
the same pallet genesis is loaded by `load_or_init_state` with the sessions announced above
both its last session and its best BEEFY block started, in increasing order, after the
done ones are pruned. -/
theorem startup_establishes_invariant (chain : Chain A) (aux : AuxStore A S) (g bg d : ℕ)
    (hc : chain.Consistent g bg) (hversion : aux.writeCurrentVersion = .ok ())
    (hwrite : ∀ p, aux.writeVoterState p = .ok ()) :
    (∃ state, chain.initState aux g bg d = .ok state ∧ state.votingOracle.Invariant ∧
      state.palletGenesis = g ∧ state.bestVoted = 0 ∧ state.votingOracle.bestGrandpaBlock = bg ∧
      ((∀ k, g ≤ k → k ≤ bg → chain.justified k = false) →
        state.votingOracle.bestBeefyBlock = 0 ∧ ∃ vs₀, chain.validatorSet g = some vs₀ ∧
          state.votingOracle.sessions = Rounds.new g vs₀ :: chain.announcedSessions g bg) ∧
      ∀ J, g ≤ J → J ≤ bg → chain.justified J = true →
        (∀ k, J < k → k ≤ bg → chain.justified k = false) →
        state.votingOracle.bestBeefyBlock = J ∧
        ((chain.announcedSessions J bg : List (Rounds A S)) ≠ [] →
          state.votingOracle.sessions = chain.announcedSessions J bg) ∧
        ((chain.announcedSessions J bg : List (Rounds A S)) = [] →
          ∃ vs, chain.expectValidatorSet J = .ok vs ∧
            state.votingOracle.sessions = [(Rounds.new J vs).conclude J])) ∧
    ∀ p : PersistedState A S, aux.loadPersistent = .ok (some p) → p.palletGenesis = g →
      ∃ state, chain.loadOrInitState aux g bg d = .ok state ∧
        state.bestVoted = p.bestVoted ∧ state.palletGenesis = g ∧
        state.votingOracle.bestGrandpaBlock = bg ∧ state.votingOracle.minBlockDelta = max d 1 ∧
        state.votingOracle.bestBeefyBlock = p.votingOracle.bestBeefyBlock ∧
        state.votingOracle.sessions =
          if chain.announcements
              (max p.votingOracle.lastSessionStart p.votingOracle.bestBeefyBlock) bg = [] then
            p.votingOracle.sessions
          else p.votingOracle.sessions.filter (fun r => !r.mandatoryDone) ++
            chain.announcedSessions
              (max p.votingOracle.lastSessionStart p.votingOracle.bestBeefyBlock) bg := by
  refine ⟨?_, fun p hload hg => ⟨_, loadOrInitState_of_loaded hload hg, ?_⟩⟩
  · rcases hc.initState_cases d hversion hwrite with
      ⟨hnone, vs₀, hvs₀, hinit⟩ | ⟨J, hgJ, hJbg, hjJ, hlast, sessions, hinit, hne, hwf, hann, hnil⟩
    · -- started at the genesis: no block is the last justified one
      refine ⟨_, hinit, ⟨List.cons_ne_nil _ _, Nat.zero_le _, le_max_right d 1,
        hc.wellFormed_genesis hvs₀⟩, rfl, rfl, rfl, fun _ => ⟨rfl, vs₀, hvs₀, rfl⟩,
        fun J hgJ hJbg hj _ => ?_⟩
      exact absurd (hnone J hgJ hJbg) (by simp [hj])
    · -- resumed at `J`, the only last justified block
      refine ⟨_, hinit, ⟨hne, hJbg, le_max_right d 1, hwf⟩, rfl, rfl, rfl, fun hnone => ?_,
        fun J' _ hJ'bg hj' hlast' => ?_⟩
      · exact absurd (hnone J hgJ hJbg) (by simp [hjJ])
      · obtain rfl := last_justified_unique hJbg hjJ hlast hJ'bg hj' hlast'
        exact ⟨rfl, hann, hnil⟩
  · by_cases hmissed : chain.announcements
        (max p.votingOracle.lastSessionStart p.votingOracle.bestBeefyBlock) bg = []
    · simp only [hmissed, if_true]
      exact ⟨rfl, hg, rfl, rfl, rfl, rfl⟩
    · simp only [hmissed, if_false]
      exact ⟨rfl, hg, rfl, rfl, rfl, rfl⟩

/-- A pallet genesis at block `1`, a validator set announced at block `2`, no justified
block up to the best GRANDPA block `3`: the voter starts with two sessions. -/
theorem startup_establishes_invariant_two_sessions :
    let chain : Chain ℕ :=
      ⟨fun k => if k = 2 then [.authoritiesChange ⟨[0], [0], 1⟩] else [], fun _ => "",
        fun _ => false, fun _ => some ⟨[0], [0], 0⟩, fun _ => some 1⟩
    let aux : AuxStore ℕ ℕ := ⟨.ok none, .ok (), fun _ => .ok ()⟩
    ∃ state, chain.initState aux 1 3 1 = .ok state ∧ state.votingOracle.sessions.length = 2 := by
  intro chain aux
  -- block `2` is the only one announcing a set
  have hfind : ∀ k vs, findAuthoritiesChange (chain.header k) = some vs →
      k = 2 ∧ vs = ⟨[0], [0], 1⟩ := by
    intro k vs h
    by_cases hk : k = 2
    · subst hk
      simp only [chain, Chain.header, findAuthoritiesChange, if_pos, List.findSome?_cons,
        Option.some.injEq] at h
      exact ⟨rfl, h.symm⟩
    · simp [chain, Chain.header, findAuthoritiesChange, hk] at h
  have hc : chain.Consistent 1 3 :=
    { genesis_pos := Nat.one_pos
      genesis_le := by decide
      reports_genesis := rfl
      reports_genesis_set := rfl
      reported_ne_nil := fun k vs _ _ h => by
        cases Option.some.inj h
        exact List.cons_ne_nil _ _
      announced_ne_nil := fun k vs _ _ h => by
        rw [(hfind k vs h).2]
        exact List.cons_ne_nil _ _
      announced_id_lt := fun k k' vs vs' _ hkk' _ h h' => by
        have := (hfind k vs h).1
        have := (hfind k' vs' h').1
        omega
      genesis_id_lt := fun vs₀ k vs h₀ _ _ h => by
        cases Option.some.inj h₀
        rw [(hfind k vs h).2]
        decide }
  obtain ⟨⟨state, hinit, -, -, -, -, hnone, -⟩, -⟩ :=
    startup_establishes_invariant chain aux 1 3 1 hc rfl fun _ => rfl
  obtain ⟨-, vs₀, -, hsessions⟩ := hnone fun _ _ _ => rfl
  exact ⟨state, hinit, by rw [hsessions]; rfl⟩

/-- A pallet genesis at block `0`, reported by the runtime, with a validator set and no
justification: the voter cannot start. -/
theorem startup_fails_at_genesis_zero :
    let chain : Chain ℕ :=
      ⟨fun _ => [], fun _ => "", fun _ => false, fun _ => some ⟨[0], [0], 0⟩, fun _ => some 0⟩
    let aux : AuxStore ℕ ℕ := ⟨.ok none, .ok (), fun _ => .ok ()⟩
    chain.loadOrInitState aux 0 2 1 = .error (.backend "Invalid BEEFY chain") := by
  intro chain aux
  -- nothing is stored: `load_or_init_state` falls back to `init_state`
  show chain.initState aux 0 2 1 = _
  exact initState_genesis_zero rfl rfl fun _ _ => rfl

end Queue

end Chain

end BeefyEtf
