/-
The equivocation reports of the BEEFY pallet (`pallets/beefy-etf/src/equivocation.rs`, and
the calls `report_equivocation`, `report_equivocation_unsigned` and `set_new_genesis` of
`pallets/beefy-etf/src/lib.rs`).

A report carries an equivocation proof, two votes of one authority for one round, and a
proof that the authority held its key in some session.  `process_evidence` checks the key
owner proof, the two votes, and that the session of the key owner proof is the one
`SetIdSession` maps the votes' set id to; then it hands the offence to the offences pallet,
which refuses one it already holds.  The transaction pool takes an unsigned report only from
the node itself or from a block, and not for an offence already known.

The key owner proof system (`pallet_session::historical`), the offences pallet and the block
author (`pallet_authorship`) are outside the repository: what the pallet asks of them are the
fields of `ReportSystem`.

* `processEvidence_eq_ok_iff` — a report succeeds exactly when the key owner proof names the
  offender, the votes conflict with valid signatures, `SetIdSession` maps the set id to the
  key owner proof's session, and the offences pallet takes the offence;
* `equivocation_report_accepted` — an equivocation of the shape the voter reports, sent by
  the node itself for a set id `SetIdSession` maps to the key owner proof's session, passes
  the pool, the pre-dispatch check and the dispatch, and reports its offence;
* `reported_offences_in_window` — over any run of sessions and extrinsics from
  `initialize`, every offence reported is for one of the last `M` set ids, in the session
  `SetIdSession` mapped it to;
* `offences_reported_once` — when the offences pallet refuses what it knows, no offence is
  reported twice in a run.
-/
import BeefyEtf.Pallet
import BeefyEtf.Run

namespace BeefyEtf

namespace EquivocationProof

variable {A S : Type*}

/-- `EquivocationProof::offender_id`. -/
def offenderId (p : EquivocationProof A S) : A := p.first.id

/-- `EquivocationProof::round_number`. -/
def roundNumber (p : EquivocationProof A S) : ℕ := p.first.commitment.blockNumber

/-- `EquivocationProof::set_id`. -/
def setId (p : EquivocationProof A S) : ℕ := p.first.commitment.validatorSetId

end EquivocationProof

namespace Pallet

/-- `TimeSlot`: the set id, then the round. -/
structure TimeSlot where
  setId : ℕ
  round : ℕ
  deriving DecidableEq, Repr

/-- `EquivocationOffence`. -/
structure EquivocationOffence (O : Type*) where
  timeSlot : TimeSlot
  sessionIndex : ℕ
  validatorSetCount : ℕ
  offender : O
  deriving DecidableEq, Repr

/-- The pallet's `Error`. -/
inductive Error where
  | invalidKeyOwnershipProof
  | invalidEquivocationProof
  | duplicateOffenceReport
  | invalidConfiguration
  deriving DecidableEq, Repr

/-- Why a dispatch fails: the origin, or the pallet's error. -/
inductive DispatchError where
  | badOrigin
  | module (err : Error)
  deriving DecidableEq, Repr

/-- The `InvalidTransaction` reasons the pallet gives. -/
inductive InvalidTransaction where
  | badProof
  | stale
  | call
  deriving DecidableEq, Repr

/-- `TransactionSource`. -/
inductive TransactionSource where
  | inBlock
  | local
  | external
  deriving DecidableEq, Repr

/-- The origin of a call. -/
inductive Origin (Acc : Type*) where
  | root
  | signed (who : Acc)
  | none

/-- The pallet's calls. -/
inductive Call (B S K : Type*) where
  | reportEquivocation (equivocationProof : EquivocationProof B S) (keyOwnerProof : K)
  | reportEquivocationUnsigned (equivocationProof : EquivocationProof B S) (keyOwnerProof : K)
  | setNewGenesis (delayInBlocks : ℕ)

/-- What `EquivocationReportSystem<T, R, P, L>` asks of the runtime: the key owner proof
system `P`, with the session and the validator count a proof names; the offences pallet `R`,
over its storage; the block author; and the longevity `L`. -/
structure ReportSystem (B K O R Acc : Type*) where
  checkProof : B → K → Option O
  session : K → ℕ
  validatorCount : K → ℕ
  isKnownOffence : R → List O → TimeSlot → Bool
  reportOffence : R → List Acc → EquivocationOffence O → Except Unit R
  author : Option Acc
  longevity : ℕ

/-- `ValidTransaction` as `validate_unsigned` builds it. -/
structure ValidTransaction (B : Type*) where
  tagPrefix : String
  priority : ℕ
  provides : List (B × ℕ × ℕ)
  longevity : ℕ
  propagate : Bool
  deriving DecidableEq, Repr

/-- `TransactionPriority::MAX`. -/
def maxPriority : ℕ := 2 ^ 64 - 1

/-- The BEEFY pallet's storage with `GenesisBlock`, and the offences pallet's. -/
structure Storage (B R : Type*) where
  pallet : State B
  genesisBlock : Option ℕ
  offences : R

variable {B S K O R Acc : Type*} [DecidableEq B] (verify : B → S → Commitment → Bool)
  (sys : ReportSystem B K O R Acc)

/-- `check_evidence`: the key owner proof names the offender, and the offence is not known
yet. -/
def checkEvidence (offences : R) (equivocationProof : EquivocationProof B S)
    (keyOwnerProof : K) : Except InvalidTransaction Unit :=
  match sys.checkProof equivocationProof.offenderId keyOwnerProof with
  | none => .error .badProof
  | some offender =>
    let timeSlot : TimeSlot := ⟨equivocationProof.setId, equivocationProof.roundNumber⟩
    if sys.isKnownOffence offences [offender] timeSlot then .error .stale else .ok ()

/-- `process_evidence`: the key owner proof, the votes, the session of the set id; then the
offence goes to the offences pallet, reported by the reporter or else the block author. -/
def processEvidence (s : State B) (offences : R) (reporter : Option Acc)
    (equivocationProof : EquivocationProof B S) (keyOwnerProof : K) : Except Error R :=
  let reporter := reporter.or sys.author
  let setId := equivocationProof.setId
  let round := equivocationProof.roundNumber
  let sessionIndex := sys.session keyOwnerProof
  let validatorSetCount := sys.validatorCount keyOwnerProof
  match sys.checkProof equivocationProof.offenderId keyOwnerProof with
  | none => .error .invalidKeyOwnershipProof
  | some offender =>
    if !checkEquivocationProof verify equivocationProof then .error .invalidEquivocationProof
    else
      match s.setIdSession[setId]? with
      | none => .error .invalidEquivocationProof
      | some setIdSessionIndex =>
        if sessionIndex ≠ setIdSessionIndex then .error .invalidEquivocationProof
        else
          match sys.reportOffence offences reporter.toList
              ⟨⟨setId, round⟩, sessionIndex, validatorSetCount, offender⟩ with
          | .ok offences => .ok offences
          | .error () => .error .duplicateOffenceReport

/-- `Pallet::validate_unsigned`: an unsigned report from the node itself or a block whose
evidence checks, at most one in the pool per offender, set id and round. -/
def validateUnsigned (offences : R) (source : TransactionSource) :
    Call B S K → Except InvalidTransaction (ValidTransaction B)
  | .reportEquivocationUnsigned equivocationProof keyOwnerProof =>
    match source with
    | .local | .inBlock =>
      (checkEvidence sys offences equivocationProof keyOwnerProof).map fun () =>
        { tagPrefix := "BeefyEquivocation"
          priority := maxPriority
          provides := [(equivocationProof.offenderId, equivocationProof.setId,
            equivocationProof.roundNumber)]
          longevity := sys.longevity
          propagate := false }
    | .external => .error .call
  | _ => .error .call

/-- `Pallet::pre_dispatch`. -/
def preDispatch (offences : R) : Call B S K → Except InvalidTransaction Unit
  | .reportEquivocationUnsigned equivocationProof keyOwnerProof =>
    checkEvidence sys offences equivocationProof keyOwnerProof
  | _ => .error .call

/-- The dispatch of a call in block `blockNumber`. -/
def dispatch (st : Storage B R) (blockNumber : ℕ) (origin : Origin Acc) :
    Call B S K → Except DispatchError (Storage B R)
  | .reportEquivocation equivocationProof keyOwnerProof =>
    match origin with
    | .signed reporter =>
      ((processEvidence verify sys st.pallet st.offences (some reporter) equivocationProof
        keyOwnerProof).map fun offences => { st with offences := offences }).mapError .module
    | _ => .error .badOrigin
  | .reportEquivocationUnsigned equivocationProof keyOwnerProof =>
    match origin with
    | .none =>
      ((processEvidence verify sys st.pallet st.offences none equivocationProof
        keyOwnerProof).map fun offences => { st with offences := offences }).mapError .module
    | _ => .error .badOrigin
  | .setNewGenesis delayInBlocks =>
    match origin with
    | .root =>
      if 1 ≤ delayInBlocks then .ok { st with genesisBlock := some (blockNumber + delayInBlocks) }
      else .error (.module .invalidConfiguration)
    | _ => .error .badOrigin

/-- What happens on chain: a new session, or an extrinsic in block `blockNumber`. -/
inductive Event (B S K Acc : Type*) where
  | newSession (validators queuedValidators : List B) (sessionIndex : ℕ)
  | extrinsic (blockNumber : ℕ) (origin : Origin Acc) (call : Call B S K)

/-- The offence a report call hands the offences pallet once its checks pass. -/
def reportedOffence : Call B S K → Option (EquivocationOffence O)
  | .reportEquivocation equivocationProof keyOwnerProof
  | .reportEquivocationUnsigned equivocationProof keyOwnerProof =>
    (sys.checkProof equivocationProof.offenderId keyOwnerProof).map fun offender =>
      ⟨⟨equivocationProof.setId, equivocationProof.roundNumber⟩, sys.session keyOwnerProof,
        sys.validatorCount keyOwnerProof, offender⟩
  | .setNewGenesis _ => none

variable (cfg : Config) (commitments : List B)

/-- One event: `on_new_session` with the etf pallet's commitments; or an extrinsic, an
unsigned one only past `pre_dispatch`, whose failed dispatch leaves the storage as it was.
Returns the offence the event reported, if any. -/
def applyEvent (st : Storage B R) : Event B S K Acc → Option (EquivocationOffence O) × Storage B R
  | .newSession validators queuedValidators sessionIndex =>
    (none, { st with
      pallet := onNewSession cfg commitments st.pallet validators queuedValidators sessionIndex })
  | .extrinsic blockNumber origin call =>
    -- an unsigned report enters a block only if `pre_dispatch` passes
    let admitted := match origin with
      | .none => (preDispatch sys st.offences call).isOk
      | _ => true
    if admitted then
      match dispatch verify sys st blockNumber origin call with
      | .ok st' => (reportedOffence sys call, st')
      | .error _ => (none, st)
    else (none, st)

/-! ### One report -/

/-- A report succeeds exactly when the key owner proof names the offender, the votes conflict
with valid signatures, `SetIdSession` maps the set id to the key owner proof's session, and the
offences pallet takes the offence. -/
theorem processEvidence_eq_ok_iff {s : State B} {offences offences' : R}
    {reporter : Option Acc} {equivocationProof : EquivocationProof B S} {keyOwnerProof : K} :
    processEvidence verify sys s offences reporter equivocationProof keyOwnerProof =
        .ok offences' ↔
      ∃ offender, sys.checkProof equivocationProof.offenderId keyOwnerProof = some offender ∧
        checkEquivocationProof verify equivocationProof = true ∧
        s.setIdSession[equivocationProof.setId]? = some (sys.session keyOwnerProof) ∧
        sys.reportOffence offences (reporter.or sys.author).toList
          ⟨⟨equivocationProof.setId, equivocationProof.roundNumber⟩, sys.session keyOwnerProof,
            sys.validatorCount keyOwnerProof, offender⟩ = .ok offences' := by
  unfold processEvidence
  -- the checks in the order the source makes them
  cases hproof : sys.checkProof equivocationProof.offenderId keyOwnerProof with
  | none => simp
  | some offender =>
    cases hcheck : checkEquivocationProof verify equivocationProof with
    | false => simp
    | true =>
      cases hsession : s.setIdSession[equivocationProof.setId]? with
      | none => simp [hsession]
      | some setIdSessionIndex =>
        by_cases hsame : sys.session keyOwnerProof = setIdSessionIndex
        · subst hsame
          cases hro : sys.reportOffence offences (reporter.or sys.author).toList
              ⟨⟨equivocationProof.setId, equivocationProof.roundNumber⟩,
                sys.session keyOwnerProof, sys.validatorCount keyOwnerProof, offender⟩ <;>
            simp [hsession, hro]
        · simp [hsession, hsame, Ne.symm hsame]

/-- A report dispatched without error reported its offence, and changed only the offences
pallet. -/
theorem dispatch_eq_ok {st st' : Storage B R} {blockNumber : ℕ} {origin : Origin Acc}
    {call : Call B S K} (h : dispatch verify sys st blockNumber origin call = .ok st') :
    st'.pallet = st.pallet ∧
      (∀ o, reportedOffence sys call = some o →
        st.pallet.setIdSession[o.timeSlot.setId]? = some o.sessionIndex ∧
          ∃ reporters, sys.reportOffence st.offences reporters o = .ok st'.offences) ∧
      (reportedOffence sys call = none → st'.offences = st.offences) := by
  -- both report calls go through `process_evidence`; `set_new_genesis` reports nothing
  have hreport : ∀ (reporter : Option Acc) (p : EquivocationProof B S) (k : K),
      ((processEvidence verify sys st.pallet st.offences reporter p k).map
        (fun offences => { st with offences := offences })).mapError DispatchError.module =
          .ok st' →
      st'.pallet = st.pallet ∧
        (∀ o, (sys.checkProof p.offenderId k).map (fun offender =>
            (⟨⟨p.setId, p.roundNumber⟩, sys.session k, sys.validatorCount k, offender⟩ :
              EquivocationOffence O)) = some o →
          st.pallet.setIdSession[o.timeSlot.setId]? = some o.sessionIndex ∧
            ∃ reporters, sys.reportOffence st.offences reporters o = .ok st'.offences) ∧
        ((sys.checkProof p.offenderId k).map (fun offender =>
            (⟨⟨p.setId, p.roundNumber⟩, sys.session k, sys.validatorCount k, offender⟩ :
              EquivocationOffence O)) = none → st'.offences = st.offences) := by
    intro reporter p k hok
    cases hpe : processEvidence verify sys st.pallet st.offences reporter p k with
    | error e => simp [hpe, Except.mapError, Except.map] at hok
    | ok offences =>
      simp only [hpe, Except.map, Except.mapError, Except.ok.injEq] at hok
      subst hok
      obtain ⟨offender, hproof, -, hsession, hro⟩ := (processEvidence_eq_ok_iff verify sys).mp hpe
      refine ⟨rfl, fun o ho => ?_, fun hnone => ?_⟩
      · simp only [hproof, Option.map_some, Option.some.injEq] at ho
        subst ho
        exact ⟨hsession, _, hro⟩
      · simp [hproof] at hnone
  cases call with
  | reportEquivocation p k =>
    cases origin with
    | signed reporter => exact hreport (some reporter) p k h
    | root => simp [dispatch] at h
    | none => simp [dispatch] at h
  | reportEquivocationUnsigned p k =>
    cases origin with
    | none => exact hreport none p k h
    | root => simp [dispatch] at h
    | signed _ => simp [dispatch] at h
  | setNewGenesis delayInBlocks =>
    cases origin with
    | root =>
      simp only [dispatch] at h
      split_ifs at h
      cases h
      exact ⟨rfl, fun o ho => by simp [reportedOffence] at ho, fun _ => rfl⟩
    | signed _ => simp [dispatch] at h
    | none => simp [dispatch] at h

/-- What an event reported: an offence for a set id `SetIdSession` maps to its session,
taken by the offences pallet. -/
theorem applyEvent_reported {st : Storage B R} {e : Event B S K Acc}
    {o : EquivocationOffence O}
    (h : (applyEvent verify sys cfg commitments st e).1 = some o) :
    st.pallet.setIdSession[o.timeSlot.setId]? = some o.sessionIndex ∧
      ∃ reporters, sys.reportOffence st.offences reporters o =
        .ok (applyEvent verify sys cfg commitments st e).2.offences := by
  cases e with
  | newSession => simp [applyEvent] at h
  | extrinsic blockNumber origin call =>
    simp only [applyEvent] at h ⊢
    split_ifs at h ⊢
    · cases hd : dispatch verify sys st blockNumber origin call with
      | error => simp [hd] at h
      | ok st' =>
        simp only [hd] at h ⊢
        exact (dispatch_eq_ok verify sys hd).2.1 o h

/-- An event that reported nothing left the offences pallet as it was. -/
theorem applyEvent_offences_of_none {st : Storage B R} {e : Event B S K Acc}
    (h : (applyEvent verify sys cfg commitments st e).1 = none) :
    (applyEvent verify sys cfg commitments st e).2.offences = st.offences := by
  cases e with
  | newSession => rfl
  | extrinsic blockNumber origin call =>
    simp only [applyEvent] at h ⊢
    split_ifs at h ⊢
    · cases hd : dispatch verify sys st blockNumber origin call with
      | error => rfl
      | ok st' =>
        simp only [hd] at h ⊢
        exact (dispatch_eq_ok verify sys hd).2.2 h
    · rfl

/-- **A reported equivocation is punished.**  Two votes of one authority for one round and
set id with different payloads, both signatures valid (the reports the voter's rounds make),
sent by the node itself with a key owner proof of the session `SetIdSession` maps the set id
to: when the offence is not known yet and the offences pallet takes it, the pool admits the
report under its tag, and the chain reports the offence. -/
theorem equivocation_report_accepted (st : Storage B R) (blockNumber : ℕ)
    (p : EquivocationProof B S) (keyOwnerProof : K) (offender : O) (offences' : R)
    (hid : p.first.id = p.second.id)
    (hround : p.first.commitment.blockNumber = p.second.commitment.blockNumber)
    (hset : p.first.commitment.validatorSetId = p.second.commitment.validatorSetId)
    (hpayload : p.first.commitment.payload ≠ p.second.commitment.payload)
    (hfirst : verify p.first.id p.first.signature p.first.commitment = true)
    (hsecond : verify p.second.id p.second.signature p.second.commitment = true)
    (hproof : sys.checkProof p.offenderId keyOwnerProof = some offender)
    (hsession : st.pallet.setIdSession[p.setId]? = some (sys.session keyOwnerProof))
    (hnew : sys.isKnownOffence st.offences [offender] ⟨p.setId, p.roundNumber⟩ = false)
    (htaken : sys.reportOffence st.offences sys.author.toList
      ⟨⟨p.setId, p.roundNumber⟩, sys.session keyOwnerProof, sys.validatorCount keyOwnerProof,
        offender⟩ = .ok offences') :
    validateUnsigned sys st.offences .local (.reportEquivocationUnsigned p keyOwnerProof) =
        .ok ⟨"BeefyEquivocation", maxPriority, [(p.offenderId, p.setId, p.roundNumber)],
          sys.longevity, false⟩ ∧
      applyEvent verify sys cfg commitments st
          (.extrinsic blockNumber .none (.reportEquivocationUnsigned p keyOwnerProof)) =
        (some ⟨⟨p.setId, p.roundNumber⟩, sys.session keyOwnerProof,
            sys.validatorCount keyOwnerProof, offender⟩,
          { st with offences := offences' }) := by
  have hcheck : checkEquivocationProof verify p = true := by
    rw [checkEquivocationProof_eq_verify verify hid hround hset hpayload, hfirst, hsecond]
    rfl
  have hevidence : checkEvidence sys st.offences p keyOwnerProof = .ok () := by
    simp [checkEvidence, hproof, hnew]
  have hprocess : processEvidence verify sys st.pallet st.offences none p keyOwnerProof =
      .ok offences' :=
    (processEvidence_eq_ok_iff verify sys).mpr
      ⟨offender, hproof, hcheck, hsession, by simpa using htaken⟩
  refine ⟨by simp [validateUnsigned, hevidence, Except.map], ?_⟩
  simp [applyEvent, preDispatch, hevidence, dispatch, hprocess, reportedOffence, hproof,
    Except.map, Except.mapError, Except.isOk, Except.toBool]

/-! ### Runs -/

/-- `SetIdSession` holds exactly the window of the current set id. -/
def Windowed (st : Storage B R) : Prop :=
  ∀ j, j ∈ st.pallet.setIdSession ↔ InWindow cfg st.pallet.validatorSetId j

omit [DecidableEq B] in
/-- After `initialize` the window of set `0` is `{0}`. -/
theorem windowed_of_initializeAuthorities {s₁ : State B} (hid : s₁.validatorSetId = 0)
    (hmap : s₁.setIdSession = (State.empty : State B).setIdSession.insert 0 0)
    (genesisBlock : Option ℕ) (offences : R) :
    Windowed cfg (⟨s₁, genesisBlock, offences⟩ : Storage B R) := by
  intro j
  show j ∈ s₁.setIdSession ↔ InWindow cfg s₁.validatorSetId j
  rw [hmap, hid, InWindow, Std.TreeMap.mem_insert, Nat.compare_eq_eq]
  simp only [State.empty, Std.TreeMap.not_mem_emptyc, or_false]
  omega

/-- An extrinsic leaves the BEEFY pallet's own storage as it was. -/
theorem applyEvent_extrinsic_pallet (st : Storage B R) (blockNumber : ℕ) (origin : Origin Acc)
    (call : Call B S K) :
    (applyEvent verify sys cfg commitments st (.extrinsic blockNumber origin call)).2.pallet =
      st.pallet := by
  simp only [applyEvent]
  split_ifs
  · cases hd : dispatch verify sys st blockNumber origin call with
    | error => rfl
    | ok st' => exact (dispatch_eq_ok verify sys hd).1
  · rfl

theorem Windowed.applyEvent {st : Storage B R} (h : Windowed cfg st) (e : Event B S K Acc) :
    Windowed cfg (applyEvent verify sys cfg commitments st e).2 := by
  cases e with
  | newSession validators queued sessionIndex =>
    exact (onNewSession_window cfg commitments h validators queued sessionIndex).1
  | extrinsic blockNumber origin call =>
    unfold Windowed
    rw [applyEvent_extrinsic_pallet]
    exact h

/-- **Reports expire.**  After `initialize` with authorities, and any events, sessions and
extrinsics interleaved: every offence reported was for one of the last
`M = max(MaxSetIdSessionEntries, 1)` set ids at the time, in the session `SetIdSession`
mapped that set id to. -/
theorem reported_offences_in_window (authorities : List B) (hne : authorities ≠ [])
    (hbound : authorities.length ≤ cfg.maxAuthorities) (genesisBlock : Option ℕ)
    (offences : R) (events : List (Event B S K Acc)) :
    ∃ s₁, initializeAuthorities cfg commitments State.empty authorities = .ok s₁ ∧
      ∀ k (o : EquivocationOffence O),
        (Run.runFrom (applyEvent verify sys cfg commitments) ⟨s₁, genesisBlock, offences⟩
            events).1[k]? = some (some o) →
          InWindow cfg (Run.runFrom (applyEvent verify sys cfg commitments)
              ⟨s₁, genesisBlock, offences⟩ (events.take k)).2.pallet.validatorSetId
            o.timeSlot.setId ∧
          (Run.runFrom (applyEvent verify sys cfg commitments) ⟨s₁, genesisBlock, offences⟩
              (events.take k)).2.pallet.setIdSession[o.timeSlot.setId]? = some o.sessionIndex := by
  obtain ⟨s₁, hinit, hid, hmap⟩ :=
    initializeAuthorities_eq_ok cfg commitments State.empty rfl hne hbound
  refine ⟨s₁, hinit, fun k o hk => ?_⟩
  have hlt : k < events.length := by
    have := (List.getElem?_eq_some_iff.mp hk).1
    rwa [Run.length_runFrom] at this
  -- event `k` reported `o` from where the first `k` events left the chain
  rw [Run.getElem?_runFrom _ events k hlt, Option.some.injEq] at hk
  obtain ⟨hsession, -⟩ := applyEvent_reported verify sys cfg commitments hk
  have hw : Windowed cfg (Run.runFrom (applyEvent verify sys cfg commitments)
      ⟨s₁, genesisBlock, offences⟩ (events.take k)).2 :=
    Run.runFrom_invariant (fun st e h => h.applyEvent verify sys cfg commitments e)
      (windowed_of_initializeAuthorities cfg hid hmap genesisBlock offences) (events.take k)
  exact ⟨(hw _).mp (Std.TreeMap.mem_iff_isSome_getElem?.mpr (by simp [hsession])), hsession⟩

/-- Two sessions and then a report for set `1`, with `MaxSetIdSessionEntries = 2`. -/
theorem reported_offences_in_window_two_sessions :
    let verify : ℕ → ℕ → Commitment → Bool := fun _ _ _ => true
    let sys : ReportSystem ℕ ℕ ℕ Unit ℕ :=
      ⟨fun b _ => some b, id, fun _ => 1, fun _ _ _ => false, fun r _ _ => .ok r, none, 0⟩
    let p : EquivocationProof ℕ ℕ :=
      ⟨⟨⟨⟨[]⟩, 1, 1⟩, 7, 0⟩, ⟨⟨⟨[(#v[0, 0], [])]⟩, 1, 1⟩, 7, 0⟩⟩
    let events : List (Event ℕ ℕ ℕ ℕ) :=
      [.newSession [0] [0] 1, .newSession [0, 1] [0] 2,
        .extrinsic 10 .none (.reportEquivocationUnsigned p 1)]
    let runOf := fun (s₁ : State ℕ) (events : List (Event ℕ ℕ ℕ ℕ)) =>
      Run.runFrom (applyEvent verify sys ⟨3, 2⟩ [0]) ⟨s₁, none, ()⟩ events
    ∃ s₁, initializeAuthorities ⟨3, 2⟩ [0] State.empty [0] = .ok s₁ ∧
      ∀ k (o : EquivocationOffence ℕ), (runOf s₁ events).1[k]? = some (some o) →
        InWindow ⟨3, 2⟩ (runOf s₁ (events.take k)).2.pallet.validatorSetId o.timeSlot.setId ∧
        (runOf s₁ (events.take k)).2.pallet.setIdSession[o.timeSlot.setId]? =
          some o.sessionIndex := by
  intro verify sys p events runOf
  exact reported_offences_in_window verify sys ⟨3, 2⟩ [0] [0] (by decide) (by decide) none ()
    events

section Once

variable
  (hknown : ∀ r rs (o : EquivocationOffence O) r', sys.reportOffence r rs o = .ok r' →
    sys.isKnownOffence r' [o.offender] o.timeSlot = true)
  (hkeep : ∀ r rs (o : EquivocationOffence O) r' o' ts, sys.reportOffence r rs o = .ok r' →
    sys.isKnownOffence r [o'] ts = true → sys.isKnownOffence r' [o'] ts = true)
  (hdup : ∀ r rs (o : EquivocationOffence O), sys.isKnownOffence r [o.offender] o.timeSlot = true →
    sys.reportOffence r rs o = .error ())

/-- The offences reported so far are known to the offences pallet, and none twice. -/
def ReportedOnce (st : Storage B R) (outputs : List (Option (EquivocationOffence O))) : Prop :=
  (∀ o ∈ outputs.filterMap id, sys.isKnownOffence st.offences [o.offender] o.timeSlot = true) ∧
    ((outputs.filterMap id).map fun o => (o.offender, o.timeSlot)).Nodup

include hknown hkeep hdup in
theorem ReportedOnce.applyEvent {st : Storage B R} {outputs : List (Option (EquivocationOffence O))}
    (h : ReportedOnce sys st outputs) (e : Event B S K Acc) :
    ReportedOnce sys (applyEvent verify sys cfg commitments st e).2
      (outputs ++ [(applyEvent verify sys cfg commitments st e).1]) := by
  obtain ⟨hknownAll, hnodup⟩ := h
  cases hout : (Pallet.applyEvent verify sys cfg commitments st e).1 with
  | none =>
    have hoff := applyEvent_offences_of_none verify sys cfg commitments hout
    refine ⟨?_, by simpa using hnodup⟩
    intro o ho
    rw [hoff]
    exact hknownAll o (by simpa using ho)
  | some o =>
    obtain ⟨-, reporters, hro⟩ := applyEvent_reported verify sys cfg commitments hout
    -- the offences pallet took `o`, so it did not know it
    have hfresh : sys.isKnownOffence st.offences [o.offender] o.timeSlot = false := by
      by_contra hknown'
      rw [hdup _ _ _ (by simpa using hknown')] at hro
      cases hro
    refine ⟨fun o' ho' => ?_, ?_⟩
    · have ho'' : some o' ∈ outputs ∨ o' = o := by simpa using ho'
      rcases ho'' with hold | rfl
      · exact hkeep _ _ _ _ _ _ hro (hknownAll o' (by simpa using hold))
      · exact hknown _ _ _ _ hro
    · rw [List.filterMap_append, List.map_append, List.nodup_append]
      refine ⟨hnodup, by simp, ?_⟩
      intro x hx y hy hxy
      obtain ⟨o', ho', rfl⟩ := List.mem_map.mp hx
      have hy' : y = (o.offender, o.timeSlot) := by simpa using hy
      subst hy'
      simp only [Prod.mk.injEq] at hxy
      have hk := hknownAll o' ho'
      rw [hxy.1, hxy.2, hfresh] at hk
      cases hk

include hknown hkeep hdup in
/-- **No offence reported twice.**  When the offences pallet knows every offence it took,
keeps knowing it, and refuses one it knows: over any run, from any storage, the offences the
chain reports are pairwise distinct in offender and time slot. -/
theorem offences_reported_once (st : Storage B R) (events : List (Event B S K Acc)) :
    (((Run.runFrom (applyEvent verify sys cfg commitments) st events).1.filterMap id).map
      fun o => (o.offender, o.timeSlot)).Nodup := by
  have h : ReportedOnce sys (Run.runFrom (applyEvent verify sys cfg commitments) st events).2
      ([] ++ (Run.runFrom (applyEvent verify sys cfg commitments) st events).1) :=
    Run.runFrom_history
      (fun st outputs e h => h.applyEvent verify sys cfg commitments hknown hkeep hdup e)
      ⟨by simp, by simp⟩ events
  simpa using h.2

/-- An offences pallet that keeps the offender and time slot of what it took in a list, and
a run that sends one report twice. -/
theorem offences_reported_once_sent_twice :
    let verify : ℕ → ℕ → Commitment → Bool := fun _ _ _ => true
    let sys : ReportSystem ℕ ℕ ℕ (List (ℕ × TimeSlot)) ℕ :=
      ⟨fun b _ => some b, id, fun _ => 1, fun r offenders ts => offenders.all (fun o => (o, ts) ∈ r),
        fun r _ o => if (o.offender, o.timeSlot) ∈ r then .error ()
          else .ok ((o.offender, o.timeSlot) :: r), none, 0⟩
    let p : EquivocationProof ℕ ℕ :=
      ⟨⟨⟨⟨[]⟩, 1, 0⟩, 7, 0⟩, ⟨⟨⟨[(#v[0, 0], [])]⟩, 1, 0⟩, 7, 0⟩⟩
    let events : List (Event ℕ ℕ ℕ ℕ) :=
      [.extrinsic 5 .none (.reportEquivocationUnsigned p 0),
        .extrinsic 6 .none (.reportEquivocationUnsigned p 0)]
    (((Run.runFrom (applyEvent verify sys ⟨3, 2⟩ [0])
      ⟨{ State.empty with setIdSession := (∅ : Std.TreeMap ℕ ℕ).insert 0 0 }, none, []⟩
        events).1.filterMap id).map fun o => (o.offender, o.timeSlot)).Nodup := by
  intro verify sys p events
  -- the list keeps what it took, and refuses a pair it holds
  have hknown : ∀ r rs (o : EquivocationOffence ℕ) r', sys.reportOffence r rs o = .ok r' →
      sys.isKnownOffence r' [o.offender] o.timeSlot = true := by
    intro r rs o r' h
    simp only [sys] at h ⊢
    split_ifs at h
    cases h
    simp
  have hkeep : ∀ r rs (o : EquivocationOffence ℕ) r' o' ts, sys.reportOffence r rs o = .ok r' →
      sys.isKnownOffence r [o'] ts = true → sys.isKnownOffence r' [o'] ts = true := by
    intro r rs o r' o' ts h hk
    simp only [sys] at h hk ⊢
    split_ifs at h
    cases h
    simp_all
  have hdup : ∀ r rs (o : EquivocationOffence ℕ),
      sys.isKnownOffence r [o.offender] o.timeSlot = true → sys.reportOffence r rs o = .error () := by
    intro r rs o hk
    simp only [sys] at hk ⊢
    simp_all
  exact offences_reported_once verify sys ⟨3, 2⟩ [0] hknown hkeep hdup _ events

end Once

end Pallet

end BeefyEtf
