/-
The voter's queue of sessions (`VoterOracle`, `client/consensus/beefy-etf/src/worker.rs`).

The oracle keeps the sessions still to finalize, each a `Rounds` value, with the best
GRANDPA-finalized and the best BEEFY-finalized block.  `checked_new` accepts a queue only
in a well-formed shape; sessions are added at the back, `finalize` concludes a round of
the front session, and `try_prune` drops the sessions whose mandatory block is done when
more than one is queued.

* `validateSessions_eq_true_iff` — what the loop of `checked_new` checks, as a property
  of the queue;
* `checkedNew_eq_some_iff` — `checked_new` accepts exactly the well-formed queues, under
  the best GRANDPA block and not below the best BEEFY block;
* `pruned_tryPrune` — after `try_prune` the queue is in one of the three documented
  states: when it holds more than one session, none has its mandatory block done.
-/
import BeefyEtf.Round

namespace BeefyEtf

/-- The worker's `Error`, with the variants the modelled code returns. -/
inductive Error where
  | backend (msg : String)
  | keystore (msg : String)
  | runtimeApi (msg : String)
  | signature (msg : String)
  | uninitSession
  | consensusReset
  deriving DecidableEq, Repr

/-- `RoundAction`: what to do with a vote or a justification for a round. -/
inductive RoundAction where
  | drop
  | process
  | enqueue
  deriving DecidableEq, Repr

/-- `VoterOracle`.  Of the best GRANDPA header only its number is read. -/
structure VoterOracle (A S : Type*) [Ord A] where
  sessions : List (Rounds A S)
  minBlockDelta : ℕ
  bestGrandpaBlock : ℕ
  bestBeefyBlock : ℕ

/-- `vote_target`: the mandatory block while it has no justification, else the best BEEFY
block plus `max(min_delta, next_power_of_two((best_grandpa - best_beefy + 1) / 2))`, the
difference saturated to `u32` before halving; nothing above the best GRANDPA block. -/
def voteTarget (bestGrandpa bestBeefy sessionStart minDelta : ℕ) : Option ℕ :=
  let target :=
    if bestBeefy < sessionStart then sessionStart
    else
      let diff := bestGrandpa - bestBeefy + 1
      let diff := min diff (2 ^ 32 - 1) / 2
      bestBeefy + max minDelta diff.nextPowerOfTwo
  if target > bestGrandpa then none else some target

namespace VoterOracle

variable {A S : Type*} [Ord A]

/-- The loop of the `validate` closure of `checked_new`, at index `idx`, after a session
starting at `prevStart` with set id `prevValidatorId`. -/
def validateSessions (bestGrandpa : ℕ) :
    ℕ → Option ℕ → ℕ → List (Rounds A S) → Bool
  | _, _, _, [] => true
  | prevStart, prevValidatorId, idx, session :: sessions =>
    let start := session.sessionStart
    if session.validators.isEmpty then false
    else if start > bestGrandpa || start ≤ prevStart then false
    else if prevValidatorId.any (session.validatorSetId ≤ ·) then false
    else if idx ≠ 0 && session.mandatoryDone then false
    else validateSessions bestGrandpa start (some session.validatorSetId) (idx + 1) sessions

/-- The `validate` closure of `checked_new`; the loop starts from `prev_start = 0`. -/
def validate (sessions : List (Rounds A S)) (bestGrandpa bestBeefy : ℕ) : Bool :=
  if sessions.isEmpty || bestBeefy > bestGrandpa then false
  else validateSessions bestGrandpa 0 none 0 sessions

/-- `VoterOracle::checked_new`. -/
def checkedNew (sessions : List (Rounds A S)) (minBlockDelta grandpaHeader bestBeefy : ℕ) :
    Option (VoterOracle A S) :=
  if validate sessions grandpaHeader bestBeefy then
    -- always target at least one block better than current best beefy
    some
      { sessions := sessions
        minBlockDelta := max minBlockDelta 1
        bestGrandpaBlock := grandpaHeader
        bestBeefyBlock := bestBeefy }
  else none

/-- `VoterOracle::active_rounds`: the front session. -/
def activeRounds (o : VoterOracle A S) : Except Error (Rounds A S) :=
  match o.sessions.head? with
  | some rounds => .ok rounds
  | none => .error .uninitSession

/-- `VoterOracle::current_validator_set`. -/
def currentValidatorSet (o : VoterOracle A S) : Except Error (ValidatorSet A) :=
  o.activeRounds.map Rounds.validatorSet

/-- `VoterOracle::try_prune`: with several sessions queued, keep those whose mandatory
block is not done. -/
def tryPrune (o : VoterOracle A S) : VoterOracle A S :=
  if o.sessions.length > 1 then { o with sessions := o.sessions.filter fun s => !s.mandatoryDone }
  else o

/-- `VoterOracle::can_add_session`: `Some(session_start)` above the start of the last
session, `None` counting as below every number. -/
def canAddSession (o : VoterOracle A S) (sessionStart : ℕ) : Bool :=
  match o.sessions.getLast? with
  | some session => session.sessionStart < sessionStart
  | none => true

/-- `VoterOracle::add_session`. -/
def addSession (o : VoterOracle A S) (rounds : Rounds A S) : VoterOracle A S :=
  { o with sessions := o.sessions ++ [rounds] }.tryPrune

/-- `VoterOracle::finalize`: conclude the round of `block` in the front session. -/
def finalize (o : VoterOracle A S) (block : ℕ) : Except Error (VoterOracle A S) :=
  match o.sessions with
  | [] => .error .uninitSession
  | front :: rest => .ok { o with sessions := front.conclude block :: rest }.tryPrune

/-- `VoterOracle::mandatory_pending`. -/
def mandatoryPending (o : VoterOracle A S) : Option (ℕ × ValidatorSet A) :=
  o.sessions.head?.bind fun round =>
    if round.mandatoryDone then none else some (round.sessionStart, round.validatorSet)

/-- `VoterOracle::accepted_interval`: the inclusive interval of rounds to accept votes for. -/
def acceptedInterval (o : VoterOracle A S) : Except Error (ℕ × ℕ) :=
  match o.sessions.head? with
  | none => .error .uninitSession
  | some rounds =>
    -- only the mandatory block of the front session while it is not done
    if rounds.mandatoryDone then .ok (max rounds.sessionStart o.bestBeefyBlock, o.bestGrandpaBlock)
    else .ok (rounds.sessionStart, rounds.sessionStart)

/-- `VoterOracle::triage_round`. -/
def triageRound (o : VoterOracle A S) (round : ℕ) : Except Error RoundAction :=
  match o.acceptedInterval with
  | .error e => .error e
  | .ok (start, end_) =>
    if start ≤ round ∧ round ≤ end_ then .ok .process
    else if round > end_ then .ok .enqueue
    else .ok .drop

/-- `VoterOracle::voting_target`.  The `bls-experimental` build votes on every
GRANDPA-finalized block; the other build on the front session's `vote_target`. -/
def votingTarget (blsExperimental : Bool) (o : VoterOracle A S) : Option ℕ :=
  if blsExperimental then some o.bestGrandpaBlock
  else
    match o.sessions.head? with
    | none => none
    | some rounds =>
      voteTarget o.bestGrandpaBlock o.bestBeefyBlock rounds.sessionStart o.minBlockDelta

/-! ### What `checked_new` accepts -/

/-- Starts and set ids strictly increase along the queue. -/
def Increasing (sessions : List (Rounds A S)) : Prop :=
  sessions.Pairwise fun r r' => r.sessionStart < r'.sessionStart ∧ r.validatorSetId < r'.validatorSetId

/-- A queue `checked_new` accepts under best GRANDPA block `bestGrandpa`: every session has
validators and starts after block `0` and at most at `bestGrandpa`, starts and set ids
strictly increase, and no session but the front has its mandatory block done. -/
structure WellFormed (bestGrandpa : ℕ) (sessions : List (Rounds A S)) : Prop where
  validators_ne_nil : ∀ r ∈ sessions, r.validators ≠ []
  start_pos : ∀ r ∈ sessions, 0 < r.sessionStart
  start_le : ∀ r ∈ sessions, r.sessionStart ≤ bestGrandpa
  increasing : Increasing sessions
  tail_undone : ∀ r ∈ sessions.tail, r.mandatoryDone = false

/-- One iteration of the loop: the checks on the session, then the rest of the queue. -/
theorem validateSessions_cons (g p : ℕ) (pid : Option ℕ) (idx : ℕ) (r : Rounds A S)
    (l : List (Rounds A S)) :
    validateSessions g p pid idx (r :: l) = true ↔
      (r.validators ≠ [] ∧ r.sessionStart ≤ g ∧ p < r.sessionStart ∧
        (∀ i ∈ pid, i < r.validatorSetId) ∧ (idx ≠ 0 → r.mandatoryDone = false)) ∧
      validateSessions g r.sessionStart (some r.validatorSetId) (idx + 1) l = true := by
  have hpid : (pid.any (r.validatorSetId ≤ ·) = true) ↔ ¬ ∀ i ∈ pid, i < r.validatorSetId := by
    cases pid <;> simp
  dsimp only [validateSessions]
  split_ifs with h₁ h₂ h₃ h₄
  · simp_all
  · simp only [Bool.or_eq_true, decide_eq_true_eq] at h₂
    simp only [false_iff, not_and]
    omega
  · simp_all
  · simp only [Bool.and_eq_true, decide_eq_true_eq] at h₄
    simp [h₄]
  · -- every check passed: the loop goes on with this session as the previous one
    simp only [List.isEmpty_iff] at h₁
    simp only [Bool.or_eq_true, decide_eq_true_eq, not_or, not_lt, not_le] at h₂
    simp only [Bool.and_eq_true, decide_eq_true_eq, not_and, Bool.not_eq_true] at h₄
    simp only [hpid, not_not] at h₃
    exact ⟨fun h => ⟨⟨h₁, h₂.1, h₂.2, h₃, h₄⟩, h⟩, fun h => h.2⟩

/-- Past the front, the loop accepts the sessions that have validators, start after the
previous one and at most at `g`, have a larger set id and are not done, in increasing
order. -/
theorem validateSessions_succ_eq_true_iff (g : ℕ) (l : List (Rounds A S)) :
    ∀ (p : ℕ) (pid : Option ℕ) (idx : ℕ), validateSessions g p pid (idx + 1) l = true ↔
      (∀ r ∈ l, r.validators ≠ [] ∧ r.sessionStart ≤ g ∧ p < r.sessionStart ∧
        (∀ i ∈ pid, i < r.validatorSetId) ∧ r.mandatoryDone = false) ∧ Increasing l := by
  induction l with
  | nil => simp [validateSessions, Increasing]
  | cons r l ih =>
    intro p pid idx
    unfold Increasing at ih ⊢
    rw [validateSessions_cons, ih, List.pairwise_cons, List.forall_mem_cons]
    simp only [Option.mem_def, Option.some.injEq, forall_eq', ne_eq, Nat.add_one_ne_zero,
      not_false_eq_true, forall_const]
    constructor
    · rintro ⟨⟨hv, hg, hp, hpid, hdone⟩, hrest, hinc⟩
      refine ⟨⟨⟨hv, hg, hp, hpid, hdone⟩, fun x hx => ?_⟩, fun x hx => ⟨(hrest x hx).2.2.1,
        (hrest x hx).2.2.2.1⟩, hinc⟩
      obtain ⟨hxv, hxg, hxp, hxid, hxdone⟩ := hrest x hx
      exact ⟨hxv, hxg, by omega, fun i hi => (hpid i hi).trans hxid, hxdone⟩
    · rintro ⟨⟨⟨hv, hg, hp, hpid, hdone⟩, hrest⟩, hhead, hinc⟩
      refine ⟨⟨hv, hg, hp, hpid, hdone⟩, fun x hx => ?_, hinc⟩
      obtain ⟨hxv, hxg, -, -, hxdone⟩ := hrest x hx
      exact ⟨hxv, hxg, (hhead x hx).1, (hhead x hx).2, hxdone⟩

/-- **What `checked_new` checks.**  `validate` accepts exactly the non-empty well-formed
queues under the best GRANDPA block, with the best BEEFY block not above it. -/
theorem validate_eq_true_iff (sessions : List (Rounds A S)) (g b : ℕ) :
    validate sessions g b = true ↔ sessions ≠ [] ∧ b ≤ g ∧ WellFormed g sessions := by
  unfold validate
  cases sessions with
  | nil => simp
  | cons r l =>
    simp only [List.isEmpty_cons, Bool.false_or, ne_eq, reduceCtorEq, not_false_eq_true,
      true_and]
    by_cases hb : b > g
    · simp only [hb, decide_true, if_true, Bool.false_eq_true, false_iff]
      omega
    · rw [if_neg (by simpa using hb), validateSessions_cons, validateSessions_succ_eq_true_iff]
      simp only [Option.mem_def, reduceCtorEq, false_implies, implies_true, ne_eq,
        not_true_eq_false, and_true, Option.some.injEq, forall_eq']
      constructor
      · rintro ⟨⟨hv, hg, hp⟩, hrest, hinc⟩
        refine ⟨by omega, ⟨?_, ?_, ?_, ?_, ?_⟩⟩
        · exact List.forall_mem_cons.mpr ⟨hv, fun x hx => (hrest x hx).1⟩
        · exact List.forall_mem_cons.mpr ⟨hp, fun x hx => by have := (hrest x hx).2.2.1; omega⟩
        · exact List.forall_mem_cons.mpr ⟨hg, fun x hx => (hrest x hx).2.1⟩
        · exact List.pairwise_cons.mpr ⟨fun x hx => ⟨(hrest x hx).2.2.1, (hrest x hx).2.2.2.1⟩,
            hinc⟩
        · exact fun x hx => (hrest x hx).2.2.2.2
      · rintro ⟨-, hwf⟩
        have hinc := List.pairwise_cons.mp hwf.increasing
        refine ⟨⟨hwf.validators_ne_nil r List.mem_cons_self, hwf.start_le r List.mem_cons_self,
          hwf.start_pos r List.mem_cons_self⟩, fun x hx => ?_, hinc.2⟩
        have hx' := List.mem_cons_of_mem r hx
        exact ⟨hwf.validators_ne_nil x hx', hwf.start_le x hx', (hinc.1 x hx).1, (hinc.1 x hx).2,
          hwf.tail_undone x hx⟩

/-- `checked_new` builds the oracle exactly for the queues `validate` accepts. -/
theorem checkedNew_eq_some_iff (sessions : List (Rounds A S)) (d g b : ℕ) (o : VoterOracle A S) :
    checkedNew sessions d g b = some o ↔
      (sessions ≠ [] ∧ b ≤ g ∧ WellFormed g sessions) ∧
        o = ⟨sessions, max d 1, g, b⟩ := by
  rw [checkedNew, ← validate_eq_true_iff]
  split
  · rename_i h
    simp only [h, true_and, Option.some.injEq]
    exact eq_comm
  · rename_i h
    simp [h]

/-! ### The queue operations -/

/-- The queue is in one of the three documented states: when it holds more than one
session, none has its mandatory block done. -/
def Pruned (o : VoterOracle A S) : Prop :=
  1 < o.sessions.length → ∀ r ∈ o.sessions, r.mandatoryDone = false

@[simp] theorem tryPrune_bestGrandpaBlock (o : VoterOracle A S) :
    o.tryPrune.bestGrandpaBlock = o.bestGrandpaBlock := by
  unfold tryPrune
  split <;> rfl

@[simp] theorem tryPrune_bestBeefyBlock (o : VoterOracle A S) :
    o.tryPrune.bestBeefyBlock = o.bestBeefyBlock := by
  unfold tryPrune
  split <;> rfl

@[simp] theorem tryPrune_minBlockDelta (o : VoterOracle A S) :
    o.tryPrune.minBlockDelta = o.minBlockDelta := by
  unfold tryPrune
  split <;> rfl

/-- `try_prune` always leaves the queue in one of the three documented states. -/
theorem pruned_tryPrune (o : VoterOracle A S) : Pruned o.tryPrune := by
  intro hlen r hr
  unfold tryPrune at hlen hr
  split_ifs at hlen hr with h
  · simp only [List.mem_filter, Bool.not_eq_eq_eq_not, Bool.not_true] at hr
    exact hr.2
  · omega

/-- Dropping the sessions that are done keeps a queue well-formed. -/
theorem WellFormed.filter_undone {g : ℕ} {l : List (Rounds A S)} (h : WellFormed g l) :
    WellFormed g (l.filter fun s => !s.mandatoryDone) where
  validators_ne_nil r hr := h.validators_ne_nil r (List.mem_of_mem_filter hr)
  start_pos r hr := h.start_pos r (List.mem_of_mem_filter hr)
  start_le r hr := h.start_le r (List.mem_of_mem_filter hr)
  increasing := h.increasing.filter _
  tail_undone r hr := by
    have hmem := List.mem_of_mem_tail hr
    simp only [List.mem_filter, Bool.not_eq_eq_eq_not, Bool.not_true] at hmem
    exact hmem.2

/-- `try_prune` keeps a well-formed queue well-formed and never empties it. -/
theorem wellFormed_tryPrune {o : VoterOracle A S} (h : WellFormed o.bestGrandpaBlock o.sessions)
    (hne : o.sessions ≠ []) :
    WellFormed o.bestGrandpaBlock o.tryPrune.sessions ∧ o.tryPrune.sessions ≠ [] := by
  unfold tryPrune
  split_ifs with hlen
  · refine ⟨h.filter_undone, ?_⟩
    -- the second session is not done, so it stays
    obtain ⟨r, x, rest, hsessions⟩ : ∃ r x rest, o.sessions = r :: x :: rest := by
      match hs : o.sessions, hlen with
      | r :: x :: rest, _ => exact ⟨r, x, rest, rfl⟩
    have hx : x.mandatoryDone = false := h.tail_undone x (by simp [hsessions])
    have hmem : x ∈ o.sessions.filter fun s => !s.mandatoryDone :=
      List.mem_filter.mpr ⟨by simp [hsessions], by simp [hx]⟩
    exact List.ne_nil_of_mem hmem
  · exact ⟨h, hne⟩

/-- Every session of an increasing queue is its last one or below it. -/
theorem Increasing.eq_or_lt_of_getLast? {l : List (Rounds A S)} (h : Increasing l)
    {x last : Rounds A S} (hx : x ∈ l) (hlast : l.getLast? = some last) :
    x = last ∨ (x.sessionStart < last.sessionStart ∧ x.validatorSetId < last.validatorSetId) := by
  obtain ⟨ys, rfl⟩ := List.getLast?_eq_some_iff.mp hlast
  rcases List.mem_append.mp hx with hx | hx
  · exact .inr ((List.pairwise_append.mp h).2.2 x hx last List.mem_cons_self)
  · exact .inl (List.mem_singleton.mp hx)

/-- `can_add_session` on an increasing queue: the start is above every queued start. -/
theorem canAddSession_iff {o : VoterOracle A S} (h : Increasing o.sessions) (s : ℕ) :
    o.canAddSession s = true ↔ ∀ x ∈ o.sessions, x.sessionStart < s := by
  unfold canAddSession
  split
  · rename_i last hlast
    have hmem : last ∈ o.sessions := List.mem_of_getLast? hlast
    simp only [decide_eq_true_eq]
    refine ⟨fun hs x hx => ?_, fun hall => hall last hmem⟩
    rcases h.eq_or_lt_of_getLast? hx hlast with rfl | hlt
    · exact hs
    · exact hlt.1.trans hs
  · rename_i hnone
    simp [List.getLast?_eq_none_iff.mp hnone]

/-- A session appended above every queued one, with validators, not done, starting after
block `0` and at most at `g`, keeps the queue well-formed. -/
theorem WellFormed.append {g : ℕ} {l : List (Rounds A S)} (h : WellFormed g l) {r : Rounds A S}
    (hv : r.validators ≠ []) (hpos : 0 < r.sessionStart) (hle : r.sessionStart ≤ g)
    (habove : ∀ x ∈ l, x.sessionStart < r.sessionStart ∧ x.validatorSetId < r.validatorSetId)
    (hundone : r.mandatoryDone = false) : WellFormed g (l ++ [r]) where
  validators_ne_nil x hx := by
    rcases List.mem_append.mp hx with hx | hx
    · exact h.validators_ne_nil x hx
    · rw [List.mem_singleton.mp hx]
      exact hv
  start_pos x hx := by
    rcases List.mem_append.mp hx with hx | hx
    · exact h.start_pos x hx
    · rw [List.mem_singleton.mp hx]
      exact hpos
  start_le x hx := by
    rcases List.mem_append.mp hx with hx | hx
    · exact h.start_le x hx
    · rw [List.mem_singleton.mp hx]
      exact hle
  increasing := List.pairwise_append.mpr ⟨h.increasing, List.pairwise_singleton _ _,
    fun x hx y hy => List.mem_singleton.mp hy ▸ habove x hx⟩
  tail_undone x hx := by
    cases l with
    | nil => simp at hx
    | cons y ys =>
      rw [List.cons_append, List.tail_cons] at hx
      rcases List.mem_append.mp hx with hx | hx
      · exact h.tail_undone x hx
      · rw [List.mem_singleton.mp hx]
        exact hundone

/-- Changing the front session, keeping its start and validator set, keeps the queue
well-formed. -/
theorem WellFormed.cons_front {g : ℕ} {r r' : Rounds A S} {l : List (Rounds A S)}
    (h : WellFormed g (r :: l)) (hstart : r'.sessionStart = r.sessionStart)
    (hset : r'.validatorSet = r.validatorSet) : WellFormed g (r' :: l) where
  validators_ne_nil x hx := by
    rcases List.mem_cons.mp hx with rfl | hx
    · exact (show x.validators = r.validators from congrArg ValidatorSet.validators hset) ▸
        h.validators_ne_nil r List.mem_cons_self
    · exact h.validators_ne_nil x (List.mem_cons_of_mem r hx)
  start_pos x hx := by
    rcases List.mem_cons.mp hx with rfl | hx
    · exact hstart ▸ h.start_pos r List.mem_cons_self
    · exact h.start_pos x (List.mem_cons_of_mem r hx)
  start_le x hx := by
    rcases List.mem_cons.mp hx with rfl | hx
    · exact hstart ▸ h.start_le r List.mem_cons_self
    · exact h.start_le x (List.mem_cons_of_mem r hx)
  increasing := by
    have hinc := List.pairwise_cons.mp h.increasing
    refine List.pairwise_cons.mpr ⟨fun x hx => ?_, hinc.2⟩
    have hid : r'.validatorSetId = r.validatorSetId := congrArg ValidatorSet.id hset
    rw [hstart, hid]
    exact hinc.1 x hx
  tail_undone := h.tail_undone

/-! ### The invariant of the oracle -/

/-- What `checked_new` checks of an oracle, and its `min_block_delta` at least `1`. -/
structure Invariant (o : VoterOracle A S) : Prop where
  sessions_ne_nil : o.sessions ≠ []
  bestBeefy_le : o.bestBeefyBlock ≤ o.bestGrandpaBlock
  minBlockDelta_pos : 1 ≤ o.minBlockDelta
  wellFormed : WellFormed o.bestGrandpaBlock o.sessions

/-- An oracle keeps the invariant exactly when `checked_new`, given its own fields, rebuilds
it: what is written to the database passes `checked_new` when it is read back. -/
theorem invariant_iff_checkedNew (o : VoterOracle A S) :
    o.Invariant ↔
      checkedNew o.sessions o.minBlockDelta o.bestGrandpaBlock o.bestBeefyBlock = some o := by
  rw [checkedNew_eq_some_iff]
  constructor
  · intro h
    refine ⟨⟨h.sessions_ne_nil, h.bestBeefy_le, h.wellFormed⟩, ?_⟩
    rw [max_eq_left h.minBlockDelta_pos]
  · rintro ⟨⟨hne, hle, hwf⟩, ho⟩
    have hdelta : 1 ≤ o.minBlockDelta := by
      rw [ho]
      exact le_max_right _ _
    exact ⟨hne, hle, hdelta, hwf⟩

theorem invariant_of_checkedNew {sessions : List (Rounds A S)} {d g b : ℕ} {o : VoterOracle A S}
    (h : checkedNew sessions d g b = some o) : o.Invariant := by
  obtain ⟨⟨hne, hle, hwf⟩, rfl⟩ := (checkedNew_eq_some_iff sessions d g b o).mp h
  exact ⟨hne, hle, le_max_right _ _, hwf⟩

theorem Invariant.tryPrune {o : VoterOracle A S} (h : o.Invariant) : o.tryPrune.Invariant := by
  obtain ⟨hwf, hne⟩ := wellFormed_tryPrune h.wellFormed h.sessions_ne_nil
  exact ⟨hne, by simpa using h.bestBeefy_le, by simpa using h.minBlockDelta_pos, by simpa using hwf⟩

/-- A session added as `init_session_at` adds it — starting after the last queued one and
at most at the best GRANDPA block, with validators and a set id above the last one — keeps
the invariant. -/
theorem Invariant.addSession {o : VoterOracle A S} (h : o.Invariant) {s : ℕ}
    {vs : ValidatorSet A} (hcan : o.canAddSession s = true) (hle : s ≤ o.bestGrandpaBlock)
    (hv : vs.validators ≠ []) (hid : ∀ last ∈ o.sessions.getLast?, last.validatorSetId < vs.id) :
    (o.addSession (Rounds.new s vs)).Invariant := by
  have hwf := h.wellFormed
  have habove := (canAddSession_iff hwf.increasing s).mp hcan
  obtain ⟨last, hlast⟩ := Option.ne_none_iff_exists'.mp
    (mt List.getLast?_eq_none_iff.mp h.sessions_ne_nil)
  have hlastmem : last ∈ o.sessions := List.mem_of_getLast? hlast
  have hpos : 0 < s := (hwf.start_pos last hlastmem).trans (habove last hlastmem)
  have hids : ∀ x ∈ o.sessions, x.validatorSetId < vs.id := by
    intro x hx
    have hlastid := hid last hlast
    rcases hwf.increasing.eq_or_lt_of_getLast? hx hlast with rfl | hlt
    · exact hlastid
    · exact hlt.2.trans hlastid
  have happ : WellFormed o.bestGrandpaBlock (o.sessions ++ [Rounds.new s vs]) :=
    hwf.append hv hpos hle (fun x hx => ⟨habove x hx, hids x hx⟩) rfl
  exact Invariant.tryPrune ⟨by simp, h.bestBeefy_le, h.minBlockDelta_pos, happ⟩

/-- `finalize` never fails on an oracle keeping the invariant, and keeps it. -/
theorem Invariant.finalize {o : VoterOracle A S} (h : o.Invariant) (block : ℕ) :
    ∃ o', o.finalize block = .ok o' ∧ o'.Invariant ∧ Pruned o' := by
  obtain ⟨hne, hle, hdelta, hwf⟩ := h
  match hs : o.sessions, hne, hwf with
  | front :: rest, _, hwf =>
    refine ⟨_, by rw [VoterOracle.finalize, hs], Invariant.tryPrune ?_, pruned_tryPrune _⟩
    exact ⟨by simp, hle, hdelta, hwf.cons_front rfl rfl⟩

/-- Raising the best GRANDPA block keeps the invariant. -/
theorem Invariant.setBestGrandpa {o : VoterOracle A S} (h : o.Invariant) {n : ℕ}
    (hn : o.bestGrandpaBlock ≤ n) : ({ o with bestGrandpaBlock := n } : VoterOracle A S).Invariant where
  sessions_ne_nil := h.sessions_ne_nil
  bestBeefy_le := h.bestBeefy_le.trans hn
  minBlockDelta_pos := h.minBlockDelta_pos
  wellFormed :=
    { h.wellFormed with start_le := fun r hr => (h.wellFormed.start_le r hr).trans hn }

/-- On an oracle keeping the invariant, `active_rounds` gives the front session and
`accepted_interval` a non-empty interval ending at most at the best GRANDPA block. -/
theorem Invariant.activeRounds_acceptedInterval {o : VoterOracle A S} (h : o.Invariant) :
    (∃ r, o.activeRounds = .ok r) ∧
      ∃ start end_, o.acceptedInterval = .ok (start, end_) ∧ start ≤ end_ ∧
        end_ ≤ o.bestGrandpaBlock := by
  obtain ⟨hne, hle, -, hwf⟩ := h
  match hs : o.sessions, hne, hwf with
  | front :: rest, _, hwf =>
    have hfront := hwf.start_le front List.mem_cons_self
    refine ⟨⟨front, by rw [activeRounds, hs]; rfl⟩, ?_⟩
    unfold acceptedInterval
    rw [hs, List.head?_cons]
    dsimp only
    split
    · exact ⟨_, _, rfl, max_le hfront hle, le_rfl⟩
    · exact ⟨_, _, rfl, le_rfl, hfront⟩

end VoterOracle

end BeefyEtf
