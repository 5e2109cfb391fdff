/-
The voter from its start.

`init_state` builds, on a consistent chain, a state whose oracle is sound: it keeps what
`checked_new` checks, is in one of the three documented states, and is caught up.  A
restart with a sound stored state keeps it sound, when the sessions announced meanwhile
have validators and increasing set ids.  Every run of the worker from such a state keeps
its invariant, so the worker finalizes blocks in session order from the first start on.

* `Consistent.initState_sound` — `init_state` returns a sound oracle;
* `Sound.foldl_initSessionAt` — starting sessions above the queue, in increasing order,
  keeps the oracle sound;
* `restart_keeps_sound` — `load_or_init_state` keeps a sound stored state sound;
* `startup_runs_session_ordered` — from the state `load_or_init_state` builds with nothing
  stored, every block the worker finalizes is session-ordered.
-/
import BeefyEtf.Startup
import BeefyEtf.WorkerRuns

namespace BeefyEtf

namespace VoterOracle

variable {A S : Type*} [Ord A]

@[simp] theorem addSession_bestBeefyBlock (o : VoterOracle A S) (r : Rounds A S) :
    (o.addSession r).bestBeefyBlock = o.bestBeefyBlock :=
  tryPrune_bestBeefyBlock _

@[simp] theorem addSession_bestGrandpaBlock (o : VoterOracle A S) (r : Rounds A S) :
    (o.addSession r).bestGrandpaBlock = o.bestGrandpaBlock :=
  tryPrune_bestGrandpaBlock _

/-- After adding a session that is not done, it is the last one. -/
theorem lastSessionStart_addSession (o : VoterOracle A S) {r : Rounds A S}
    (hr : r.mandatoryDone = false) : (o.addSession r).lastSessionStart = r.sessionStart := by
  unfold lastSessionStart
  rw [getLast?_addSession hr]
  rfl

/-- `set_min_block_delta` keeps the oracle sound. -/
theorem Sound.setMinBlockDelta {o : VoterOracle A S} (h : o.Sound) (d : ℕ) :
    ({ o with minBlockDelta := max d 1 } : VoterOracle A S).Sound where
  invariant := ⟨h.invariant.sessions_ne_nil, h.invariant.bestBeefy_le, le_max_right d 1,
    h.invariant.wellFormed⟩
  pruned := h.pruned
  caughtUp := h.caughtUp

/-- A validator set announced at block `x.2` may start a session after the queue of `o`:
above its last session and its best BEEFY block, at most at its best GRANDPA block, with
validators and a larger set id than the last session's. -/
structure StartsAbove (o : VoterOracle A S) (x : ValidatorSet A × ℕ) : Prop where
  lastSessionStart_lt : o.lastSessionStart < x.2
  bestBeefy_lt : o.bestBeefyBlock < x.2
  le_bestGrandpa : x.2 ≤ o.bestGrandpaBlock
  validators_ne_nil : x.1.validators ≠ []
  id_lt : ∀ last ∈ o.sessions.getLast?, last.validatorSetId < x.1.id

/-- A session started above the queue keeps the oracle sound. -/
theorem Sound.addSession_of_startsAbove {o : VoterOracle A S} (h : o.Sound)
    {x : ValidatorSet A × ℕ} (hx : o.StartsAbove x) : (o.addSession (Rounds.new x.2 x.1)).Sound := by
  have hcan : o.canAddSession x.2 = true := by
    rw [canAddSession_eq_decide o (Nat.zero_lt_of_lt hx.bestBeefy_lt)]
    exact decide_eq_true hx.lastSessionStart_lt
  exact h.addSession hcan hx.le_bestGrandpa hx.validators_ne_nil hx.id_lt hx.bestBeefy_lt

/-- A set starting above the queue and after a session started there still starts above
the new queue. -/
theorem StartsAbove.addSession {o : VoterOracle A S} {x y : ValidatorSet A × ℕ}
    (hy : o.StartsAbove y) (hxy : x.2 < y.2 ∧ x.1.id < y.1.id) :
    (o.addSession (Rounds.new x.2 x.1)).StartsAbove y := by
  refine ⟨?_, ?_, ?_, hy.validators_ne_nil, ?_⟩
  · rw [lastSessionStart_addSession o rfl]
    exact hxy.1
  · rw [addSession_bestBeefyBlock]
    exact hy.bestBeefy_lt
  · rw [addSession_bestGrandpaBlock]
    exact hy.le_bestGrandpa
  · -- the new last session is the one just added
    intro last hlast
    rw [getLast?_addSession rfl, Option.mem_some_iff] at hlast
    subst hlast
    exact hxy.2

end VoterOracle

namespace PersistedState

variable {A S : Type*} [Ord A]

/-- **Starting sessions in order.**  Starting, with `init_session_at`, validator sets that
all start above the queue, with increasing blocks and set ids, keeps the oracle sound. -/
theorem Sound.foldl_initSessionAt :
    ∀ (l : List (ValidatorSet A × ℕ)) (p : PersistedState A S), p.votingOracle.Sound →
      l.Pairwise (fun x y => x.2 < y.2 ∧ x.1.id < y.1.id) →
      (∀ x ∈ l, p.votingOracle.StartsAbove x) →
      (l.foldl (fun state x => state.initSessionAt x.2 x.1) p).votingOracle.Sound
  | [], _, h, _, _ => h
  | x :: l, p, h, hl, habove => by
    -- the invariant of the loop: a sound oracle below every set still to start
    obtain ⟨hxl, hl⟩ := List.pairwise_cons.mp hl
    rw [List.foldl_cons]
    exact Sound.foldl_initSessionAt l _
      (h.addSession_of_startsAbove (habove x List.mem_cons_self)) hl
      fun y hy => (habove y (List.mem_cons_of_mem x hy)).addSession (hxl y hy)

end PersistedState

namespace Chain

variable {A S : Type*} [Ord A] {chain : Chain A} {aux : AuxStore A S} {g bg : ℕ} (d : ℕ)

open VoterOracle in
/-- The state `init_state` builds on a consistent chain is sound. -/
theorem Consistent.initState_sound (hc : chain.Consistent g bg)
    (hversion : aux.writeCurrentVersion = .ok ()) (hwrite : ∀ p, aux.writeVoterState p = .ok ()) :
    ∃ state, chain.initState aux g bg d = .ok state ∧ state.votingOracle.Sound := by
  rcases hc.initState_cases d hversion hwrite with
    ⟨-, vs₀, hvs₀, hinit⟩ | ⟨J, hgJ, hJbg, -, -, sessions, hinit, hne, hwf, hann, hnil⟩
  · -- at the genesis: every session is new, and the front starts past block `0`
    refine ⟨_, hinit, ⟨⟨List.cons_ne_nil _ _, Nat.zero_le _, le_max_right d 1,
      hc.wellFormed_genesis hvs₀⟩, fun _ r hr => ?_, fun front hfront hle => ?_⟩⟩
    · rcases List.mem_cons.mp hr with rfl | hr
      · rfl
      · exact mandatoryDone_of_mem_announcedSessions hr
    · rw [List.head?_cons, Option.mem_some_iff] at hfront
      subst hfront
      have := hc.genesis_pos
      exact absurd hle (by simp [Rounds.new]; omega)
  · by_cases hempty : (chain.announcedSessions J bg : List (Rounds A S)) = []
    · -- resumed at `J` with one session, its mandatory block concluded
      obtain ⟨vs, -, rfl⟩ := hnil hempty
      refine ⟨_, hinit, ⟨⟨hne, hJbg, le_max_right d 1, hwf⟩, fun hlen => absurd hlen (by simp),
        fun front hfront _ => ?_⟩⟩
      rw [List.head?_cons, Option.mem_some_iff] at hfront
      subst hfront
      simp [Rounds.conclude, Rounds.new]
    · -- resumed at `J` with the sessions announced above it
      obtain rfl := hann hempty
      refine ⟨_, hinit, ⟨⟨hne, hJbg, le_max_right d 1, hwf⟩,
        fun _ r hr => mandatoryDone_of_mem_announcedSessions hr, fun front hfront hle => ?_⟩⟩
      obtain ⟨x, hx, rfl⟩ := List.mem_map.mp (List.mem_of_mem_head? hfront)
      have := (mem_announcements.mp hx).1
      exact absurd hle (by simp [Rounds.new]; omega)

/-- **Restarts keep the oracle sound.**  A stored state of the same pallet genesis whose
oracle is sound, below the new best GRANDPA block, is loaded sound when the validator sets
announced above both its last session and its best BEEFY block have validators and set
ids increasing above its last session's. -/
theorem restart_keeps_sound {p : PersistedState A S} (hload : aux.loadPersistent = .ok (some p))
    (hg : p.palletGenesis = g) (hsound : p.votingOracle.Sound)
    (hbg : p.votingOracle.bestGrandpaBlock ≤ bg)
    (hv : ∀ x ∈ chain.announcements
      (max p.votingOracle.lastSessionStart p.votingOracle.bestBeefyBlock) bg,
      x.1.validators ≠ [] ∧ ∀ last ∈ p.votingOracle.sessions.getLast?,
        last.validatorSetId < x.1.id)
    (hid : (chain.announcements
      (max p.votingOracle.lastSessionStart p.votingOracle.bestBeefyBlock) bg).Pairwise
        fun x y => x.1.id < y.1.id) :
    ∃ state, chain.loadOrInitState aux g bg d = .ok state ∧ state.votingOracle.Sound := by
  refine ⟨_, loadOrInitState_eq_foldl hload hg, ?_⟩
  apply PersistedState.Sound.foldl_initSessionAt
  · exact (hsound.setBestGrandpa hbg).setMinBlockDelta d
  · exact (pairwise_announcements chain _ bg).and hid
  · -- each set starts above both bounds, at most at the new best GRANDPA block
    intro x hx
    obtain ⟨hlo, hle, -⟩ := mem_announcements.mp hx
    exact ⟨lt_of_le_of_lt (le_max_left _ _) hlo, lt_of_le_of_lt (le_max_right _ _) hlo, hle,
      (hv x hx).1, (hv x hx).2⟩

/-- A sound stored state of one session at block `1`, best GRANDPA block `1`, restarted at
best GRANDPA block `3` after block `2` announced the next set. -/
theorem restart_keeps_sound_next_set :
    let chain : Chain ℕ :=
      ⟨fun k => if k = 2 then [.authoritiesChange ⟨[0], [0], 1⟩] else [], fun _ => "",
        fun _ => false, fun _ => some ⟨[0], [0], 0⟩, fun _ => some 1⟩
    let p : PersistedState ℕ ℕ := ⟨0, ⟨[Rounds.new 1 ⟨[0], [0], 0⟩], 1, 1, 0⟩, 1⟩
    let aux : AuxStore ℕ ℕ := ⟨.ok (some p), .ok (), fun _ => .ok ()⟩
    ∃ state, chain.loadOrInitState aux 1 3 1 = .ok state ∧ state.votingOracle.Sound := by
  intro chain p aux
  have hsound : p.votingOracle.Sound :=
    ⟨(VoterOracle.invariant_iff_checkedNew _).mpr rfl, fun hlen => absurd hlen (by decide),
      fun front hfront hle => absurd hle (by simp [p] at hfront; subst hfront; decide)⟩
  have hann : chain.announcements
      (max p.votingOracle.lastSessionStart p.votingOracle.bestBeefyBlock) 3 =
        [(⟨[0], [0], 1⟩, 2)] := rfl
  refine restart_keeps_sound 1 rfl rfl hsound (by decide) ?_ ?_
  · rw [hann]
    intro x hx
    rw [List.mem_singleton] at hx
    subst hx
    refine ⟨List.cons_ne_nil _ _, fun last hlast => ?_⟩
    simp only [p, List.getLast?_singleton, Option.mem_some_iff] at hlast
    subst hlast
    decide
  · rw [hann]
    exact List.pairwise_singleton _ _

section Runs

variable [DecidableEq A] [Std.TransOrd A]

/-- **From the first start, finalization is session-ordered.**  On a consistent chain whose
pallet genesis is past block `0`, with nothing stored and the database accepting the
writes, `load_or_init_state` builds a state from which every run of the worker, under any
interleaving of its entry points, finalizes only session-ordered blocks and stays caught
up. -/
theorem startup_runs_session_ordered (env : Env A S) (payload : ℕ → Option Payload)
    (sign : A → Commitment → Except String S) (hc : chain.Consistent g bg)
    (hnone : aux.loadPersistent = .ok none) (hversion : aux.writeCurrentVersion = .ok ())
    (hwrite : ∀ p, aux.writeVoterState p = .ok ()) :
    ∃ state, chain.loadOrInitState aux g bg d = .ok state ∧
      ∀ w₀ w : Worker A S, w₀.persistedState = state → w₀.pendingJustifications = ∅ →
        w₀.finalized = [] → Relation.ReflTransGen (Worker.Step env payload sign) w₀ w →
        (∀ x ∈ w.finalized, x.2.SessionOrdered x.1) ∧ w.persistedState.votingOracle.CaughtUp := by
  obtain ⟨state, hinit, hsound⟩ := hc.initState_sound d hversion hwrite
  -- nothing stored: `load_or_init_state` is `init_state`
  have hload : chain.loadOrInitState aux g bg d = chain.initState aux g bg d := by
    unfold loadOrInitState
    rw [hnone]
    rfl
  refine ⟨state, hload.trans hinit, fun w₀ w hw₀ hpend hlog hrun => ?_⟩
  have hsound₀ : w₀.persistedState.votingOracle.Sound := by
    rw [hw₀]
    exact hsound
  have hinv := Worker.inv_of_reflTransGen env (Worker.Inv.of_sound hsound₀ hpend hlog) hrun
  exact ⟨hinv.finalized, hinv.sound.caughtUp⟩

/-- One validator, ours, from the genesis at block `1`: after a self vote, what the worker
finalized is session-ordered. -/
theorem startup_runs_session_ordered_self_vote :
    let chain : Chain ℕ :=
      ⟨fun _ => [], fun _ => "", fun _ => false, fun _ => some ⟨[0], [0], 0⟩, fun _ => some 1⟩
    let aux : AuxStore ℕ ℕ := ⟨.ok none, .ok (), fun _ => .ok ()⟩
    let env : Env ℕ ℕ :=
      ⟨fun _ => .ok (), fun n => some n, fun _ => some 1, fun vs => vs.head?, fun _ => .ok ()⟩
    ∃ state, chain.loadOrInitState aux 1 1 1 = .ok state ∧
      ∀ x ∈ (Worker.tryToVote env false
          (Worker.getSignedPayloadEcdsa (fun _ => some ⟨[]⟩) fun _ _ => .ok 0)
          ⟨state, ∅, none, [], [], [], [], []⟩).1.finalized, x.2.SessionOrdered x.1 := by
  intro chain aux env
  -- no header announces a set
  have hfind : ∀ k, findAuthoritiesChange (chain.header k) = none := fun _ => rfl
  have hc : chain.Consistent 1 1 :=
    { genesis_pos := Nat.one_pos
      genesis_le := le_rfl
      reports_genesis := rfl
      reports_genesis_set := rfl
      reported_ne_nil := fun k vs _ _ h => by
        cases Option.some.inj h
        exact List.cons_ne_nil _ _
      announced_ne_nil := fun k vs _ _ h => by
        rw [hfind k] at h
        cases h
      announced_id_lt := fun k k' vs vs' _ _ _ h _ => by
        rw [hfind k] at h
        cases h
      genesis_id_lt := fun vs₀ k vs _ _ _ h => by
        rw [hfind k] at h
        cases h }
  obtain ⟨state, hload, hruns⟩ := startup_runs_session_ordered 1 env (fun _ => some ⟨[]⟩)
    (fun _ _ => .ok 0) hc (show aux.loadPersistent = .ok none from rfl) rfl fun _ => rfl
  exact ⟨state, hload, (hruns _ _ rfl rfl rfl (Relation.ReflTransGen.single Worker.Step.vote)).1⟩

end Runs

end Chain

end BeefyEtf
