/-
What `BeefyWorker::finalize` leaves behind.

`finalize` changes the state in memory — the oracle concludes the round and the best
BEEFY block is set — before it writes the state to the database, and only after the write
sends the justification to the RPC stream and updates the gossip filter.  So a failed
write returns an error with the round finalized in memory but neither announced nor
filtered: finalization is not all-or-nothing.

* `finalize_of_le` — a round at or below the best BEEFY block changes nothing;
* `finalize_all_or_nothing` — on an oracle keeping its invariant, a round above the best
  BEEFY block is finalized in memory in every case; then either the call succeeds, the
  proof is sent and the filter is the new state's, or the write failed, the error is the
  backend's, and nothing is sent.
-/
import BeefyEtf.Worker

namespace BeefyEtf

namespace PersistedState

variable {A S : Type*} [Ord A]

/-- With a session queued, the gossip filter of the state is defined. -/
theorem gossipFilterConfig_of_ne_nil {p : PersistedState A S} (h : p.votingOracle.sessions ≠ []) :
    ∃ filter, p.gossipFilterConfig = .ok filter := by
  obtain ⟨front, rest, hs⟩ := List.exists_cons_of_ne_nil h
  unfold gossipFilterConfig VoterOracle.currentValidatorSet VoterOracle.activeRounds
    VoterOracle.acceptedInterval
  rw [hs, List.head?_cons]
  dsimp only
  cases front.mandatoryDone <;> exact ⟨_, rfl⟩

end PersistedState

namespace Worker

variable {A S : Type*} [Ord A] (env : Env A S)

/-- A round at or below the best BEEFY block was finalized before: `finalize` returns at
once. -/
theorem finalize_of_le {w : Worker A S} {finalityProof : VersionedFinalityProof S}
    (h : finalityProof.blockNumber ≤ w.persistedState.votingOracle.bestBeefyBlock) :
    finalize env w finalityProof = (w, .ok ()) := by
  dsimp only [finalize]
  rw [if_pos h]

/-- Above the best BEEFY block, once the oracle concluded the round, the state `finalize`
returns carries the new oracle and best BEEFY block, the same buffer, and the block in the
ghost record, whatever the write and the filter give. -/
theorem finalize_fst_of_lt {w : Worker A S} {finalityProof : VersionedFinalityProof S}
    {o' : VoterOracle A S}
    (hgt : w.persistedState.votingOracle.bestBeefyBlock < finalityProof.blockNumber)
    (hfin : w.persistedState.votingOracle.finalize finalityProof.blockNumber = .ok o') :
    (finalize env w finalityProof).1.persistedState =
        PersistedState.setBestBeefy { w.persistedState with votingOracle := o' }
          finalityProof.blockNumber ∧
      (finalize env w finalityProof).1.pendingJustifications = w.pendingJustifications ∧
      (finalize env w finalityProof).1.finalized =
        w.finalized ++ [(finalityProof.blockNumber, w.persistedState.votingOracle)] := by
  dsimp only [finalize]
  rw [if_neg (by omega), hfin]
  dsimp only
  split
  · exact ⟨rfl, rfl, rfl⟩
  · split <;> dsimp only <;> split <;> exact ⟨rfl, rfl, rfl⟩

/-- **Finalization is not all-or-nothing.**  On an oracle keeping its invariant, a round
above the best BEEFY block is finalized in memory whatever happens next: the oracle
concludes it and the best BEEFY block is set.  Then either the call succeeds, the proof
is sent to the RPC stream and the gossip filter is the new state's; or the database write
failed, the call returns the backend's error, and neither the RPC stream nor the gossip
filter changed. -/
theorem finalize_all_or_nothing (w : Worker A S) (finalityProof : VersionedFinalityProof S)
    (hinv : w.persistedState.votingOracle.Invariant)
    (hgt : w.persistedState.votingOracle.bestBeefyBlock < finalityProof.blockNumber) :
    ∃ o', w.persistedState.votingOracle.finalize finalityProof.blockNumber = .ok o' ∧
      (finalize env w finalityProof).1.persistedState =
        PersistedState.setBestBeefy { w.persistedState with votingOracle := o' }
          finalityProof.blockNumber ∧
      (((finalize env w finalityProof).2 = .ok () ∧
          (finalize env w finalityProof).1.rpcJustifications =
            w.rpcJustifications ++ [finalityProof] ∧
          (finalize env w finalityProof).1.gossipFilter =
            ((finalize env w finalityProof).1.persistedState.gossipFilterConfig).toOption) ∨
        ∃ e, env.writeVoterState (finalize env w finalityProof).1.persistedState = .error e ∧
          (finalize env w finalityProof).2 = .error (.backend e) ∧
          (finalize env w finalityProof).1.rpcJustifications = w.rpcJustifications ∧
          (finalize env w finalityProof).1.gossipFilter = w.gossipFilter) := by
  obtain ⟨o', hfin, hinv', -⟩ := hinv.finalize finalityProof.blockNumber
  refine ⟨o', hfin, ?_⟩
  -- the state after the oracle's finalization and `set_best_beefy`
  obtain ⟨filter, hfilter⟩ := PersistedState.gossipFilterConfig_of_ne_nil
    (show ((w.withOracle o').persistedState.setBestBeefy
      finalityProof.blockNumber).votingOracle.sessions ≠ [] from hinv'.sessions_ne_nil)
  dsimp only [finalize]
  rw [if_neg (by omega), hfin]
  dsimp only
  cases hwrite : env.writeVoterState
    ((w.withOracle o').persistedState.setBestBeefy finalityProof.blockNumber) with
  | error e =>
    exact ⟨rfl, .inr ⟨e, hwrite, rfl, rfl, rfl⟩⟩
  | ok u =>
    cases env.blockHash finalityProof.blockNumber with
    | none =>
      simp only [hfilter, Except.toOption]
      exact ⟨rfl, .inl ⟨trivial, rfl, trivial⟩⟩
    | some hash =>
      simp only [hfilter, Except.toOption]
      exact ⟨rfl, .inl ⟨trivial, rfl, trivial⟩⟩

/-- The genesis session of one validator, whose round `1` is finalized while the
database refuses every write: the best BEEFY block is `1` all the same. -/
theorem finalize_all_or_nothing_failed_write :
    let w : Worker ℕ ℕ :=
      ⟨⟨0, ⟨[Rounds.new 1 ⟨[0], [0], 0⟩], 1, 2, 0⟩, 0⟩, ∅, none, [], [], [], [], []⟩
    let env : Env ℕ ℕ :=
      ⟨fun _ => .error "io", fun _ => none, fun _ => none, fun _ => none, fun _ => .ok ()⟩
    (finalize env w (.v1 ⟨⟨⟨[]⟩, 1, 0⟩, [some 0]⟩)).1.persistedState.votingOracle.bestBeefyBlock =
      1 := by
  intro w env
  have hinv : w.persistedState.votingOracle.Invariant :=
    (VoterOracle.invariant_iff_checkedNew _).mpr rfl
  obtain ⟨o', -, hstate, -⟩ :=
    finalize_all_or_nothing env w (.v1 ⟨⟨⟨[]⟩, 1, 0⟩, [some 0]⟩) hinv (by decide)
  rw [hstate]
  rfl

/-- `finalize` returns the backend's error after it finalized the round in memory: the
best BEEFY block is no longer what it was before the call. -/
theorem finalize_error_after_finalizing :
    let w : Worker ℕ ℕ :=
      ⟨⟨0, ⟨[Rounds.new 1 ⟨[0], [0], 0⟩], 1, 2, 0⟩, 0⟩, ∅, none, [], [], [], [], []⟩
    let env : Env ℕ ℕ :=
      ⟨fun _ => .error "io", fun _ => none, fun _ => none, fun _ => none, fun _ => .ok ()⟩
    (finalize env w (.v1 ⟨⟨⟨[]⟩, 1, 0⟩, [some 0]⟩)).2 = .error (.backend "io") ∧
      (finalize env w (.v1 ⟨⟨⟨[]⟩, 1, 0⟩, [some 0]⟩)).1.persistedState.votingOracle.bestBeefyBlock ≠
        w.persistedState.votingOracle.bestBeefyBlock :=
  ⟨rfl, by decide⟩

end Worker

end BeefyEtf
