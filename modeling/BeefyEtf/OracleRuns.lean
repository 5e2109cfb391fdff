/-
Runs of the voter's queue of sessions.

From an oracle `checked_new` accepts, the queue changes by `add_session` (as
`init_session_at` calls it, for a finalized header above the last queued session), by
`finalize`, by raising the best GRANDPA block and by `try_prune`.  Over every run of
these:

* `invariant_step` — each step keeps what `checked_new` checks;
* `pruned_step` — each step keeps the queue in one of the three documented states;
* `sessions_queue_invariant` — so `active_rounds` and `accepted_interval` never fail, the
  state written to the database passes `checked_new` unchanged, and a start in one of the
  three documented states is never left.
-/
import BeefyEtf.Oracle

namespace BeefyEtf

namespace VoterOracle

variable {A S : Type*} [Ord A]

/-- One change of the oracle, with the guard its callers give. -/
inductive Step : VoterOracle A S → VoterOracle A S → Prop where
  /-- `init_session_at` for a finalized header above the last queued session, carrying a
  validator set with validators and a set id above the last one. -/
  | addSession {o : VoterOracle A S} {s : ℕ} {vs : ValidatorSet A} :
      o.canAddSession s = true → s ≤ o.bestGrandpaBlock → vs.validators ≠ [] →
      (∀ last ∈ o.sessions.getLast?, last.validatorSetId < vs.id) →
      Step o (o.addSession (Rounds.new s vs))
  | finalize {o o' : VoterOracle A S} {block : ℕ} : o.finalize block = .ok o' → Step o o'
  /-- `set_best_grandpa`, never lowering the best GRANDPA block. -/
  | setBestGrandpa {o : VoterOracle A S} {n : ℕ} :
      o.bestGrandpaBlock ≤ n → Step o { o with bestGrandpaBlock := n }
  | tryPrune {o : VoterOracle A S} : Step o o.tryPrune

theorem invariant_step {o o' : VoterOracle A S} (h : o.Invariant) (hstep : Step o o') :
    o'.Invariant := by
  cases hstep with
  | addSession hcan hle hv hid => exact h.addSession hcan hle hv hid
  | finalize hfin =>
    rename_i block
    obtain ⟨o'', hfin', hinv, -⟩ := h.finalize block
    rw [hfin] at hfin'
    cases hfin'
    exact hinv
  | setBestGrandpa hn => exact h.setBestGrandpa hn
  | tryPrune => exact h.tryPrune

/-- Raising the best GRANDPA block leaves the queue as it is; every other step ends in
`try_prune`. -/
theorem pruned_step {o o' : VoterOracle A S} (h : Pruned o) (hstep : Step o o') : Pruned o' := by
  cases hstep with
  | addSession => exact pruned_tryPrune _
  | finalize hfin =>
    unfold VoterOracle.finalize at hfin
    split at hfin
    · cases hfin
    · cases hfin
      exact pruned_tryPrune _
  | setBestGrandpa => exact h
  | tryPrune => exact pruned_tryPrune _

theorem invariant_of_reflTransGen {o o' : VoterOracle A S} (h : o.Invariant)
    (hrun : Relation.ReflTransGen Step o o') : o'.Invariant := by
  induction hrun with
  | refl => exact h
  | tail _ hstep ih => exact invariant_step ih hstep

theorem pruned_of_reflTransGen {o o' : VoterOracle A S} (h : Pruned o)
    (hrun : Relation.ReflTransGen Step o o') : Pruned o' := by
  induction hrun with
  | refl => exact h
  | tail _ hstep ih => exact pruned_step ih hstep

/-- **The session queue over a run.**  From an oracle `checked_new` accepts, after any
steps: the queue is non-empty and well-formed (starts after block `0`, strictly increasing
and at most at the best GRANDPA block, set ids strictly increasing, no session but the
front done), `active_rounds` and `accepted_interval` succeed, `checked_new` rebuilds the
oracle from its own fields, and a start in one of the three documented states is never
left. -/
theorem sessions_queue_invariant {sessions : List (Rounds A S)} {d g b : ℕ}
    {o₀ o : VoterOracle A S} (h₀ : checkedNew sessions d g b = some o₀)
    (hrun : Relation.ReflTransGen Step o₀ o) :
    o.sessions ≠ [] ∧ WellFormed o.bestGrandpaBlock o.sessions ∧
      (∃ r, o.activeRounds = .ok r) ∧ (∃ start end_, o.acceptedInterval = .ok (start, end_)) ∧
      checkedNew o.sessions o.minBlockDelta o.bestGrandpaBlock o.bestBeefyBlock = some o ∧
      (Pruned o₀ → Pruned o) := by
  have hinv := invariant_of_reflTransGen (invariant_of_checkedNew h₀) hrun
  obtain ⟨hactive, start, end_, hinterval, -⟩ := hinv.activeRounds_acceptedInterval
  exact ⟨hinv.sessions_ne_nil, hinv.wellFormed, hactive, ⟨start, end_, hinterval⟩,
    (invariant_iff_checkedNew o).mp hinv, fun hp => pruned_of_reflTransGen hp hrun⟩

/-- The genesis session, then the best GRANDPA block raised to `5` and a session added
at block `4`. -/
theorem sessions_queue_invariant_new_session :
    checkedNew [(Rounds.new 1 ⟨[0], [0], 0⟩ : Rounds ℕ ℕ)] 1 2 0 =
        some ⟨[Rounds.new 1 ⟨[0], [0], 0⟩], 1, 2, 0⟩ ∧
      Relation.ReflTransGen Step (⟨[Rounds.new 1 ⟨[0], [0], 0⟩], 1, 2, 0⟩ : VoterOracle ℕ ℕ)
        ((⟨[Rounds.new 1 ⟨[0], [0], 0⟩], 1, 5, 0⟩ : VoterOracle ℕ ℕ).addSession
          (Rounds.new 4 ⟨[0], [0], 1⟩)) ∧
      checkedNew [Rounds.new 1 ⟨[0], [0], 0⟩, Rounds.new 4 ⟨[0], [0], 1⟩] 1 5 0 =
        some ((⟨[Rounds.new 1 ⟨[0], [0], 0⟩], 1, 5, 0⟩ : VoterOracle ℕ ℕ).addSession
          (Rounds.new 4 ⟨[0], [0], 1⟩)) := by
  have h₀ : checkedNew [(Rounds.new 1 ⟨[0], [0], 0⟩ : Rounds ℕ ℕ)] 1 2 0 =
      some ⟨[Rounds.new 1 ⟨[0], [0], 0⟩], 1, 2, 0⟩ := rfl
  have hraise : Step (⟨[Rounds.new 1 ⟨[0], [0], 0⟩], 1, 2, 0⟩ : VoterOracle ℕ ℕ)
      ⟨[Rounds.new 1 ⟨[0], [0], 0⟩], 1, 5, 0⟩ := Step.setBestGrandpa (by decide)
  have hadd : Step (⟨[Rounds.new 1 ⟨[0], [0], 0⟩], 1, 5, 0⟩ : VoterOracle ℕ ℕ)
      ((⟨[Rounds.new 1 ⟨[0], [0], 0⟩], 1, 5, 0⟩ : VoterOracle ℕ ℕ).addSession
        (Rounds.new 4 ⟨[0], [0], 1⟩)) :=
    Step.addSession rfl (by decide) (by simp)
      (by simp [Rounds.validatorSetId, Rounds.new])
  have hrun := (Relation.ReflTransGen.single hraise).tail hadd
  exact ⟨h₀, hrun, (sessions_queue_invariant h₀ hrun).2.2.2.2.1⟩

/-- `checked_new` accepts a queue outside the three documented states, whose front is done
while a second session waits; and `can_add_session` lets in a session whose set id is
below the last one, after which `checked_new` refuses the queue. -/
theorem checkedNew_accepts_unpruned_queue :
    (∃ o : VoterOracle ℕ ℕ,
      checkedNew [{ (Rounds.new 1 ⟨[0], [0], 0⟩ : Rounds ℕ ℕ) with mandatoryDone := true },
        Rounds.new 2 ⟨[0], [0], 1⟩] 1 2 0 = some o ∧ ¬ Pruned o) ∧
    ∃ o : VoterOracle ℕ ℕ, checkedNew [Rounds.new 1 ⟨[0], [0], 5⟩] 1 2 0 = some o ∧
      o.canAddSession 2 = true ∧ 2 ≤ o.bestGrandpaBlock ∧
      checkedNew (o.addSession (Rounds.new 2 ⟨[0], [0], 3⟩)).sessions 1 2 0 = none := by
  refine ⟨⟨_, rfl, fun h => ?_⟩, ⟨_, rfl, rfl, le_rfl, rfl⟩⟩
  have hdone := h (by decide) _ List.mem_cons_self
  cases hdone

end VoterOracle

end BeefyEtf
