/-
The pending mandatory block across the calls of the worker.

Every entry point of the worker either keeps the front session's pending mandatory block
pending, with the same validator set, or finalizes that block: the best BEEFY block then
reaches it and, when the database writes succeed, the call notified the RPC justification
stream of a justification at or above it.  `Worker.KeepsMandatory` states this as a preorder
on worker states, which also says that the RPC stream only grows and the best BEEFY block
only rises.

* `mandatoryPending_tryPrune`, `mandatoryPending_addSession` — pruning the queue and adding
  a session keep a pending mandatory block pending;
* `mandatoryPending_finalize` — concluding a round keeps it, unless the round is that block;
* `keepsMandatory_finalize`, `keepsMandatory_triageIncomingVote`,
  `keepsMandatory_triageIncomingJustif`, `keepsMandatory_tryPendingJustifications`,
  `keepsMandatory_tryToVote`, `keepsMandatory_handleFinalityNotification` — each entry point.
-/
import BeefyEtf.Finalize

namespace BeefyEtf

namespace VoterOracle

variable {A S : Type*} [Ord A]

/-- A pending mandatory block is the start of the front session, which is not done, with
that session's validator set. -/
theorem mandatoryPending_eq_some {o : VoterOracle A S} {p : ℕ × ValidatorSet A} :
    o.mandatoryPending = some p ↔ ∃ front rest, o.sessions = front :: rest ∧
      front.mandatoryDone = false ∧ p = (front.sessionStart, front.validatorSet) := by
  unfold mandatoryPending
  cases hs : o.sessions with
  | nil => simp
  | cons front rest =>
    cases hdone : front.mandatoryDone
    · simp only [List.head?_cons, Option.bind_some, hdone, Bool.false_eq_true, if_false,
        Option.some.injEq, List.cons.injEq]
      constructor
      · rintro rfl
        exact ⟨front, rest, ⟨rfl, rfl⟩, hdone, rfl⟩
      · rintro ⟨f, r, ⟨rfl, rfl⟩, -, rfl⟩
        rfl
    · simp only [List.head?_cons, Option.bind_some, hdone, if_true, reduceCtorEq, false_iff,
        List.cons.injEq, not_exists, not_and]
      rintro f r ⟨rfl, rfl⟩ hf
      rw [hdone] at hf
      cases hf

/-- The pending mandatory block reads only the front session's start, set and done flag. -/
theorem mandatoryPending_cons_front {o : VoterOracle A S} {front front' : Rounds A S}
    {rest : List (Rounds A S)} (hs : o.sessions = front :: rest)
    (hstart : front'.sessionStart = front.sessionStart)
    (hset : front'.validatorSet = front.validatorSet)
    (hdone : front'.mandatoryDone = front.mandatoryDone) :
    { o with sessions := front' :: rest }.mandatoryPending = o.mandatoryPending := by
  unfold mandatoryPending
  rw [hs]
  simp [hstart, hset, hdone]

/-- Pruning keeps a pending mandatory block pending: its session is not done. -/
theorem mandatoryPending_tryPrune {o : VoterOracle A S} {p : ℕ × ValidatorSet A}
    (h : o.mandatoryPending = some p) : o.tryPrune.mandatoryPending = some p := by
  obtain ⟨front, rest, hs, hundone, rfl⟩ := mandatoryPending_eq_some.mp h
  unfold tryPrune
  split
  · -- the filter keeps the front session in front
    have hfilter : (o.sessions.filter fun s => !s.mandatoryDone) =
        front :: rest.filter fun s => !s.mandatoryDone := by
      rw [hs, List.filter_cons_of_pos (by simp [hundone])]
    exact mandatoryPending_eq_some.mpr ⟨front, _, hfilter, hundone, rfl⟩
  · exact h

/-- Adding a session keeps a pending mandatory block pending. -/
theorem mandatoryPending_addSession {o : VoterOracle A S} {p : ℕ × ValidatorSet A}
    (h : o.mandatoryPending = some p) (r : Rounds A S) :
    (o.addSession r).mandatoryPending = some p := by
  obtain ⟨front, rest, hs, hundone, rfl⟩ := mandatoryPending_eq_some.mp h
  apply mandatoryPending_tryPrune
  exact mandatoryPending_eq_some.mpr ⟨front, rest ++ [r], by rw [hs, List.cons_append],
    hundone, rfl⟩

/-- Concluding round `b` keeps a pending mandatory block pending, unless `b` is that
block. -/
theorem mandatoryPending_finalize {o o' : VoterOracle A S} {b : ℕ} {p : ℕ × ValidatorSet A}
    (hfin : o.finalize b = .ok o') (h : o.mandatoryPending = some p) :
    o'.mandatoryPending = some p ∨ b = p.1 := by
  obtain ⟨front, rest, hs, hundone, rfl⟩ := mandatoryPending_eq_some.mp h
  unfold finalize at hfin
  rw [hs] at hfin
  cases hfin
  by_cases hb : b = front.sessionStart
  · exact .inr hb
  · refine .inl (mandatoryPending_tryPrune (mandatoryPending_eq_some.mpr
      ⟨front.conclude b, rest, rfl, by simp [hundone, hb], by simp⟩))

end VoterOracle

namespace Worker

open VoterOracle

variable {A S : Type*} [Ord A] (env : Env A S)

/-! ### What `finalize` notifies -/

/-- A round the oracle cannot conclude changes nothing. -/
theorem finalize_of_error {w : Worker A S} {finalityProof : VersionedFinalityProof S}
    {e : Error} (hgt : w.persistedState.votingOracle.bestBeefyBlock < finalityProof.blockNumber)
    (hfin : w.persistedState.votingOracle.finalize finalityProof.blockNumber = .error e) :
    finalize env w finalityProof = (w, .error e) := by
  dsimp only [finalize]
  rw [if_neg (by omega), hfin]

/-- `finalize` only appends to the RPC justification stream. -/
theorem finalize_rpcJustifications_grows (w : Worker A S)
    (finalityProof : VersionedFinalityProof S) :
    w.rpcJustifications <+: (finalize env w finalityProof).1.rpcJustifications := by
  dsimp only [finalize]
  split
  · exact List.prefix_refl _
  split
  · exact List.prefix_refl _
  split
  · exact List.prefix_refl _
  -- after the write: the best block hash, then the justification
  split <;> dsimp only <;> split <;> exact List.prefix_append _ _

/-- Once the write of the new state succeeds, `finalize` notifies the RPC stream of the
justification. -/
theorem finalize_rpcJustifications_of_write {w : Worker A S}
    {finalityProof : VersionedFinalityProof S} {o' : VoterOracle A S}
    (hgt : w.persistedState.votingOracle.bestBeefyBlock < finalityProof.blockNumber)
    (hfin : w.persistedState.votingOracle.finalize finalityProof.blockNumber = .ok o')
    (hwrite : env.writeVoterState
      ((w.withOracle o').persistedState.setBestBeefy finalityProof.blockNumber) = .ok ()) :
    (finalize env w finalityProof).1.rpcJustifications =
      w.rpcJustifications ++ [finalityProof] := by
  dsimp only [finalize]
  rw [if_neg (by omega), hfin]
  dsimp only
  rw [hwrite]
  dsimp only
  split <;> dsimp only <;> split <;> rfl

/-! ### The pending mandatory block, from call to call -/

/-- `w'` keeps the mandatory block pending at `w`, or finalized it: its best BEEFY block
reached the block and, when the database writes succeed, a justification at or above it was
notified since `w`.  The RPC justification stream only grows and the best BEEFY block only
rises. -/
structure KeepsMandatory (w w' : Worker A S) : Prop where
  rpc_grows : w.rpcJustifications <+: w'.rpcJustifications
  bestBeefy_le :
    w.persistedState.votingOracle.bestBeefyBlock ≤ w'.persistedState.votingOracle.bestBeefyBlock
  mandatory : ∀ p, w.persistedState.votingOracle.mandatoryPending = some p →
    w'.persistedState.votingOracle.mandatoryPending = some p ∨
      p.1 ≤ w'.persistedState.votingOracle.bestBeefyBlock ∧
        ((∀ s, env.writeVoterState s = .ok ()) →
          ∃ j ∈ w'.rpcJustifications.drop w.rpcJustifications.length, p.1 ≤ j.blockNumber)

theorem KeepsMandatory.refl (w : Worker A S) : KeepsMandatory env w w :=
  ⟨List.prefix_refl _, le_rfl, fun _ h => .inl h⟩

theorem KeepsMandatory.trans {w₁ w₂ w₃ : Worker A S} (h₁ : KeepsMandatory env w₁ w₂)
    (h₂ : KeepsMandatory env w₂ w₃) : KeepsMandatory env w₁ w₃ := by
  refine ⟨h₁.rpc_grows.trans h₂.rpc_grows, h₁.bestBeefy_le.trans h₂.bestBeefy_le,
    fun p hp => ?_⟩
  rcases h₁.mandatory p hp with hkept | ⟨hle, hnotified⟩
  · rcases h₂.mandatory p hkept with hkept' | ⟨hle', hnotified'⟩
    · exact .inl hkept'
    · -- notified after `w₂`, so after `w₁`
      refine .inr ⟨hle', fun hwrite => ?_⟩
      obtain ⟨j, hj, hjb⟩ := hnotified' hwrite
      exact ⟨j, (List.drop_sublist_drop_left _ h₁.rpc_grows.length_le).subset hj, hjb⟩
  · -- notified between `w₁` and `w₂`, and still on the stream at `w₃`
    refine .inr ⟨hle.trans h₂.bestBeefy_le, fun hwrite => ?_⟩
    obtain ⟨j, hj, hjb⟩ := hnotified hwrite
    exact ⟨j, (h₂.rpc_grows.drop _).subset hj, hjb⟩

/-- The relation reads only the pending mandatory block, the best BEEFY block and the RPC
justification stream. -/
theorem KeepsMandatory.of_eq {w w' w'' : Worker A S} (h : KeepsMandatory env w w')
    (hmp : w''.persistedState.votingOracle.mandatoryPending =
      w'.persistedState.votingOracle.mandatoryPending)
    (hbb : w''.persistedState.votingOracle.bestBeefyBlock =
      w'.persistedState.votingOracle.bestBeefyBlock)
    (hrpc : w''.rpcJustifications = w'.rpcJustifications) : KeepsMandatory env w w'' := by
  refine ⟨hrpc ▸ h.rpc_grows, hbb ▸ h.bestBeefy_le, fun p hp => ?_⟩
  rw [hmp, hbb, hrpc]
  exact h.mandatory p hp

/-- A call that changes none of what the relation reads keeps it. -/
theorem KeepsMandatory.frame {w w' : Worker A S}
    (hmp : w'.persistedState.votingOracle.mandatoryPending =
      w.persistedState.votingOracle.mandatoryPending)
    (hbb : w'.persistedState.votingOracle.bestBeefyBlock =
      w.persistedState.votingOracle.bestBeefyBlock)
    (hrpc : w'.rpcJustifications = w.rpcJustifications) : KeepsMandatory env w w' :=
  (KeepsMandatory.refl env w).of_eq env hmp hbb hrpc

/-- **Finalizing** keeps the pending mandatory block or finalizes it. -/
theorem keepsMandatory_finalize (w : Worker A S) (finalityProof : VersionedFinalityProof S) :
    KeepsMandatory env w (finalize env w finalityProof).1 := by
  by_cases hle : finalityProof.blockNumber ≤ w.persistedState.votingOracle.bestBeefyBlock
  · rw [finalize_of_le env hle]
    exact .refl env w
  have hgt : w.persistedState.votingOracle.bestBeefyBlock < finalityProof.blockNumber := by
    omega
  cases hfin : w.persistedState.votingOracle.finalize finalityProof.blockNumber with
  | error e =>
    rw [finalize_of_error env hgt hfin]
    exact .refl env w
  | ok o' =>
    obtain ⟨hstate, -, -⟩ := finalize_fst_of_lt env hgt hfin
    have horacle : (finalize env w finalityProof).1.persistedState.votingOracle =
        { o' with bestBeefyBlock := finalityProof.blockNumber } := by
      rw [hstate]
      rfl
    refine ⟨finalize_rpcJustifications_grows env w finalityProof, ?_, fun p hp => ?_⟩
    · rw [horacle]
      exact le_of_lt hgt
    rcases mandatoryPending_finalize hfin hp with hkept | hblock
    · rw [horacle]
      exact .inl hkept
    · -- the round is the mandatory block: the best BEEFY block is set to it, and a
      -- successful write notifies its justification
      refine .inr ⟨by rw [horacle, ← hblock], fun hwrite => ⟨finalityProof, ?_, hblock ▸ le_rfl⟩⟩
      rw [finalize_rpcJustifications_of_write env hgt hfin (hwrite _), List.drop_left]
      exact List.mem_singleton_self _

/-- Finalizing a list of justifications in turn, as `try_pending_justifications` does. -/
theorem keepsMandatory_foldl_finalize (w : Worker A S)
    (l : List (ℕ × VersionedFinalityProof S)) :
    KeepsMandatory env w (l.foldl (fun w x => (finalize env w x.2).1) w) := by
  induction l generalizing w with
  | nil => exact .refl env w
  | cons x l ih => exact (keepsMandatory_finalize env w x.2).trans env (ih _)

/-- **Buffered justifications** keep the pending mandatory block or finalize it. -/
theorem keepsMandatory_tryPendingJustifications (w : Worker A S) :
    KeepsMandatory env w (tryPendingJustifications env w).1 := by
  dsimp only [tryPendingJustifications]
  split
  · exact .refl env w
  split
  · exact .refl env w
  -- the buffer shrinks, then the justifications in the interval are finalized in turn
  dsimp only
  refine KeepsMandatory.trans env ?_ (keepsMandatory_foldl_finalize env _ _)
  exact .frame env rfl rfl rfl

/-- **An incoming justification** keeps the pending mandatory block or finalizes it. -/
theorem keepsMandatory_triageIncomingJustif (w : Worker A S)
    (justification : VersionedFinalityProof S) :
    KeepsMandatory env w (triageIncomingJustif env w justification).1 := by
  dsimp only [triageIncomingJustif]
  split
  · exact .refl env w
  · exact keepsMandatory_finalize env w justification
  · split
    · exact .frame env rfl rfl rfl
    · exact .refl env w
  · exact .refl env w

/-- Starting the sessions of a finality notification keeps a pending mandatory block
pending. -/
theorem keepsMandatory_initSessions (w : Worker A S) (headers : List (Header A)) :
    KeepsMandatory env w (initSessions w headers).1 := by
  induction headers generalizing w with
  | nil => exact .refl env w
  | cons header headers ih =>
    rw [Worker.initSessions]
    split
    · rename_i newValidatorSet _
      have hadd : KeepsMandatory env w
          { w with persistedState := w.persistedState.initSessionAt header.number newValidatorSet } :=
        ⟨List.prefix_refl _, by
          dsimp only [PersistedState.initSessionAt, VoterOracle.addSession]
          rw [tryPrune_bestBeefyBlock], fun _ hp => .inl (mandatoryPending_addSession hp _)⟩
      exact hadd.trans env (ih _)
    · exact ih w

/-- **A finality notification** keeps a pending mandatory block pending. -/
theorem keepsMandatory_handleFinalityNotification (w : Worker A S) (header : Header A)
    (treeRoute : List (Header A)) :
    KeepsMandatory env w (handleFinalityNotification env w header treeRoute).1 := by
  dsimp only [handleFinalityNotification]
  split
  · exact .refl env w
  split
  swap
  · exact .refl env w
  -- the best GRANDPA block rises, then the sessions of the route are started
  have hgrandpa : KeepsMandatory env w
      { w with persistedState := w.persistedState.setBestGrandpa header.number } :=
    .frame env rfl rfl rfl
  have hinit := hgrandpa.trans env (keepsMandatory_initSessions env _ (treeRoute ++ [header]))
  rcases hw : initSessions { w with persistedState := w.persistedState.setBestGrandpa header.number }
    (treeRoute ++ [header]) with ⟨w₂, added⟩
  rw [hw] at hinit
  dsimp only
  split
  · exact hinit
  · split <;> exact hinit.of_eq env rfl rfl rfl

section HandleVote

variable [DecidableEq A] [Std.TransOrd A]

/-- **Handling a vote** keeps the pending mandatory block or finalizes it: counting it
changes the front session but not its start, set or done flag. -/
theorem keepsMandatory_handleVote (w : Worker A S) (vote : VoteMessage A S) :
    KeepsMandatory env w (handleVote env w vote).1 := by
  dsimp only [handleVote]
  split
  · exact .refl env w
  rename_i front rest hs
  -- the worker once the vote is counted in the front session
  have h₁ : KeepsMandatory env w (w.withOracle { w.persistedState.votingOracle with
      sessions := (front.addVote vote).2 :: rest }) :=
    .frame env (mandatoryPending_cons_front hs (Rounds.addVote_sessionStart front vote)
      (Rounds.addVote_validatorSet front vote) (Rounds.addVote_mandatoryDone front vote)) rfl rfl
  split
  · rename_i sc _
    have hfin := h₁.trans env (keepsMandatory_finalize env _ (.v1 sc))
    rcases hf : finalize env _ (.v1 sc) with ⟨w', r⟩
    rw [hf] at hfin
    cases r <;> exact hfin
  · split
    · split <;> exact h₁
    · exact h₁
  · split <;> exact h₁
  · exact h₁
  · exact h₁

/-- **A gossiped vote** keeps the pending mandatory block or finalizes it. -/
theorem keepsMandatory_triageIncomingVote (w : Worker A S) (vote : VoteMessage A S) :
    KeepsMandatory env w (triageIncomingVote env w vote).1 := by
  dsimp only [triageIncomingVote]
  split
  · exact .refl env w
  · have hvote := keepsMandatory_handleVote env w vote
    rcases hv : handleVote env w vote with ⟨w', r⟩
    rw [hv] at hvote
    rcases r with e | _ | proof
    · exact hvote
    · exact hvote
    · exact hvote.of_eq env rfl rfl rfl
  · exact .refl env w
  · exact .refl env w

/-- **Our own vote** keeps the pending mandatory block or finalizes it, in both builds. -/
theorem keepsMandatory_tryToVote (blsExperimental : Bool)
    (getSignedPayload : ℕ → ℕ → A → Except Error (Option (S × A × Commitment)))
    (w : Worker A S) :
    KeepsMandatory env w (tryToVote env blsExperimental getSignedPayload w).1 := by
  dsimp only [tryToVote]
  cases ht : w.persistedState.votingOracle.votingTarget blsExperimental with
  | none => exact .refl env w
  | some t =>
    dsimp only
    split
    swap
    · exact .refl env w
    dsimp only [doVote]
    split
    · exact .refl env w
    cases hs : w.persistedState.votingOracle.sessions with
    | nil => exact .refl env w
    | cons front rest =>
      dsimp only
      cases hauth : env.authorityId front.validators with
      | none => exact .refl env w
      | some authorityId =>
        dsimp only
        cases hsigned : getSignedPayload t front.validatorSetId authorityId with
        | error e => exact .refl env w
        | ok result =>
          rcases result with _ | ⟨signature, a, commitment⟩
          · exact .refl env w
          have hvote := keepsMandatory_handleVote env w ⟨commitment, authorityId, signature⟩
          dsimp only
          rcases hv : handleVote env w ⟨commitment, authorityId, signature⟩ with ⟨w', r⟩
          rw [hv] at hvote
          rcases r with e | result
          · exact hvote
          -- the vote or the proof is gossiped and the best voted block persisted
          dsimp only
          cases result <;> split <;> exact hvote.of_eq env rfl rfl rfl

end HandleVote

end Worker

end BeefyEtf
