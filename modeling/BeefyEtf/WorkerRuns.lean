/-
Session-ordered finalization over runs of the worker.

The worker finalizes blocks from four entry points: gossiped votes and the self vote
(through `handle_vote`), incoming justifications, and buffered ones.  Every path checks
the block against the accepted interval first, except the self vote, whose target comes
from `voting_target`.  In the build without `bls-experimental` that target is admissible
(`Sound.votingTarget`), so:

* `Inv.finalize`, `Inv.handleVote` — finalizing or voting on an admissible block keeps the
  worker invariant: a sound oracle, a buffer keyed by block number, and every finalized
  block session-ordered;
* `inv_step` — every entry point keeps it;
* `session_ordered_finalization` — from a caught-up state `checked_new` accepts, every
  block the worker finalizes is session-ordered.

In the `bls-experimental` build `voting_target` is the best GRANDPA block and the self
vote is not triaged: `etf_self_vote_skips_mandatory` finalizes a block past a session's
mandatory block before that block is done.
-/
import BeefyEtf.SessionOrder
import BeefyEtf.Finalize
import BeefyEtf.RoundConclusion

namespace BeefyEtf

namespace Worker

open VoterOracle

variable {A S : Type*} [Ord A] (env : Env A S)

/-- What every worker state of a run keeps: a sound oracle, justifications buffered under
their own block number, and every finalized block session-ordered. -/
structure Inv (w : Worker A S) : Prop where
  sound : w.persistedState.votingOracle.Sound
  pending : ∀ (k : ℕ) (j : VersionedFinalityProof S), w.pendingJustifications[k]? = some j →
    j.blockNumber = k
  finalized : ∀ x ∈ w.finalized, x.2.SessionOrdered x.1

/-- **Finalizing an admissible block** keeps the invariant and every admissible block
admissible. -/
theorem Inv.finalize {w : Worker A S} (h : w.Inv) {j : VersionedFinalityProof S}
    (hadm : w.persistedState.votingOracle.Admissible j.blockNumber) :
    (finalize env w j).1.Inv ∧ ∀ b, w.persistedState.votingOracle.Admissible b →
      (finalize env w j).1.persistedState.votingOracle.Admissible b := by
  by_cases hle : j.blockNumber ≤ w.persistedState.votingOracle.bestBeefyBlock
  · rw [finalize_of_le env hle]
    exact ⟨h, fun b hb => hb⟩
  have hgt : w.persistedState.votingOracle.bestBeefyBlock < j.blockNumber := by omega
  obtain ⟨o', hfin, hsound, hadm'⟩ := h.sound.finalize hadm hgt
  obtain ⟨hstate, hpend, hlog⟩ := finalize_fst_of_lt env hgt hfin
  have horacle : (Worker.finalize env w j).1.persistedState.votingOracle =
      { o' with bestBeefyBlock := j.blockNumber } := by
    rw [hstate]
    rfl
  refine ⟨⟨?_, ?_, ?_⟩, fun b hb => ?_⟩
  · rw [horacle]
    exact hsound
  · rw [hpend]
    exact h.pending
  · -- the new record: the block is session-ordered in the oracle it was finalized in
    intro x hx
    rw [hlog, List.mem_append, List.mem_singleton] at hx
    rcases hx with hx | rfl
    · exact h.finalized x hx
    · exact sessionOrdered_of_admissible h.sound.invariant h.sound.pruned hadm hgt
  · rw [horacle]
    exact hadm' b hb

/-- The invariant reads only the oracle, the buffer and the ghost record. -/
theorem Inv.of_eq {w w' : Worker A S} (h : w.Inv)
    (horacle : w'.persistedState.votingOracle = w.persistedState.votingOracle)
    (hpend : w'.pendingJustifications = w.pendingJustifications)
    (hlog : w'.finalized = w.finalized) : w'.Inv :=
  ⟨horacle ▸ h.sound, hpend ▸ h.pending, hlog ▸ h.finalized⟩

/-- `triage_round` processes exactly the blocks of the accepted interval. -/
theorem admissible_of_triageRound {o : VoterOracle A S} {b : ℕ}
    (h : o.triageRound b = .ok .process) : o.Admissible b := by
  unfold VoterOracle.triageRound at h
  cases hI : o.acceptedInterval with
  | error e =>
    rw [hI] at h
    cases h
  | ok interval =>
    rw [hI] at h
    dsimp only at h
    split_ifs at h with hin hgt
    · exact .inr ⟨interval.1, interval.2, hI, hin⟩
    · cases h
    · cases h

/-- Finalizing a list of admissible blocks in turn keeps the invariant: each
finalization keeps the others admissible. -/
theorem Inv.foldl_finalize {w : Worker A S} (h : w.Inv) (l : List (ℕ × VersionedFinalityProof S))
    (hl : ∀ x ∈ l, w.persistedState.votingOracle.Admissible x.2.blockNumber) :
    (l.foldl (fun w x => (Worker.finalize env w x.2).1) w).Inv := by
  induction l generalizing w with
  | nil => exact h
  | cons x l ih =>
    obtain ⟨h', hadm'⟩ := h.finalize env (hl x List.mem_cons_self)
    exact ih h' fun y hy => hadm' _ (hl y (List.mem_cons_of_mem x hy))

/-- An incoming justification keeps the invariant: one in the interval is finalized, one
above it buffered under its block number. -/
theorem Inv.triageIncomingJustif {w : Worker A S} (h : w.Inv)
    (justification : VersionedFinalityProof S) :
    (triageIncomingJustif env w justification).1.Inv := by
  dsimp only [Worker.triageIncomingJustif]
  cases htr : w.persistedState.votingOracle.triageRound justification.blockNumber with
  | error e => exact h
  | ok action =>
    cases action with
    | process => exact (h.finalize env (admissible_of_triageRound htr)).1
    | drop => exact h
    | enqueue =>
      dsimp only
      split
      · refine ⟨h.sound, fun k j hk => ?_, h.finalized⟩
        -- `or_insert` keeps the first justification of a block
        rw [Std.TreeMap.getElem?_insertIfNew] at hk
        split at hk
        · rename_i hnew
          cases hk
          exact Nat.compare_eq_eq.mp hnew.1
        · exact h.pending k j hk
      · exact h

/-- Keeping part of the buffer and finalizing in turn buffered entries of the accepted
interval keeps the invariant: the shape of every try of the buffer, whatever its cuts. -/
theorem Inv.cutPending {w : Worker A S} (h : w.Inv)
    {kept : Std.TreeMap ℕ (VersionedFinalityProof S)}
    (hkept : ∀ (k : ℕ) j, kept[k]? = some j → w.pendingJustifications[k]? = some j)
    {l : List (ℕ × VersionedFinalityProof S)} {start end_ : ℕ}
    (hI : w.persistedState.votingOracle.acceptedInterval = .ok (start, end_))
    (hl : ∀ x ∈ l, w.pendingJustifications[x.1]? = some x.2 ∧ start ≤ x.1 ∧ x.1 ≤ end_) :
    (l.foldl (fun w x => (Worker.finalize env w x.2).1)
      { w with pendingJustifications := kept }).Inv := by
  have h₁ : ({ w with pendingJustifications := kept } : Worker A S).Inv :=
    ⟨h.sound, fun k j hk => h.pending k j (hkept k j hk), h.finalized⟩
  refine h₁.foldl_finalize env l fun x hx => ?_
  obtain ⟨hget, hstart, hend⟩ := hl x hx
  -- an entry is buffered under its own block number
  have hpend := h.pending x.1 x.2 hget
  exact .inr ⟨start, end_, hI, by omega, by omega⟩

/-- Trying the buffered justifications keeps the invariant: those finalized are in the
interval, under their own block numbers. -/
theorem Inv.tryPendingJustifications {w : Worker A S} (h : w.Inv) :
    (tryPendingJustifications env w).1.Inv := by
  dsimp only [Worker.tryPendingJustifications]
  cases hI : w.persistedState.votingOracle.acceptedInterval with
  | error e => exact h
  | ok interval =>
    obtain ⟨start, end_⟩ := interval
    dsimp only
    split
    · exact h
    · refine h.cutPending env (fun k j hk => ?_) hI fun x hx => ?_
      · rw [Std.TreeMap.getElem?_filter', Option.filter_eq_some_iff] at hk
        exact hk.1
      · rw [Std.TreeMap.mem_toList_iff_getElem?_eq_some, Std.TreeMap.getElem?_filter',
          Option.filter_eq_some_iff] at hx
        obtain ⟨hget, hin⟩ := hx
        simp only [decide_eq_true_eq] at hin
        exact ⟨hget, hin.1, by omega⟩

/-- What a finality notification must bring, as the chain gives it: the headers of the
tree route, then the notified one, in increasing order, the route's above the best GRANDPA
block; every validator set they announce with validators, and the set ids increasing and
above the last queued one. -/
structure NotificationOk (w : Worker A S) (header : Header A) (treeRoute : List (Header A)) :
    Prop where
  increasing : (treeRoute ++ [header]).Pairwise fun h h' => h.number < h'.number
  above : ∀ h ∈ treeRoute, w.bestGrandpaBlock < h.number
  validators_ne_nil : ∀ h ∈ treeRoute ++ [header], ∀ vs ∈ findAuthoritiesChange h,
    vs.validators ≠ []
  ids_increasing : ((treeRoute ++ [header]).filterMap findAuthoritiesChange).Pairwise
    fun vs vs' => vs.id < vs'.id
  ids_above : ∀ vs ∈ (treeRoute ++ [header]).filterMap findAuthoritiesChange,
    ∀ last ∈ w.persistedState.votingOracle.sessions.getLast?, last.validatorSetId < vs.id

/-- Starting the sessions of a list of headers, each above every queued session and the
best BEEFY block and at most the best GRANDPA block, with the announced sets' ids
increasing from above the last queued one, keeps the invariant. -/
theorem Inv.initSessions {w : Worker A S} (h : w.Inv) (headers : List (Header A))
    (hinc : headers.Pairwise fun h h' => h.number < h'.number)
    (habove : ∀ hd ∈ headers, ∀ x ∈ w.persistedState.votingOracle.sessions,
      x.sessionStart < hd.number)
    (hbb : ∀ hd ∈ headers, w.persistedState.votingOracle.bestBeefyBlock < hd.number)
    (hle : ∀ hd ∈ headers, hd.number ≤ w.bestGrandpaBlock)
    (hv : ∀ hd ∈ headers, ∀ vs ∈ findAuthoritiesChange hd, vs.validators ≠ [])
    (hids : (headers.filterMap findAuthoritiesChange).Pairwise fun vs vs' => vs.id < vs'.id)
    (hidabove : ∀ vs ∈ headers.filterMap findAuthoritiesChange,
      ∀ last ∈ w.persistedState.votingOracle.sessions.getLast?, last.validatorSetId < vs.id) :
    (initSessions w headers).1.Inv := by
  induction headers generalizing w with
  | nil => exact h
  | cons hd headers ih =>
    have hinc' := List.pairwise_cons.mp hinc
    cases hfind : findAuthoritiesChange hd with
    | none =>
      rw [Worker.initSessions, hfind]
      rw [List.filterMap_cons_none hfind] at hids hidabove
      exact ih h hinc'.2 (fun x hx => habove x (List.mem_cons_of_mem hd hx))
        (fun x hx => hbb x (List.mem_cons_of_mem hd hx))
        (fun x hx => hle x (List.mem_cons_of_mem hd hx))
        (fun x hx => hv x (List.mem_cons_of_mem hd hx)) hids hidabove
    | some vs =>
      rw [Worker.initSessions, hfind]
      rw [List.filterMap_cons_some hfind] at hids hidabove
      have hids' := List.pairwise_cons.mp hids
      set o := w.persistedState.votingOracle with ho
      have hcan : o.canAddSession hd.number = true :=
        (canAddSession_iff h.sound.invariant.wellFormed.increasing _).mpr
          (habove hd List.mem_cons_self)
      -- the session of `hd` is added as `init_session_at` adds it
      have hsound := h.sound.addSession hcan (hle hd List.mem_cons_self)
        (hv hd List.mem_cons_self vs hfind) (hidabove vs List.mem_cons_self)
        (hbb hd List.mem_cons_self)
      have h₁ : ({ w with persistedState := w.persistedState.initSessionAt hd.number vs } :
          Worker A S).Inv := ⟨hsound, h.pending, h.finalized⟩
      refine ih h₁ hinc'.2 (fun x hx y hy => ?_) (fun x hx => ?_) (fun x hx => ?_)
        (fun x hx => hv x (List.mem_cons_of_mem hd hx)) hids'.2 (fun vs' hvs' last hlast => ?_)
      · rcases mem_addSession hy with hy | rfl
        · exact (habove hd List.mem_cons_self y hy).trans (hinc'.1 x hx)
        · exact hinc'.1 x hx
      · show (o.addSession (Rounds.new hd.number vs)).bestBeefyBlock < x.number
        rw [addSession, tryPrune_bestBeefyBlock]
        exact hbb x (List.mem_cons_of_mem hd hx)
      · show x.number ≤ (o.addSession (Rounds.new hd.number vs)).bestGrandpaBlock
        rw [addSession, tryPrune_bestGrandpaBlock]
        exact hle x (List.mem_cons_of_mem hd hx)
      · -- the last session is now the one of `hd`
        rw [show (w.persistedState.initSessionAt hd.number vs).votingOracle.sessions.getLast? =
          some (Rounds.new hd.number vs) from getLast?_addSession rfl] at hlast
        cases hlast
        exact hids'.1 vs' hvs'

/-- A finality notification of the chain keeps the invariant: the best GRANDPA block rises
and the sessions of the newly finalized headers are added. -/
theorem Inv.handleFinalityNotification {w : Worker A S} (h : w.Inv) {header : Header A}
    {treeRoute : List (Header A)} (hok : NotificationOk w header treeRoute) :
    (handleFinalityNotification env w header treeRoute).1.Inv := by
  dsimp only [Worker.handleFinalityNotification]
  split
  · exact h
  split
  swap
  · exact h
  rename_i hnew
  have hbg : w.bestGrandpaBlock ≤ header.number := le_of_lt hnew
  have h₁ : ({ w with persistedState := w.persistedState.setBestGrandpa header.number } :
      Worker A S).Inv := ⟨h.sound.setBestGrandpa hbg, h.pending, h.finalized⟩
  -- every header of the notification is newly finalized, the notified one last
  have hmem : ∀ hd ∈ treeRoute ++ [header], w.bestGrandpaBlock < hd.number ∧
      hd.number ≤ header.number := by
    intro hd hhd
    rcases List.mem_append.mp hhd with hhd | hhd
    · exact ⟨hok.above hd hhd,
        le_of_lt ((List.pairwise_append.mp hok.increasing).2.2 hd hhd header List.mem_cons_self)⟩
    · rw [List.mem_singleton.mp hhd]
      exact ⟨hnew, le_rfl⟩
  have hinit := h₁.initSessions (treeRoute ++ [header]) hok.increasing
    (fun hd hhd x hx => lt_of_le_of_lt (h.sound.invariant.wellFormed.start_le x hx) (hmem hd hhd).1)
    (fun hd hhd => lt_of_le_of_lt h.sound.invariant.bestBeefy_le (hmem hd hhd).1)
    (fun hd hhd => (hmem hd hhd).2) hok.validators_ne_nil hok.ids_increasing hok.ids_above
  rcases hw : Worker.initSessions
    { w with persistedState := w.persistedState.setBestGrandpa header.number }
    (treeRoute ++ [header]) with ⟨w₂, added⟩
  rw [hw] at hinit
  dsimp only
  split
  · exact hinit
  · split <;> exact hinit.of_eq rfl rfl rfl

section HandleVote

variable [DecidableEq A] [Std.TransOrd A]

/-- **Handling a vote for an admissible block** keeps the invariant: counting it changes
the front session but not its start, set or done flag, and a round it concludes is the
vote's own. -/
theorem Inv.handleVote {w : Worker A S} (h : w.Inv) {vote : VoteMessage A S}
    (hadm : w.persistedState.votingOracle.Admissible vote.commitment.blockNumber) :
    (handleVote env w vote).1.Inv := by
  obtain ⟨front, rest, hs⟩ := List.exists_cons_of_ne_nil h.sound.invariant.sessions_ne_nil
  obtain ⟨hsound₁, hadm₁⟩ := h.sound.cons_front hs (Rounds.addVote_sessionStart front vote)
    (Rounds.addVote_validatorSet front vote) (Rounds.addVote_mandatoryDone front vote)
  -- the worker once the vote is counted in the front session
  have h₁ : (w.withOracle { w.persistedState.votingOracle with
      sessions := (front.addVote vote).2 :: rest }).Inv :=
    ⟨hsound₁, h.pending, h.finalized⟩
  dsimp only [Worker.handleVote]
  rw [hs]
  dsimp only
  cases hres : (front.addVote vote).1 with
  | roundConcluded sc =>
    obtain ⟨-, hsc⟩ := Rounds.addVote_fst_eq_roundConcluded hres
    have hadmsc : (w.withOracle { w.persistedState.votingOracle with
        sessions := (front.addVote vote).2 :: rest }).persistedState.votingOracle.Admissible
          (VersionedFinalityProof.v1 sc).blockNumber :=
      (hadm₁ _).mpr (by simpa [VersionedFinalityProof.blockNumber, hsc] using hadm)
    have hfin := (h₁.finalize env hadmsc).1
    dsimp only
    rcases hf : Worker.finalize env _ (.v1 sc) with ⟨w', r⟩
    rw [hf] at hfin
    cases r <;> exact hfin
  | ok =>
    dsimp only
    split
    · split <;> exact h₁
    · exact h₁
  | equivocation proof =>
    dsimp only
    split <;> exact h₁
  | invalid => exact h₁
  | stale => exact h₁

/-- A gossiped vote keeps the invariant: only one in the interval is handled. -/
theorem Inv.triageIncomingVote {w : Worker A S} (h : w.Inv) (vote : VoteMessage A S) :
    (triageIncomingVote env w vote).1.Inv := by
  dsimp only [Worker.triageIncomingVote]
  cases htr : w.persistedState.votingOracle.triageRound vote.commitment.blockNumber with
  | error e => exact h
  | ok action =>
    cases action with
    | process =>
      have hvote := h.handleVote env (admissible_of_triageRound htr)
      dsimp only
      rcases hv : Worker.handleVote env w vote with ⟨w', r⟩
      rw [hv] at hvote
      rcases r with e | _ | proof
      · exact hvote
      · exact hvote
      · exact hvote.of_eq rfl rfl rfl
    | drop => exact h
    | enqueue => exact h

omit [Ord A] [DecidableEq A] [Std.TransOrd A] in
/-- The payload the build without `bls-experimental` signs is a commitment to the target. -/
theorem getSignedPayloadEcdsa_blockNumber {payload : ℕ → Option Payload}
    {sign : A → Commitment → Except String S} {targetNumber validatorSetId : ℕ}
    {authorityId a : A} {signature : S} {commitment : Commitment}
    (h : getSignedPayloadEcdsa payload sign targetNumber validatorSetId authorityId =
      .ok (some (signature, a, commitment))) : commitment.blockNumber = targetNumber := by
  unfold getSignedPayloadEcdsa at h
  split at h
  · cases h
  · dsimp only at h
    split at h
    · cases h
      rfl
    · cases h

/-- The self vote of the build without `bls-experimental` keeps the invariant: its target
is admissible. -/
theorem Inv.tryToVote {w : Worker A S} (h : w.Inv) (payload : ℕ → Option Payload)
    (sign : A → Commitment → Except String S) :
    (tryToVote env false (getSignedPayloadEcdsa payload sign) w).1.Inv := by
  dsimp only [Worker.tryToVote]
  cases ht : w.persistedState.votingOracle.votingTarget false with
  | none => exact h
  | some t =>
    have hadm := (h.sound.votingTarget ht).1
    dsimp only
    split
    swap
    · exact h
    dsimp only [Worker.doVote]
    split
    · exact h
    obtain ⟨front, rest, hs⟩ := List.exists_cons_of_ne_nil h.sound.invariant.sessions_ne_nil
    rw [hs]
    dsimp only
    cases hauth : env.authorityId front.validators with
    | none => exact h
    | some authorityId =>
      dsimp only
      cases hsigned : getSignedPayloadEcdsa payload sign t front.validatorSetId authorityId with
      | error e => exact h
      | ok result =>
        rcases result with _ | ⟨signature, a, commitment⟩
        · exact h
        -- the vote is for the target
        have hblock := getSignedPayloadEcdsa_blockNumber hsigned
        have hvote : (Worker.handleVote env w ⟨commitment, authorityId, signature⟩).1.Inv :=
          h.handleVote env (hblock ▸ hadm)
        dsimp only
        rcases hv : Worker.handleVote env w ⟨commitment, authorityId, signature⟩ with ⟨w', r⟩
        rw [hv] at hvote
        rcases r with e | result
        · exact hvote
        · dsimp only
          split <;> split <;> exact hvote.of_eq rfl rfl rfl

/-- One call of an entry point of the worker in the build without `bls-experimental`, a
finality notification as the chain brings it. -/
inductive Step (payload : ℕ → Option Payload) (sign : A → Commitment → Except String S) :
    Worker A S → Worker A S → Prop where
  | finalityNotification {w : Worker A S} {header : Header A} {treeRoute : List (Header A)} :
      NotificationOk w header treeRoute →
      Step payload sign w (handleFinalityNotification env w header treeRoute).1
  | incomingVote {w : Worker A S} (vote : VoteMessage A S) :
      Step payload sign w (triageIncomingVote env w vote).1
  | incomingJustif {w : Worker A S} (justification : VersionedFinalityProof S) :
      Step payload sign w (triageIncomingJustif env w justification).1
  | pendingJustifications {w : Worker A S} :
      Step payload sign w (tryPendingJustifications env w).1
  | vote {w : Worker A S} :
      Step payload sign w (tryToVote env false (getSignedPayloadEcdsa payload sign) w).1

theorem inv_step {payload : ℕ → Option Payload} {sign : A → Commitment → Except String S}
    {w w' : Worker A S} (h : w.Inv) (hstep : Step env payload sign w w') : w'.Inv := by
  cases hstep with
  | finalityNotification hok => exact h.handleFinalityNotification env hok
  | incomingVote vote => exact h.triageIncomingVote env vote
  | incomingJustif justification => exact h.triageIncomingJustif env justification
  | pendingJustifications => exact h.tryPendingJustifications env
  | vote => exact h.tryToVote env payload sign

/-- Along every run of the worker the invariant holds. -/
theorem inv_of_reflTransGen {payload : ℕ → Option Payload}
    {sign : A → Commitment → Except String S} {w₀ w : Worker A S} (h₀ : w₀.Inv)
    (hrun : Relation.ReflTransGen (Step env payload sign) w₀ w) : w.Inv := by
  induction hrun with
  | refl => exact h₀
  | tail _ hstep ih => exact inv_step env ih hstep

omit [DecidableEq A] [Std.TransOrd A] in
/-- A worker on a sound oracle, with no buffered justification and nothing finalized yet,
keeps the invariant. -/
theorem Inv.of_sound {w : Worker A S} (hsound : w.persistedState.votingOracle.Sound)
    (hpend : w.pendingJustifications = ∅) (hlog : w.finalized = []) : w.Inv := by
  refine ⟨hsound, fun k j hk => ?_, fun x hx => ?_⟩
  · rw [hpend] at hk
    simp at hk
  · rw [hlog] at hx
    cases hx

omit [DecidableEq A] [Std.TransOrd A] in
/-- The worker a caught-up state of `checked_new` starts keeps the invariant. -/
theorem inv_init {grandpa bestBeefy minBlockDelta palletGenesis : ℕ}
    {sessions : List (Rounds A S)} {p : PersistedState A S}
    (hp : PersistedState.checkedNew grandpa bestBeefy sessions minBlockDelta palletGenesis = some p)
    (hpruned : Pruned p.votingOracle) (hcaught : p.votingOracle.CaughtUp) {w : Worker A S}
    (hw : w.persistedState = p) (hpend : w.pendingJustifications = ∅) (hlog : w.finalized = []) :
    w.Inv := by
  obtain ⟨o, ho, hpo⟩ := Option.map_eq_some_iff.mp hp
  have hinv : p.votingOracle.Invariant := by
    rw [← hpo]
    exact invariant_of_checkedNew ho
  exact Inv.of_sound (hw ▸ ⟨hinv, hpruned, hcaught⟩) hpend hlog

/-- **Session-ordered finalization** (build without `bls-experimental`).  From a state
`checked_new` accepts, in one of the three documented states and caught up (as every state
`init_state` builds is), under any interleaving of finality notifications, gossiped votes,
incoming and buffered justifications and self votes: every block the worker finalizes lies
in the front session, at most at the best GRANDPA block and below every later session,
and is the front's mandatory block unless that is done; and the front session is done
whenever the best BEEFY block has reached its start. -/
theorem session_ordered_finalization (payload : ℕ → Option Payload)
    (sign : A → Commitment → Except String S) {grandpa bestBeefy minBlockDelta palletGenesis : ℕ}
    {sessions : List (Rounds A S)} {p : PersistedState A S}
    (hp : PersistedState.checkedNew grandpa bestBeefy sessions minBlockDelta palletGenesis = some p)
    (hpruned : Pruned p.votingOracle) (hcaught : p.votingOracle.CaughtUp) {w₀ w : Worker A S}
    (hw₀ : w₀.persistedState = p) (hpend : w₀.pendingJustifications = ∅) (hlog : w₀.finalized = [])
    (hrun : Relation.ReflTransGen (Step env payload sign) w₀ w) :
    (∀ x ∈ w.finalized, x.2.SessionOrdered x.1) ∧ w.persistedState.votingOracle.CaughtUp := by
  have hinv : w.Inv := inv_of_reflTransGen env (inv_init hp hpruned hcaught hw₀ hpend hlog) hrun
  exact ⟨hinv.finalized, hinv.sound.caughtUp⟩

/-- The genesis state of one validator, ours, whose session starts at block `1`, with the
best GRANDPA block at `5`: `checked_new` accepts it, and it is pruned and caught up. -/
theorem oneSession_checkedNew_caughtUp :
    let p : PersistedState ℕ ℕ := ⟨0, ⟨[Rounds.new 1 ⟨[0], [0], 0⟩], 1, 5, 0⟩, 1⟩
    PersistedState.checkedNew 5 0 [Rounds.new 1 ⟨[0], [0], 0⟩] 1 1 = some p ∧
      Pruned p.votingOracle ∧ p.votingOracle.CaughtUp := by
  intro p
  refine ⟨rfl, fun hlen => absurd hlen (by decide), ?_⟩
  -- the front session is the genesis one, and the best BEEFY block `0` is below its start
  intro front hfront hle
  have hfront' : Rounds.new 1 ⟨[0], [0], 0⟩ = front := by simpa [p] using hfront
  subst hfront'
  exact absurd hle (by decide)

/-- One validator, ours, at the genesis session starting at block `1`: a self vote with the
payload provider and the key store answering, then the best GRANDPA block announced. -/
theorem session_ordered_finalization_self_vote :
    let p : PersistedState ℕ ℕ := ⟨0, ⟨[Rounds.new 1 ⟨[0], [0], 0⟩], 1, 5, 0⟩, 1⟩
    let env : Env ℕ ℕ :=
      ⟨fun _ => .ok (), fun n => some n, fun _ => some 1, fun vs => vs.head?, fun _ => .ok ()⟩
    let w := (tryToVote env false (getSignedPayloadEcdsa (fun _ => some ⟨[]⟩) fun _ _ => .ok 0)
      ⟨p, ∅, none, [], [], [], [], []⟩).1
    (∀ x ∈ w.finalized, x.2.SessionOrdered x.1) ∧ w.persistedState.votingOracle.CaughtUp := by
  intro p env w
  obtain ⟨hp, hpruned, hcaught⟩ := oneSession_checkedNew_caughtUp
  exact session_ordered_finalization env _ _ hp hpruned hcaught rfl rfl rfl
    (Relation.ReflTransGen.single (Step.vote))

end HandleVote

/-- In the `bls-experimental` build the self vote targets the best GRANDPA block and is not
triaged: from a caught-up genesis state of one validator, ours, whose session starts at
block `1`, with the best GRANDPA block at `5`, the self vote finalizes block `5` while the
mandatory block `1` is not done; the best BEEFY block then passes the front session's start
with its mandatory block still pending. -/
theorem etf_self_vote_skips_mandatory :
    let p : PersistedState ℕ ℕ := ⟨0, ⟨[Rounds.new 1 ⟨[0], [0], 0⟩], 1, 5, 0⟩, 1⟩
    let env : Env ℕ ℕ :=
      ⟨fun _ => .ok (), fun n => some n, fun _ => some 1, fun vs => vs.head?, fun _ => .ok ()⟩
    let w := (tryToVote env true (fun t id a => .ok (some (0, a, ⟨⟨[]⟩, t, id⟩)))
      ⟨p, ∅, none, [], [], [], [], []⟩).1
    PersistedState.checkedNew 5 0 [Rounds.new 1 ⟨[0], [0], 0⟩] 1 1 = some p ∧
      Pruned p.votingOracle ∧ p.votingOracle.CaughtUp ∧
      (∃ x ∈ w.finalized, ¬ x.2.SessionOrdered x.1) ∧ ¬ w.persistedState.votingOracle.CaughtUp := by
  intro p env w
  -- what the self vote leaves: block `5` finalized from a front at `1` not done
  have hlog : (w.finalized.map fun x =>
      (x.1, x.2.sessions.map fun r => (r.sessionStart, r.mandatoryDone))) =
        [(5, [(1, false)])] := by
    decide
  have hbb : w.persistedState.votingOracle.bestBeefyBlock = 5 := by decide
  have hfront : (w.persistedState.votingOracle.sessions.map fun r =>
      (r.sessionStart, r.mandatoryDone)) = [(1, false)] := by decide
  obtain ⟨hp, hpruned, hcaught⟩ := oneSession_checkedNew_caughtUp
  refine ⟨hp, hpruned, hcaught, ?_, ?_⟩
  · obtain ⟨x, hx⟩ : ∃ x, w.finalized = [x] := by
      cases hw : w.finalized with
      | nil => rw [hw] at hlog; cases hlog
      | cons x rest =>
        rw [hw, List.map_cons] at hlog
        cases rest with
        | nil => exact ⟨x, rfl⟩
        | cons => cases (List.cons.inj hlog).2
    refine ⟨x, by simp [hx], fun hord => ?_⟩
    obtain ⟨front, rest, hs, -, -, -, hdone⟩ := hord
    rw [hx, List.map_cons, List.map_nil, List.cons.injEq, Prod.mk.injEq, hs, List.map_cons,
      List.cons.injEq, Prod.mk.injEq] at hlog
    obtain ⟨⟨hb, ⟨hstart, hundone⟩, -⟩, -⟩ := hlog
    rw [hundone, hb, hstart] at hdone
    exact absurd (hdone (by decide)) (by decide)
  · intro hcaught
    obtain ⟨front, rest, hs⟩ :
        ∃ front rest, w.persistedState.votingOracle.sessions = front :: rest := by
      cases hw : w.persistedState.votingOracle.sessions with
      | nil => rw [hw] at hfront; cases hfront
      | cons front rest => exact ⟨front, rest, rfl⟩
    rw [hs, List.map_cons, List.cons.injEq, Prod.mk.injEq] at hfront
    have hdone := hcaught front (by simp [hs]) (by omega)
    rw [hfront.1.2] at hdone
    cases hdone

end Worker

end BeefyEtf
