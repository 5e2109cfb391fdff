/-
The justification buffer of the worker (`client/consensus/beefy-etf/src/worker.rs`).

Justifications for rounds above the accepted interval wait in `pending_justifications`: at
most `MAX_BUFFERED_JUSTIFICATIONS` of them, the first one per block number.  On every new
state `try_pending_justifications` cuts the buffer twice with `split_off`, at
`end.saturating_add(1)` and at `start`; it finalizes the middle part in increasing order,
keeps the upper part and drops the rest.  `Checked.tryPendingJustifications` makes these
cuts with block numbers of `bits` bits.  At `end = N::MAX` the first cut stays at `N::MAX`,
so the justification of block `N::MAX` stays buffered instead of being finalized.

* `pending_buffer_law` — over every run of incoming justifications and tries, the buffer
  stays within its bound and never replaces a justification it holds; each try finalizes,
  in increasing order, exactly the entries from `start` up to the cut
  `min(end + 1, N::MAX)`, and keeps exactly those from the cut on;
* `checked_session_ordered_finalization` — the worker whose tries make these cuts keeps
  the session order of what it finalizes over every run, as the worker on `ℕ` does;
* `pending_kept_at_top` — at the top of `u32` a buffered justification in the interval is
  kept and not finalized.
-/
import BeefyEtf.WorkerRuns
import BeefyEtf.Rust
import BeefyEtf.Run

namespace BeefyEtf

open Run

/-- `split_off` on block numbers cuts by `<`. -/
theorem compare_beq_lt (a b : ℕ) : (compare a b == .lt) = decide (a < b) := by
  by_cases h : a < b
  · simp [h, Nat.compare_eq_lt.mpr h]
  · have hne : compare a b ≠ .lt := fun h' => h (Nat.compare_eq_lt.mp h')
    simp [h, hne]

theorem compare_bne_lt (a b : ℕ) : (compare a b != .lt) = decide (b ≤ a) := by
  rw [bne, compare_beq_lt]
  by_cases h : a < b
  · simp [h, Nat.not_le.mpr h]
  · simp [h, Nat.le_of_not_lt h]

/-- The entries of a map keyed by block numbers come in increasing order. -/
theorem pairwise_toList_lt {β : Type*} (m : Std.TreeMap ℕ β) :
    (m.toList.map Prod.fst).Pairwise (· < ·) := by
  rw [Std.TreeMap.map_fst_toList_eq_keys]
  exact Std.TreeMap.ordered_keys.imp fun h => Nat.compare_eq_lt.mp h

namespace Worker

variable {A S : Type*} [Ord A] (env : Env A S)

/-- `finalize` never touches the buffer. -/
theorem finalize_pendingJustifications (w : Worker A S) (j : VersionedFinalityProof S) :
    (finalize env w j).1.pendingJustifications = w.pendingJustifications := by
  by_cases hle : j.blockNumber ≤ w.persistedState.votingOracle.bestBeefyBlock
  · rw [finalize_of_le env hle]
  cases hfin : w.persistedState.votingOracle.finalize j.blockNumber with
  | error e =>
    dsimp only [finalize]
    rw [if_neg hle, hfin]
  | ok o' => exact (finalize_fst_of_lt env (by omega) hfin).2.1

theorem foldl_finalize_pendingJustifications (w : Worker A S)
    (l : List (ℕ × VersionedFinalityProof S)) :
    (l.foldl (fun w x => (finalize env w x.2).1) w).pendingJustifications =
      w.pendingJustifications := by
  induction l generalizing w with
  | nil => rfl
  | cons x l ih => rw [List.foldl_cons, ih, finalize_pendingJustifications]

/-- What an incoming justification does to the buffer: nothing, or, while the buffer has
room, `entry(block_num).or_insert(justification)`. -/
theorem triageIncomingJustif_pending (w : Worker A S) (j : VersionedFinalityProof S) :
    (triageIncomingJustif env w j).1.pendingJustifications = w.pendingJustifications ∨
      (w.pendingJustifications.size < maxBufferedJustifications ∧
        (triageIncomingJustif env w j).1.pendingJustifications =
          w.pendingJustifications.insertIfNew j.blockNumber j) := by
  dsimp only [triageIncomingJustif]
  cases w.persistedState.votingOracle.triageRound j.blockNumber with
  | error e => exact .inl rfl
  | ok action =>
    cases action with
    | process => exact .inl (finalize_pendingJustifications env w j)
    | drop => exact .inl rfl
    | enqueue =>
      dsimp only
      split
      · rename_i hroom
        exact .inr ⟨hroom, rfl⟩
      · exact .inl rfl

/-- An incoming justification never replaces one the buffer holds. -/
theorem triageIncomingJustif_getElem? {w : Worker A S} {k : ℕ} {v : VersionedFinalityProof S}
    (hk : w.pendingJustifications[k]? = some v) (j : VersionedFinalityProof S) :
    (triageIncomingJustif env w j).1.pendingJustifications[k]? = some v := by
  rcases triageIncomingJustif_pending env w j with hsame | ⟨-, hinsert⟩
  · rw [hsame]
    exact hk
  · rw [hinsert, Std.TreeMap.getElem?_insertIfNew]
    split
    · -- `or_insert` inserts only under a block number the buffer lacks
      rename_i hnew
      have hblock : j.blockNumber = k := Nat.compare_eq_eq.mp hnew.1
      have hmem : k ∈ w.pendingJustifications := by
        rw [Std.TreeMap.mem_iff_isSome_getElem?, hk]
        rfl
      exact absurd (hblock ▸ hmem) hnew.2
    · exact hk

/-- An incoming justification keeps the buffer within its bound. -/
theorem triageIncomingJustif_size {w : Worker A S}
    (h : w.pendingJustifications.size ≤ maxBufferedJustifications) (j : VersionedFinalityProof S) :
    (triageIncomingJustif env w j).1.pendingJustifications.size ≤ maxBufferedJustifications := by
  rcases triageIncomingJustif_pending env w j with hsame | ⟨hroom, hinsert⟩
  · rw [hsame]
    exact h
  · rw [hinsert]
    have := Std.TreeMap.size_insertIfNew_le (t := w.pendingJustifications) (k := j.blockNumber)
      (v := j)
    omega

end Worker

namespace Checked

variable {A S : Type*} [Ord A] (env : Env A S)

/-- `BeefyWorker::try_pending_justifications` with block numbers of `bits` bits: the two
`split_off`s, at `end.saturating_add(1)` and at `start`. -/
def tryPendingJustifications (bits : ℕ) (w : Worker A S) : Worker A S × Except Error Unit :=
  match w.persistedState.votingOracle.acceptedInterval with
  | .error e => (w, .error e)
  | .ok (start, end_) =>
    if w.pendingJustifications.isEmpty then (w, .ok ())
    else
      -- these are still pending
      let stillPending :=
        (Rust.splitOff w.pendingJustifications (Rust.Uint.saturatingAdd bits end_ 1)).2
      -- these can be processed
      let justifsToProcess :=
        (Rust.splitOff (Rust.splitOff w.pendingJustifications
          (Rust.Uint.saturatingAdd bits end_ 1)).1 start).2
      -- the rest can be dropped
      let w := { w with pendingJustifications := stillPending }
      (justifsToProcess.toList.foldl (fun w x => (Worker.finalize env w x.2).1) w, .ok ())

/-- The entries the two cuts keep, and those they hand to `finalize`. -/
theorem toList_splitOff (m : Std.TreeMap ℕ (VersionedFinalityProof S)) (start cut : ℕ) :
    (Rust.splitOff m cut).2.toList = m.toList.filter (fun e => cut ≤ e.1) ∧
      (Rust.splitOff (Rust.splitOff m cut).1 start).2.toList =
        m.toList.filter (fun e => start ≤ e.1 ∧ e.1 < cut) := by
  refine ⟨?_, ?_⟩
  · rw [Rust.toList_splitOff_snd]
    simp only [compare_bne_lt]
  · rw [Rust.toList_splitOff_snd, Rust.toList_splitOff_fst, List.filter_filter]
    simp only [compare_bne_lt, compare_beq_lt, Bool.decide_and]

/-- **One try.**  At the interval `(start, end)` a try returns `Ok`, keeps exactly the
buffered entries from the cut `end.saturating_add(1)` on, and finalizes in turn, from the
worker with that buffer, the entries from `start` below the cut, in increasing order. -/
theorem tryPendingJustifications_eq (bits : ℕ) (w : Worker A S) {start end_ : ℕ}
    (hI : w.persistedState.votingOracle.acceptedInterval = .ok (start, end_)) :
    (tryPendingJustifications env bits w).2 = .ok () ∧
      (tryPendingJustifications env bits w).1.pendingJustifications.toList =
        w.pendingJustifications.toList.filter
          (fun e => Rust.Uint.saturatingAdd bits end_ 1 ≤ e.1) ∧
      (tryPendingJustifications env bits w).1 =
        (w.pendingJustifications.toList.filter
            fun e => start ≤ e.1 ∧ e.1 < Rust.Uint.saturatingAdd bits end_ 1).foldl
          (fun w x => (Worker.finalize env w x.2).1)
          { w with pendingJustifications :=
              (tryPendingJustifications env bits w).1.pendingJustifications } := by
  obtain ⟨hstill, hprocess⟩ :=
    toList_splitOff w.pendingJustifications start (Rust.Uint.saturatingAdd bits end_ 1)
  unfold tryPendingJustifications
  rw [hI]
  dsimp only
  split
  · -- an empty buffer: nothing to cut
    rename_i hempty
    have hnil : w.pendingJustifications.toList = [] := by
      rw [← List.isEmpty_iff, Std.TreeMap.isEmpty_toList]
      exact hempty
    rw [hnil]
    exact ⟨rfl, rfl, rfl⟩
  · rw [Worker.foldl_finalize_pendingJustifications, ← hprocess]
    exact ⟨rfl, hstill, rfl⟩

end Checked

namespace Worker

variable {A S : Type*} [Ord A] (env : Env A S)

/-- A call that touches the buffer: an incoming justification, or a try of the buffer. -/
inductive BufferCall (S : Type*) where
  | triageIncomingJustif (justification : VersionedFinalityProof S)
  | tryPendingJustifications

/-- One call on the worker, with block numbers of `bits` bits. -/
def bufferCall (bits : ℕ) (w : Worker A S) : BufferCall S → Except Error Unit × Worker A S
  | .triageIncomingJustif justification =>
    ((triageIncomingJustif env w justification).2, (triageIncomingJustif env w justification).1)
  | .tryPendingJustifications =>
    ((Checked.tryPendingJustifications env bits w).2,
      (Checked.tryPendingJustifications env bits w).1)

/-- A try keeps a part of the buffer: its entries are among those the buffer had. -/
theorem tryPendingJustifications_sublist (bits : ℕ) (w : Worker A S) :
    (Checked.tryPendingJustifications env bits w).1.pendingJustifications.toList.Sublist
      w.pendingJustifications.toList := by
  cases hI : w.persistedState.votingOracle.acceptedInterval with
  | error e =>
    -- no interval: the buffer stays as it is
    unfold Checked.tryPendingJustifications
    rw [hI]
  | ok interval =>
    obtain ⟨-, hkept, -⟩ := Checked.tryPendingJustifications_eq env bits w hI
    rw [hkept]
    exact List.filter_sublist

/-- A try keeps a subset of the buffer, each entry unchanged. -/
theorem tryPendingJustifications_getElem? (bits : ℕ) (w : Worker A S) (k : ℕ) :
    (Checked.tryPendingJustifications env bits w).1.pendingJustifications[k]? = none ∨
      (Checked.tryPendingJustifications env bits w).1.pendingJustifications[k]? =
        w.pendingJustifications[k]? := by
  -- compare the lookups through the lists of entries, which have distinct keys
  cases hget : (Checked.tryPendingJustifications env bits w).1.pendingJustifications[k]? with
  | none => exact .inl rfl
  | some v =>
    right
    rw [← Std.TreeMap.mem_toList_iff_getElem?_eq_some] at hget
    exact (Std.TreeMap.mem_toList_iff_getElem?_eq_some.mp
      ((tryPendingJustifications_sublist env bits w).subset hget)).symm

/-- A try keeps the buffer within its bound. -/
theorem tryPendingJustifications_size (bits : ℕ) (w : Worker A S) :
    (Checked.tryPendingJustifications env bits w).1.pendingJustifications.size ≤
      w.pendingJustifications.size := by
  rw [← Std.TreeMap.length_toList, ← Std.TreeMap.length_toList]
  exact (tryPendingJustifications_sublist env bits w).length_le

/-- **One call** keeps the bound. -/
theorem bufferCall_size (bits : ℕ) {w : Worker A S}
    (h : w.pendingJustifications.size ≤ maxBufferedJustifications) (c : BufferCall S) :
    (bufferCall env bits w c).2.pendingJustifications.size ≤ maxBufferedJustifications := by
  cases c with
  | triageIncomingJustif justification => exact triageIncomingJustif_size env h justification
  | tryPendingJustifications => exact (tryPendingJustifications_size env bits w).trans h

/-- **One call** keeps a buffered justification, or drops its block. -/
theorem bufferCall_getElem? (bits : ℕ) {w : Worker A S} {k : ℕ} {v : VersionedFinalityProof S}
    (hk : w.pendingJustifications[k]? = some v) (c : BufferCall S) :
    (bufferCall env bits w c).2.pendingJustifications[k]? = some v ∨
      (bufferCall env bits w c).2.pendingJustifications[k]? = none := by
  cases c with
  | triageIncomingJustif justification =>
    exact .inl (triageIncomingJustif_getElem? env hk justification)
  | tryPendingJustifications =>
    rcases tryPendingJustifications_getElem? env bits w k with hnone | hsame
    · exact .inr hnone
    · exact .inl (hsame.trans hk)

/-- **The justification buffer.**  Over every run of incoming justifications and tries, with
block numbers of `bits` bits, the buffer never holds more than `MAX_BUFFERED_JUSTIFICATIONS`
entries, and a justification it holds stays as long as its block stays buffered: the first
one received is kept.  A try at the accepted interval `(start, end)` returns `Ok`, keeps
exactly the entries from the cut `min(end + 1, N::MAX)` on, and finalizes in turn, in
increasing order of block number, exactly the entries from `start` below the cut; the rest
are dropped.  Below the top of `N` the cut is `end + 1`; at `end = N::MAX` it is `N::MAX`,
where the entry of block `N::MAX` is kept and not finalized. -/
theorem pending_buffer_law (bits : ℕ) :
    (∀ (w : Worker A S) (calls : List (BufferCall S)),
      w.pendingJustifications.size ≤ maxBufferedJustifications →
      (runFrom (bufferCall env bits) w calls).2.pendingJustifications.size ≤
        maxBufferedJustifications) ∧
    (∀ (w : Worker A S) (calls : List (BufferCall S)) (k : ℕ) (v : VersionedFinalityProof S),
      w.pendingJustifications[k]? = some v →
      (∀ n ≤ calls.length,
        k ∈ (runFrom (bufferCall env bits) w (calls.take n)).2.pendingJustifications) →
      (runFrom (bufferCall env bits) w calls).2.pendingJustifications[k]? = some v) ∧
    ∀ (w : Worker A S) (start end_ : ℕ),
      w.persistedState.votingOracle.acceptedInterval = .ok (start, end_) →
      ((w.pendingJustifications.toList.filter
          fun e => start ≤ e.1 ∧ e.1 < min (end_ + 1) (Rust.Uint.max bits)).map
            Prod.fst).Pairwise (· < ·) ∧
      (Checked.tryPendingJustifications env bits w).2 = .ok () ∧
      (Checked.tryPendingJustifications env bits w).1.pendingJustifications.toList =
        w.pendingJustifications.toList.filter
          (fun e => min (end_ + 1) (Rust.Uint.max bits) ≤ e.1) ∧
      (Checked.tryPendingJustifications env bits w).1 =
        (w.pendingJustifications.toList.filter
            fun e => start ≤ e.1 ∧ e.1 < min (end_ + 1) (Rust.Uint.max bits)).foldl
          (fun w x => (finalize env w x.2).1)
          { w with pendingJustifications :=
              (Checked.tryPendingJustifications env bits w).1.pendingJustifications } := by
  refine ⟨fun w calls hw => ?_, fun w calls k v hk hpresent => ?_,
    fun w start end_ hI => ?_⟩
  · -- the bound is a state invariant
    exact @runFrom_invariant _ _ _ (bufferCall env bits)
      (fun w' => w'.pendingJustifications.size ≤ maxBufferedJustifications)
      (fun w' c hw' => bufferCall_size env bits hw' c) w hw calls
  · -- along the run, the entry can only go; while its block stays buffered it is the same
    have hkeep := @runFrom_take_invariant _ _ _ (bufferCall env bits)
      (fun w' => w'.pendingJustifications[k]? = some v) w hk calls
      (fun n hn hv => by
        rcases bufferCall_getElem? env bits hv calls[n] with hsame | hgone
        · exact hsame
        · have hmem := hpresent (n + 1) hn
          rw [runFrom_take_succ w calls n hn, Std.TreeMap.mem_iff_isSome_getElem?] at hmem
          rw [hgone] at hmem
          cases hmem)
    simpa using hkeep calls.length le_rfl
  · obtain ⟨hok, hkept, hrun⟩ := Checked.tryPendingJustifications_eq env bits w hI
    -- the cut is `saturating_add`
    have hcut : Rust.Uint.saturatingAdd bits end_ 1 = min (end_ + 1) (Rust.Uint.max bits) := rfl
    rw [hcut] at hkept hrun
    refine ⟨?_, hok, hkept, hrun⟩
    exact (pairwise_toList_lt w.pendingJustifications).sublist
      (List.filter_sublist.map Prod.fst)

/-- A try with the cut `end.saturating_add(1)` keeps the worker invariant: the cut is at most
`end + 1`, so every entry it finalizes lies in the interval. -/
theorem Inv.checkedTryPendingJustifications (bits : ℕ) {w : Worker A S} (h : w.Inv) :
    (Checked.tryPendingJustifications env bits w).1.Inv := by
  cases hI : w.persistedState.votingOracle.acceptedInterval with
  | error e =>
    -- no interval: the worker is left as it is
    have hsame : (Checked.tryPendingJustifications env bits w).1 = w := by
      unfold Checked.tryPendingJustifications
      rw [hI]
    rw [hsame]
    exact h
  | ok interval =>
    obtain ⟨start, end_⟩ := interval
    obtain ⟨-, hkept, hrun⟩ := Checked.tryPendingJustifications_eq env bits w hI
    have hcut : Rust.Uint.saturatingAdd bits end_ 1 ≤ end_ + 1 := min_le_left _ _
    rw [hrun]
    refine h.cutPending env (fun k j hk => ?_) hI fun x hx => ?_
    · rw [← Std.TreeMap.mem_toList_iff_getElem?_eq_some, hkept] at hk
      exact Std.TreeMap.mem_toList_iff_getElem?_eq_some.mp (List.mem_of_mem_filter hk)
    · obtain ⟨hmem, hin⟩ := List.mem_filter.mp hx
      simp only [decide_eq_true_eq] at hin
      exact ⟨Std.TreeMap.mem_toList_iff_getElem?_eq_some.mp hmem, hin.1, by omega⟩

section CheckedRuns

variable [DecidableEq A] [Std.TransOrd A]

/-- One call of an entry point of the worker in the build without `bls-experimental`, with
block numbers of `bits` bits: the buffer is tried with the cut `end.saturating_add(1)`. -/
inductive CheckedStep (bits : ℕ) (payload : ℕ → Option Payload)
    (sign : A → Commitment → Except String S) : Worker A S → Worker A S → Prop where
  | finalityNotification {w : Worker A S} {header : Header A} {treeRoute : List (Header A)} :
      NotificationOk w header treeRoute →
      CheckedStep bits payload sign w (handleFinalityNotification env w header treeRoute).1
  | incomingVote {w : Worker A S} (vote : VoteMessage A S) :
      CheckedStep bits payload sign w (triageIncomingVote env w vote).1
  | incomingJustif {w : Worker A S} (justification : VersionedFinalityProof S) :
      CheckedStep bits payload sign w (triageIncomingJustif env w justification).1
  | pendingJustifications {w : Worker A S} :
      CheckedStep bits payload sign w (Checked.tryPendingJustifications env bits w).1
  | vote {w : Worker A S} :
      CheckedStep bits payload sign w
        (tryToVote env false (getSignedPayloadEcdsa payload sign) w).1

theorem inv_checkedStep {bits : ℕ} {payload : ℕ → Option Payload}
    {sign : A → Commitment → Except String S} {w w' : Worker A S} (h : w.Inv)
    (hstep : CheckedStep env bits payload sign w w') : w'.Inv := by
  cases hstep with
  | finalityNotification hok => exact h.handleFinalityNotification env hok
  | incomingVote vote => exact h.triageIncomingVote env vote
  | incomingJustif justification => exact h.triageIncomingJustif env justification
  | pendingJustifications => exact h.checkedTryPendingJustifications env bits
  | vote => exact h.tryToVote env payload sign

/-- **Session-ordered finalization with block numbers of `bits` bits** (build without
`bls-experimental`).  The worker as the code runs it, trying its buffer with the cut
`end.saturating_add(1)`: from a state `checked_new` accepts, pruned and caught up, under any
interleaving of finality notifications, gossiped votes, incoming and buffered
justifications and self votes, every block it finalizes is session-ordered, and the front
session is done whenever the best BEEFY block has reached its start. -/
theorem checked_session_ordered_finalization (bits : ℕ) (payload : ℕ → Option Payload)
    (sign : A → Commitment → Except String S) {grandpa bestBeefy minBlockDelta palletGenesis : ℕ}
    {sessions : List (Rounds A S)} {p : PersistedState A S}
    (hp : PersistedState.checkedNew grandpa bestBeefy sessions minBlockDelta palletGenesis = some p)
    (hpruned : VoterOracle.Pruned p.votingOracle) (hcaught : p.votingOracle.CaughtUp)
    {w₀ w : Worker A S} (hw₀ : w₀.persistedState = p) (hpend : w₀.pendingJustifications = ∅)
    (hlog : w₀.finalized = [])
    (hrun : Relation.ReflTransGen (CheckedStep env bits payload sign) w₀ w) :
    (∀ x ∈ w.finalized, x.2.SessionOrdered x.1) ∧ w.persistedState.votingOracle.CaughtUp := by
  have hinv : w.Inv := by
    induction hrun with
    | refl => exact inv_init hp hpruned hcaught hw₀ hpend hlog
    | tail _ hstep ih => exact inv_checkedStep env ih hstep
  exact ⟨hinv.finalized, hinv.sound.caughtUp⟩

/-- One validator, ours, at the genesis session from block `1`, with `u32` block numbers: a
self vote, then a try of the buffer. -/
theorem checked_session_ordered_finalization_vote_then_try :
    let p : PersistedState ℕ ℕ := ⟨0, ⟨[Rounds.new 1 ⟨[0], [0], 0⟩], 1, 5, 0⟩, 1⟩
    let env : Env ℕ ℕ :=
      ⟨fun _ => .ok (), fun n => some n, fun _ => some 1, fun vs => vs.head?, fun _ => .ok ()⟩
    let w₁ := (tryToVote env false (getSignedPayloadEcdsa (fun _ => some ⟨[]⟩) fun _ _ => .ok 0)
      ⟨p, ∅, none, [], [], [], [], []⟩).1
    let w := (Checked.tryPendingJustifications env 32 w₁).1
    (∀ x ∈ w.finalized, x.2.SessionOrdered x.1) ∧ w.persistedState.votingOracle.CaughtUp := by
  intro p env w₁ w
  obtain ⟨hp, hpruned, hcaught⟩ := oneSession_checkedNew_caughtUp
  exact checked_session_ordered_finalization env 32 _ _ hp hpruned hcaught rfl rfl rfl
    ((Relation.ReflTransGen.single CheckedStep.vote).tail CheckedStep.pendingJustifications)

end CheckedRuns

end Worker

/-- A `u32` chain whose front session, from block `1`, has its mandatory block done, with the
best GRANDPA block at `u32::MAX` and the justification of block `u32::MAX` buffered. -/
def bufferAtTop : Worker ℕ ℕ where
  persistedState :=
    { bestVoted := 0
      votingOracle :=
        { sessions := [{ Rounds.new 1 ⟨[0], [0], 0⟩ with mandatoryDone := true }]
          minBlockDelta := 1
          bestGrandpaBlock := Rust.Uint.max 32
          bestBeefyBlock := 1 }
      palletGenesis := 1 }
  pendingJustifications := (∅ : Std.TreeMap ℕ (VersionedFinalityProof ℕ)).insert
    (Rust.Uint.max 32) (.v1 ⟨⟨⟨[]⟩, Rust.Uint.max 32, 0⟩, [some 0]⟩)
  gossipFilter := none
  rpcBestBlocks := []
  rpcJustifications := []
  gossipedVotes := []
  gossipedProofs := []
  finalized := []

/-- The environment of a node whose backend accepts every write and has no block. -/
def quietEnv : Env ℕ ℕ where
  writeVoterState _ := .ok ()
  blockHash _ := none
  beefyGenesis _ := none
  authorityId _ := none
  reportEquivocation _ := .ok ()

/-- **At the top of `u32`** the justification of block `u32::MAX`, buffered while the
interval ended below it, is not finalized once the interval reaches it: the try keeps it
buffered and finalizes nothing. -/
theorem pending_kept_at_top :
    (Checked.tryPendingJustifications quietEnv 32 bufferAtTop).1.pendingJustifications[
        Rust.Uint.max 32]? = some (.v1 ⟨⟨⟨[]⟩, Rust.Uint.max 32, 0⟩, [some 0]⟩) ∧
      (Checked.tryPendingJustifications quietEnv 32 bufferAtTop).1.finalized = [] := by
  have hI : bufferAtTop.persistedState.votingOracle.acceptedInterval =
      .ok (1, Rust.Uint.max 32) := rfl
  obtain ⟨-, hkept, hrun⟩ := Checked.tryPendingJustifications_eq quietEnv 32 bufferAtTop hI
  have hentries : bufferAtTop.pendingJustifications.toList =
      [(Rust.Uint.max 32, .v1 ⟨⟨⟨[]⟩, Rust.Uint.max 32, 0⟩, [some 0]⟩)] := rfl
  -- the cut stays at `u32::MAX`: nothing lies from `1` below it
  have hcut : Rust.Uint.saturatingAdd 32 (Rust.Uint.max 32) 1 = Rust.Uint.max 32 :=
    Rust.Uint.saturatingAdd_max_one 32
  rw [hentries, hcut] at hkept hrun
  refine ⟨?_, ?_⟩
  · rw [← Std.TreeMap.mem_toList_iff_getElem?_eq_some, hkept]
    decide
  · rw [hrun]
    rfl

end BeefyEtf
