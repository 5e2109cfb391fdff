/-
Which blocks the oracle lets the worker finalize, and in which order.

A block is *admissible* when it is at or below the best BEEFY block (finalizing it changes
nothing) or in the accepted interval.  On an oracle keeping its invariant, in one of the
three documented states and *caught up* (the front session is done once the best BEEFY
block reaches its start):

* `sessionOrdered_of_admissible` — an admissible block above the best BEEFY block is
  session-ordered: in the front session, at most the best GRANDPA block, below every later
  session, and the front's mandatory block itself unless that is done;
* `FinalizeOk.caughtUp`, `FinalizeOk.admissible` — finalizing it keeps the oracle caught
  up and every other admissible block admissible.
-/
import BeefyEtf.OracleRuns

namespace BeefyEtf

namespace VoterOracle

variable {A S : Type*} [Ord A]

/-- Block `b` is at or below the best BEEFY block, or in the accepted interval. -/
def Admissible (o : VoterOracle A S) (b : ℕ) : Prop :=
  b ≤ o.bestBeefyBlock ∨
    ∃ start end_, o.acceptedInterval = .ok (start, end_) ∧ start ≤ b ∧ b ≤ end_

/-- Finalizing `b` on `o` respects the order of sessions: `b` lies in the front session,
at most at the best GRANDPA block and below every later session, and is the front's
mandatory block unless that is done. -/
def SessionOrdered (o : VoterOracle A S) (b : ℕ) : Prop :=
  ∃ front rest, o.sessions = front :: rest ∧ front.sessionStart ≤ b ∧ b ≤ o.bestGrandpaBlock ∧
    (∀ r ∈ rest, b < r.sessionStart) ∧ (b ≠ front.sessionStart → front.mandatoryDone = true)

/-- Once the best BEEFY block reaches the front session's start, its mandatory block is
done. -/
def CaughtUp (o : VoterOracle A S) : Prop :=
  ∀ front ∈ o.sessions.head?, front.sessionStart ≤ o.bestBeefyBlock → front.mandatoryDone = true

/-- A front session whose mandatory block is done is caught up, wherever the best BEEFY block
stands. -/
theorem caughtUp_of_front_done {o : VoterOracle A S} {front : Rounds A S}
    {rest : List (Rounds A S)} (hs : o.sessions = front :: rest)
    (hdone : front.mandatoryDone = true) : o.CaughtUp := by
  intro r hr _
  rw [hs, List.head?_cons, Option.mem_some_iff] at hr
  rw [← hr]
  exact hdone

theorem acceptedInterval_of_cons {o : VoterOracle A S} {front : Rounds A S}
    {rest : List (Rounds A S)} (hs : o.sessions = front :: rest) :
    o.acceptedInterval = if front.mandatoryDone then
      .ok (max front.sessionStart o.bestBeefyBlock, o.bestGrandpaBlock)
    else .ok (front.sessionStart, front.sessionStart) := by
  unfold acceptedInterval
  rw [hs, List.head?_cons]

/-- The blocks admissible while the front session is done: from its start and the best
BEEFY block up to the best GRANDPA block. -/
theorem admissible_of_done {o : VoterOracle A S} {front : Rounds A S} {rest : List (Rounds A S)}
    (hs : o.sessions = front :: rest) (hdone : front.mandatoryDone = true) (b : ℕ) :
    o.Admissible b ↔ b ≤ o.bestBeefyBlock ∨
      (max front.sessionStart o.bestBeefyBlock ≤ b ∧ b ≤ o.bestGrandpaBlock) := by
  unfold Admissible
  rw [acceptedInterval_of_cons hs, if_pos hdone]
  constructor
  · rintro (h | ⟨start, end_, heq, hlo, hhi⟩)
    · exact .inl h
    · cases heq
      exact .inr ⟨hlo, hhi⟩
  · rintro (h | ⟨hlo, hhi⟩)
    · exact .inl h
    · exact .inr ⟨_, _, rfl, hlo, hhi⟩

/-- The blocks admissible while the front session is not done: its mandatory block. -/
theorem admissible_of_undone {o : VoterOracle A S} {front : Rounds A S} {rest : List (Rounds A S)}
    (hs : o.sessions = front :: rest) (hundone : front.mandatoryDone = false) (b : ℕ) :
    o.Admissible b ↔ b ≤ o.bestBeefyBlock ∨ b = front.sessionStart := by
  unfold Admissible
  rw [acceptedInterval_of_cons hs, if_neg (by simp [hundone])]
  constructor
  · rintro (h | ⟨start, end_, heq, hlo, hhi⟩)
    · exact .inl h
    · cases heq
      exact .inr (by omega)
  · rintro (h | rfl)
    · exact .inl h
    · exact .inr ⟨_, _, rfl, le_rfl, le_rfl⟩

/-- A done front in one of the three documented states is alone in the queue. -/
theorem rest_eq_nil_of_done {o : VoterOracle A S} (hp : Pruned o) {front : Rounds A S}
    {rest : List (Rounds A S)} (hs : o.sessions = front :: rest) (hdone : front.mandatoryDone = true) :
    rest = [] := by
  cases rest with
  | nil => rfl
  | cons r rest =>
    have hundone := hp (by simp [hs]) front (by simp [hs])
    rw [hdone] at hundone
    cases hundone

section Ordered

variable {o : VoterOracle A S} (hinv : o.Invariant) (hp : Pruned o)
include hinv hp

/-- **An admissible block is session-ordered.** -/
theorem sessionOrdered_of_admissible {b : ℕ} (hadm : o.Admissible b)
    (hgt : o.bestBeefyBlock < b) : o.SessionOrdered b := by
  obtain ⟨front, rest, hs⟩ := List.exists_cons_of_ne_nil hinv.sessions_ne_nil
  have hwf := hinv.wellFormed
  rw [hs] at hwf
  cases hdone : front.mandatoryDone with
  | true =>
    -- the front is done, so it is alone
    rcases (admissible_of_done hs hdone b).mp hadm with hle | ⟨hlo, hhi⟩
    · omega
    have hrest := rest_eq_nil_of_done hp hs hdone
    exact ⟨front, rest, hs, le_of_max_le_left hlo, hhi, by simp [hrest], fun _ => hdone⟩
  | false =>
    -- the front is not done: only its mandatory block is accepted
    rcases (admissible_of_undone hs hdone b).mp hadm with hle | rfl
    · omega
    have hinc := List.pairwise_cons.mp hwf.increasing
    exact ⟨front, rest, hs, le_rfl, hwf.start_le front List.mem_cons_self,
      fun r hr => (hinc.1 r hr).1, fun h => absurd rfl h⟩

end Ordered

/-- What the worker keeps of its oracle: the invariant, one of the three documented states,
and caught up. -/
structure Sound (o : VoterOracle A S) : Prop where
  invariant : o.Invariant
  pruned : Pruned o
  caughtUp : CaughtUp o

/-- Changing the front session without changing its start, validator set or done flag, as
counting a vote does, keeps the oracle sound and the same blocks admissible. -/
theorem Sound.cons_front {o : VoterOracle A S} (h : o.Sound) {front front' : Rounds A S}
    {rest : List (Rounds A S)} (hs : o.sessions = front :: rest)
    (hstart : front'.sessionStart = front.sessionStart)
    (hset : front'.validatorSet = front.validatorSet)
    (hdone : front'.mandatoryDone = front.mandatoryDone) :
    ({ o with sessions := front' :: rest } : VoterOracle A S).Sound ∧
      ∀ b, ({ o with sessions := front' :: rest } : VoterOracle A S).Admissible b ↔ o.Admissible b := by
  have hwf := h.invariant.wellFormed
  rw [hs] at hwf
  refine ⟨⟨⟨by simp, h.invariant.bestBeefy_le, h.invariant.minBlockDelta_pos,
    hwf.cons_front hstart hset⟩, fun hlen r hr => ?_, fun r hr hle => ?_⟩, fun b => ?_⟩
  · -- the three states: the length and every done flag are as before
    have hall := h.pruned (by simpa [hs] using hlen)
    rcases List.mem_cons.mp hr with rfl | hr
    · rw [hdone]
      exact hall front (by simp [hs])
    · exact hall r (by simp [hs, hr])
  · have hr' : front' = r := by simpa using hr
    subst hr'
    rw [hdone]
    exact h.caughtUp front (by simp [hs]) (hstart ▸ hle)
  · unfold Admissible
    rw [acceptedInterval_of_cons rfl, acceptedInterval_of_cons hs, hstart, hdone]

/-- `vote_target` gives a block at most the best GRANDPA block: the mandatory block while
the best BEEFY block is below it, else a block above the best BEEFY block. -/
theorem voteTarget_spec {bestGrandpa bestBeefy sessionStart minDelta t : ℕ}
    (h : voteTarget bestGrandpa bestBeefy sessionStart minDelta = some t) :
    t ≤ bestGrandpa ∧ ((bestBeefy < sessionStart ∧ t = sessionStart) ∨
      (sessionStart ≤ bestBeefy ∧ bestBeefy < t)) := by
  unfold voteTarget at h
  dsimp only at h
  split_ifs at h with hbelow hgt <;> cases h
  · exact ⟨by omega, .inl ⟨hbelow, rfl⟩⟩
  · -- a power of two is at least `1`
    have hpow := Nat.pos_of_isPowerOfTwo (Nat.isPowerOfTwo_nextPowerOfTwo
      (min (bestGrandpa - bestBeefy + 1) (2 ^ 32 - 1) / 2))
    exact ⟨by omega, .inr ⟨by omega, by omega⟩⟩

/-- On a sound oracle, the voting target of the build without `bls-experimental` is
admissible and above the best BEEFY block. -/
theorem Sound.votingTarget {o : VoterOracle A S} (h : o.Sound) {t : ℕ}
    (ht : o.votingTarget false = some t) : o.Admissible t ∧ o.bestBeefyBlock < t := by
  obtain ⟨front, rest, hs⟩ := List.exists_cons_of_ne_nil h.invariant.sessions_ne_nil
  unfold VoterOracle.votingTarget at ht
  rw [if_neg (by decide), hs, List.head?_cons] at ht
  obtain ⟨hle, hcase | hcase⟩ := voteTarget_spec ht
  · -- the mandatory block
    obtain ⟨hbb, rfl⟩ := hcase
    refine ⟨?_, hbb⟩
    cases hdone : front.mandatoryDone with
    | true => exact (admissible_of_done hs hdone _).mpr (.inr ⟨by omega, hle⟩)
    | false => exact (admissible_of_undone hs hdone _).mpr (.inr rfl)
  · -- past the mandatory block, which is done since the oracle is caught up
    have hdone := h.caughtUp front (by simp [hs]) hcase.1
    exact ⟨(admissible_of_done hs hdone _).mpr (.inr ⟨by omega, hle⟩), hcase.2⟩

/-- Raising the best GRANDPA block keeps the oracle sound. -/
theorem Sound.setBestGrandpa {o : VoterOracle A S} (h : o.Sound) {n : ℕ}
    (hn : o.bestGrandpaBlock ≤ n) : ({ o with bestGrandpaBlock := n } : VoterOracle A S).Sound :=
  ⟨h.invariant.setBestGrandpa hn, h.pruned, h.caughtUp⟩

/-- Adding a session keeps the front, unless the front is done: then, alone, it is pruned
and the new session is the front. -/
theorem head?_addSession {o : VoterOracle A S} (hp : Pruned o) {front : Rounds A S}
    {rest : List (Rounds A S)} (hs : o.sessions = front :: rest) {r : Rounds A S}
    (hr : r.mandatoryDone = false) :
    (o.addSession r).sessions.head? = if front.mandatoryDone then some r else some front := by
  unfold addSession tryPrune
  rw [if_pos (by simp [hs])]
  dsimp only
  cases hdone : front.mandatoryDone with
  | true =>
    rw [hs, rest_eq_nil_of_done hp hs hdone]
    simp [hdone, hr]
  | false =>
    rw [hs, List.cons_append, List.filter_cons_of_pos (by simp [hdone])]
    rfl

/-- A session added above the best BEEFY block, as `init_session_at` adds it, keeps the
oracle sound. -/
theorem Sound.addSession {o : VoterOracle A S} (h : o.Sound) {s : ℕ} {vs : ValidatorSet A}
    (hcan : o.canAddSession s = true) (hle : s ≤ o.bestGrandpaBlock) (hv : vs.validators ≠ [])
    (hid : ∀ last ∈ o.sessions.getLast?, last.validatorSetId < vs.id)
    (hbb : o.bestBeefyBlock < s) : (o.addSession (Rounds.new s vs)).Sound := by
  refine ⟨h.invariant.addSession hcan hle hv hid, pruned_tryPrune _, fun r hr hrle => ?_⟩
  obtain ⟨front, rest, hs⟩ := List.exists_cons_of_ne_nil h.invariant.sessions_ne_nil
  rw [head?_addSession h.pruned hs rfl] at hr
  have hbb' : (o.addSession (Rounds.new s vs)).bestBeefyBlock = o.bestBeefyBlock :=
    tryPrune_bestBeefyBlock _
  cases hdone : front.mandatoryDone with
  | true =>
    -- the new session is the front, and it starts above the best BEEFY block
    rw [hdone, if_pos rfl] at hr
    have hr' : Rounds.new s vs = r := by simpa using hr
    subst hr'
    simp only [hbb'] at hrle
    exact absurd hrle (by simpa [Rounds.new] using hbb)
  | false =>
    rw [hdone] at hr
    have hr' : front = r := by simpa using hr
    subst hr'
    exact h.caughtUp front (by simp [hs]) (by simpa [hbb'] using hrle)

/-- The sessions after `add_session` were queued before or are the new one. -/
theorem mem_addSession {o : VoterOracle A S} {r x : Rounds A S}
    (hx : x ∈ (o.addSession r).sessions) : x ∈ o.sessions ∨ x = r := by
  unfold addSession tryPrune at hx
  split at hx
  · exact List.mem_append.mp (List.mem_of_mem_filter hx) |>.imp id List.mem_singleton.mp
  · exact List.mem_append.mp hx |>.imp id List.mem_singleton.mp

/-- A new session that is not done is the last one after `add_session`. -/
theorem getLast?_addSession {o : VoterOracle A S} {r : Rounds A S}
    (hr : r.mandatoryDone = false) : (o.addSession r).sessions.getLast? = some r := by
  unfold addSession tryPrune
  split
  · dsimp only
    rw [List.filter_append, List.filter_singleton]
    simp [hr]
  · simp

/-- A queue of one session is left alone by `try_prune`. -/
theorem tryPrune_of_singleton {o : VoterOracle A S} {r : Rounds A S} (hs : o.sessions = [r]) :
    o.tryPrune = o := by
  unfold tryPrune
  rw [if_neg (by simp [hs])]

/-- A done front before sessions that are not done is dropped by `try_prune`. -/
theorem tryPrune_sessions_of_done {o : VoterOracle A S} {front r : Rounds A S}
    {rest : List (Rounds A S)} (hs : o.sessions = front :: r :: rest)
    (hdone : front.mandatoryDone = true) (hundone : ∀ x ∈ r :: rest, x.mandatoryDone = false) :
    o.tryPrune.sessions = r :: rest := by
  unfold tryPrune
  rw [if_pos (by simp [hs])]
  dsimp only
  rw [hs, List.filter_cons_of_neg (by simp [hdone]), List.filter_eq_self]
  intro x hx
  simp [hundone x hx]

/-- **Finalizing an admissible block.**  On a sound oracle, `finalize` of an admissible
block above the best BEEFY block succeeds; with the best BEEFY block set to it, the oracle
is sound again and every block admissible before still is. -/
theorem Sound.finalize {o : VoterOracle A S} (h : o.Sound) {b : ℕ} (hadm : o.Admissible b)
    (hgt : o.bestBeefyBlock < b) :
    ∃ o', o.finalize b = .ok o' ∧ ({ o' with bestBeefyBlock := b } : VoterOracle A S).Sound ∧
      ∀ b₂, o.Admissible b₂ → ({ o' with bestBeefyBlock := b } : VoterOracle A S).Admissible b₂ := by
  obtain ⟨front, rest, hs⟩ := List.exists_cons_of_ne_nil h.invariant.sessions_ne_nil
  obtain ⟨-, -, -, -, hbg, -, -⟩ := sessionOrdered_of_admissible h.invariant h.pruned hadm hgt
  obtain ⟨o', hfin, hinv', hp'⟩ := h.invariant.finalize b
  have ho' : o' = ({ o with sessions := front.conclude b :: rest } : VoterOracle A S).tryPrune := by
    unfold VoterOracle.finalize at hfin
    rw [hs] at hfin
    cases hfin
    rfl
  have hbg' : o'.bestGrandpaBlock = o.bestGrandpaBlock := by rw [ho', tryPrune_bestGrandpaBlock]
  have hinv'' : ({ o' with bestBeefyBlock := b } : VoterOracle A S).Invariant :=
    ⟨hinv'.sessions_ne_nil, by simp only [hbg']; omega, hinv'.minBlockDelta_pos, hinv'.wellFormed⟩
  refine ⟨o', hfin, ?_⟩
  cases hdone : front.mandatoryDone with
  | true =>
    -- the front stays alone and done, and the best BEEFY block only grows
    have hrest := rest_eq_nil_of_done h.pruned hs hdone
    subst hrest
    have hs' : o'.sessions = [front.conclude b] := by
      rw [ho', tryPrune_of_singleton rfl]
    have hdone' : (front.conclude b).mandatoryDone = true := by simp [hdone]
    refine ⟨⟨hinv'', hp', caughtUp_of_front_done hs' hdone'⟩, fun b₂ hb₂ => ?_⟩
    · rw [admissible_of_done (show ({ o' with bestBeefyBlock := b } : VoterOracle A S).sessions =
        [front.conclude b] from hs') hdone']
      rcases (admissible_of_done hs hdone b₂).mp hb₂ with hle | ⟨hlo, hhi⟩
      · exact .inl (show b₂ ≤ b by omega)
      · simp only [Rounds.conclude_sessionStart, hbg', max_le_iff] at hlo ⊢
        omega
  | false =>
    -- the front's mandatory block is the only admissible block above the best BEEFY block
    obtain rfl : b = front.sessionStart := by
      rcases (admissible_of_undone hs hdone b).mp hadm with hle | hb
      · omega
      · exact hb
    have hdone' : (front.conclude front.sessionStart).mandatoryDone = true := by simp
    have hbelow : ∀ b₂, o.Admissible b₂ → b₂ ≤ front.sessionStart := by
      intro b₂ hb₂
      rcases (admissible_of_undone hs hdone b₂).mp hb₂ with hle | hb
      · omega
      · exact hb.le
    refine ⟨⟨hinv'', hp', ?_⟩, fun b₂ hb₂ => .inl (hbelow b₂ hb₂)⟩
    cases rest with
    | nil =>
      have hs' : o'.sessions = [front.conclude front.sessionStart] := by
        rw [ho', tryPrune_of_singleton rfl]
      exact caughtUp_of_front_done hs' hdone'
    | cons r rest =>
      -- the concluded front is pruned; the next session starts above the block
      have hwf := h.invariant.wellFormed
      rw [hs] at hwf
      have hs' : o'.sessions = r :: rest := by
        rw [ho']
        exact tryPrune_sessions_of_done rfl hdone' hwf.tail_undone
      have hr : front.sessionStart < r.sessionStart :=
        ((List.pairwise_cons.mp hwf.increasing).1 r List.mem_cons_self).1
      intro x hx hle
      have hx' : r = x := by simpa [hs'] using hx
      rw [← hx'] at hle
      exact absurd hle (by simpa using hr)

end VoterOracle

end BeefyEtf
