/-
The authority bookkeeping of the `beefy-etf` pallet (`pallets/beefy-etf/src/lib.rs`).

The pallet keeps the current and next authorities, the current validator set id and
`SetIdSession`, which maps recent set ids to the session they started in.  It is set up
once by `initialize` and then changed by `on_new_session` at every session, which always
starts a new set (`change_authorities`) and keeps the map to the last
`M = max(MaxSetIdSessionEntries, 1)` set ids.

* `onNewSession_window` — one session keeps the map to the last `M` set ids;
* `setIdSession_window` — after `initialize` and `k` sessions the set id is `k`, the
  map holds the set ids `j` with `k - M < j ≤ k`, the last one mapped to the current
  session, so it never holds more than `M` entries and `try_state_validators` passes.

The session index `pallet_session` reports and the round commitments
`RoundCommitmentProvider` supplies come from outside the pallet: they are arguments.
-/
import BeefyEtf.Primitives

namespace BeefyEtf

namespace Pallet

/-- The pallet's constants. -/
structure Config where
  maxAuthorities : ℕ
  maxSetIdSessionEntries : ℕ

/-- The pallet's storage, with the digest items it deposited and the validator sets it
announced to `OnNewValidatorSet`, latest last. -/
structure State (B : Type*) where
  authorities : List B
  validatorSetId : ℕ
  nextAuthorities : List B
  setIdSession : Std.TreeMap ℕ ℕ
  digest : List (ConsensusLog B)
  newValidatorSets : List (ValidatorSet B × ValidatorSet B)

variable {B : Type*}

/-- The storage before genesis: every `ValueQuery` at its default, every map empty. -/
def State.empty : State B where
  authorities := []
  validatorSetId := 0
  nextAuthorities := []
  setIdSession := ∅
  digest := []
  newValidatorSets := []

/-- `GENESIS_AUTHORITY_SET_ID`. -/
def genesisAuthoritySetId : ℕ := 0

variable (cfg : Config) (commitments : List B)

/-- `Pallet::change_authorities`: a new set, with the next id, announced in the digest
when it is not empty. -/
def changeAuthorities (s : State B) (new queued : List B) : State B :=
  let newId := s.validatorSetId + 1
  let s := { s with authorities := new, validatorSetId := newId, nextAuthorities := queued }
  match ValidatorSet.new new commitments newId with
  | some validatorSet =>
    let s := { s with digest := s.digest ++ [.authoritiesChange validatorSet] }
    match ValidatorSet.new queued commitments (newId + 1) with
    | some nextValidatorSet =>
      { s with newValidatorSets := s.newValidatorSets ++ [(validatorSet, nextValidatorSet)] }
    | none => s
  | none => s

/-- `Pallet::initialize`: nothing for no authorities; refused once authorities are set
or when there are more than `MaxAuthorities`. -/
def initializeAuthorities (s : State B) (authorities : List B) : Except Unit (State B) :=
  if authorities.isEmpty then .ok s
  else if !s.authorities.isEmpty then .error ()
  else if cfg.maxAuthorities < authorities.length then .error ()
  else
    let id := genesisAuthoritySetId
    let s := { s with
      authorities := authorities
      validatorSetId := id
      nextAuthorities := authorities }
    let s := match ValidatorSet.new authorities commitments id,
        ValidatorSet.new authorities commitments (id + 1) with
      | some validatorSet, some nextValidatorSet =>
        { s with newValidatorSets := s.newValidatorSets ++ [(validatorSet, nextValidatorSet)] }
      | _, _ => s
    -- the first session of the first set
    .ok { s with setIdSession := s.setIdSession.insert 0 0 }

/-- `OneSessionHandler::on_new_session` at session `sessionIndex`: a new set from the
lists cut to `MaxAuthorities`, mapped to this session, the oldest set id dropped once
more than `max(MaxSetIdSessionEntries, 1)` are kept. -/
def onNewSession (s : State B) (validators queuedValidators : List B) (sessionIndex : ℕ) :
    State B :=
  let s := changeAuthorities commitments s (validators.take cfg.maxAuthorities)
    (queuedValidators.take cfg.maxAuthorities)
  let validatorSetId := s.validatorSetId
  let s := { s with setIdSession := s.setIdSession.insert validatorSetId sessionIndex }
  let maxSetIdSessionEntries := max cfg.maxSetIdSessionEntries 1
  if maxSetIdSessionEntries ≤ validatorSetId then
    { s with setIdSession := s.setIdSession.erase (validatorSetId - maxSetIdSessionEntries) }
  else s

/-- `on_new_session` for each `(validators, queued, session index)` in turn. -/
def onNewSessions (s : State B) (sessions : List (List B × List B × ℕ)) : State B :=
  sessions.foldl (fun s x => onNewSession cfg commitments s x.1 x.2.1 x.2.2) s

/-- `Pallet::try_state_validators`. -/
def tryStateValidators (s : State B) : Except String Unit :=
  if (s.setIdSession[s.validatorSetId]?).isSome then .ok ()
  else .error "Validator set id must be present in SetIdSession"

/-! ### One session -/

@[simp] theorem changeAuthorities_validatorSetId (s : State B) (new queued : List B) :
    (changeAuthorities commitments s new queued).validatorSetId = s.validatorSetId + 1 := by
  dsimp only [changeAuthorities]
  split
  · split <;> rfl
  · rfl

@[simp] theorem changeAuthorities_setIdSession (s : State B) (new queued : List B) :
    (changeAuthorities commitments s new queued).setIdSession = s.setIdSession := by
  dsimp only [changeAuthorities]
  split
  · split <;> rfl
  · rfl

@[simp] theorem onNewSession_validatorSetId (s : State B) (validators queued : List B)
    (sessionIndex : ℕ) :
    (onNewSession cfg commitments s validators queued sessionIndex).validatorSetId =
      s.validatorSetId + 1 := by
  dsimp only [onNewSession]
  split <;> simp

/-- The map after a session: the new set id mapped to the session, the set id `M` below
it dropped. -/
theorem onNewSession_setIdSession_getElem? (s : State B) (validators queued : List B)
    (sessionIndex j : ℕ) :
    (onNewSession cfg commitments s validators queued sessionIndex).setIdSession[j]? =
      if max cfg.maxSetIdSessionEntries 1 ≤ s.validatorSetId + 1 ∧
          j = s.validatorSetId + 1 - max cfg.maxSetIdSessionEntries 1 then none
      else if j = s.validatorSetId + 1 then some sessionIndex
      else s.setIdSession[j]? := by
  dsimp only [onNewSession]
  split
  · rename_i hle
    simp only [changeAuthorities_validatorSetId, changeAuthorities_setIdSession] at hle ⊢
    rw [Std.TreeMap.getElem?_erase, Std.TreeMap.getElem?_insert]
    by_cases hj : j = s.validatorSetId + 1 - max cfg.maxSetIdSessionEntries 1
    · simp [hj, hle]
    · have hne : ¬ compare (s.validatorSetId + 1 - max cfg.maxSetIdSessionEntries 1) j = .eq := by
        rw [Nat.compare_eq_eq]
        exact Ne.symm hj
      simp only [hne, if_false, hle, hj, and_false]
      by_cases hj' : j = s.validatorSetId + 1
      · simp [hj']
      · simp [hj', Ne.symm hj']
  · rename_i hlt
    simp only [changeAuthorities_validatorSetId, changeAuthorities_setIdSession] at hlt ⊢
    rw [Std.TreeMap.getElem?_insert]
    simp only [hlt, false_and, if_false]
    by_cases hj' : j = s.validatorSetId + 1
    · simp [hj']
    · simp [hj', Ne.symm hj']

/-- The set ids `SetIdSession` keeps once set `k` is current: `k - M < j ≤ k`, for
`M = max(MaxSetIdSessionEntries, 1)`. -/
def InWindow (k j : ℕ) : Prop := k < j + max cfg.maxSetIdSessionEntries 1 ∧ j ≤ k

/-- One session keeps `SetIdSession` to the last `M` set ids, the new one mapped to the
session. -/
theorem onNewSession_window {s : State B}
    (hs : ∀ j, j ∈ s.setIdSession ↔ InWindow cfg s.validatorSetId j)
    (validators queued : List B) (sessionIndex : ℕ) :
    (∀ j, j ∈ (onNewSession cfg commitments s validators queued sessionIndex).setIdSession ↔
        InWindow cfg (onNewSession cfg commitments s validators queued sessionIndex).validatorSetId j) ∧
      (onNewSession cfg commitments s validators queued sessionIndex).setIdSession[
        s.validatorSetId + 1]? = some sessionIndex := by
  have hM : 1 ≤ max cfg.maxSetIdSessionEntries 1 := le_max_right _ _
  refine ⟨fun j => ?_, ?_⟩
  · have hj := hs j
    rw [Std.TreeMap.mem_iff_isSome_getElem?] at hj ⊢
    rw [onNewSession_setIdSession_getElem?, onNewSession_validatorSetId]
    unfold InWindow at hj ⊢
    generalize max cfg.maxSetIdSessionEntries 1 = M at *
    split_ifs with h₁ h₂
    · simp only [Option.isSome_none, Bool.false_eq_true, false_iff]
      omega
    · simp only [Option.isSome_some, true_iff]
      omega
    · rw [hj]
      omega
  · rw [onNewSession_setIdSession_getElem?, if_neg (by omega), if_pos rfl]

/-- Over many sessions: the set id counts them, `SetIdSession` keeps the last `M` set ids,
and the current one is mapped to the last session. -/
theorem onNewSessions_window {s : State B}
    (hs : ∀ j, j ∈ s.setIdSession ↔ InWindow cfg s.validatorSetId j)
    (sessions : List (List B × List B × ℕ)) :
    (∀ j, j ∈ (onNewSessions cfg commitments s sessions).setIdSession ↔
        InWindow cfg (onNewSessions cfg commitments s sessions).validatorSetId j) ∧
      (onNewSessions cfg commitments s sessions).validatorSetId =
        s.validatorSetId + sessions.length ∧
      ∀ x ∈ sessions.getLast?, (onNewSessions cfg commitments s sessions).setIdSession[
        (onNewSessions cfg commitments s sessions).validatorSetId]? = some x.2.2 := by
  induction sessions generalizing s with
  | nil => exact ⟨hs, rfl, by simp⟩
  | cons x rest ih =>
    obtain ⟨hw, hidx⟩ := onNewSession_window cfg commitments hs x.1 x.2.1 x.2.2
    obtain ⟨hw', hid', hlast'⟩ := ih hw
    have hunfold : onNewSessions cfg commitments s (x :: rest) =
        onNewSessions cfg commitments (onNewSession cfg commitments s x.1 x.2.1 x.2.2) rest := rfl
    rw [hunfold]
    refine ⟨hw', by rw [hid', onNewSession_validatorSetId, List.length_cons]; omega, ?_⟩
    cases rest with
    | nil =>
      intro y hy
      simp only [List.getLast?_singleton, Option.mem_def, Option.some.injEq] at hy
      subst hy
      simpa [onNewSessions] using hidx
    | cons y rest' =>
      intro z hz
      exact hlast' z (by simpa using hz)

/-- A map whose keys lie in a window of `M` numbers has at most `M` entries. -/
theorem size_le_of_window {m : Std.TreeMap ℕ ℕ} {k M : ℕ} (h : ∀ j, j ∈ m ↔ k < j + M ∧ j ≤ k) :
    m.size ≤ M := by
  have hsub : m.keys.toFinset ⊆ Finset.Ico (k + 1 - M) (k + 1) := fun j hj => by
    rw [List.mem_toFinset, Std.TreeMap.mem_keys] at hj
    have := (h j).mp hj
    rw [Finset.mem_Ico]
    omega
  calc m.size = m.keys.length := Std.TreeMap.length_keys.symm
    _ = m.keys.toFinset.card := (List.toFinset_card_of_nodup Std.TreeMap.nodup_keys).symm
    _ ≤ (Finset.Ico (k + 1 - M) (k + 1)).card := Finset.card_le_card hsub
    _ ≤ M := by
      rw [Nat.card_Ico]
      omega

/-- `initialize` of unset storage with authorities, non-empty and at most
`MaxAuthorities`, starts set `0`, mapped to session `0`. -/
theorem initializeAuthorities_eq_ok (s : State B) (hs : s.authorities = []) {authorities : List B}
    (hne : authorities ≠ []) (hbound : authorities.length ≤ cfg.maxAuthorities) :
    ∃ s₁, initializeAuthorities cfg commitments s authorities = .ok s₁ ∧ s₁.validatorSetId = 0 ∧
      s₁.setIdSession = s.setIdSession.insert 0 0 := by
  dsimp only [initializeAuthorities]
  rw [if_neg (by simpa using hne), if_neg (by simp [hs]), if_neg (by omega)]
  split <;> exact ⟨_, rfl, rfl, rfl⟩

/-- **Set-id/session bookkeeping.**  After `initialize` with authorities, non-empty and
at most `MaxAuthorities`, and any `k` sessions: the set id is `k`, `SetIdSession` maps it
to the last session and holds exactly the set ids `j` with `k - M < j ≤ k`, so at most
`M = max(MaxSetIdSessionEntries, 1)` entries, and `try_state_validators` passes. -/
theorem setIdSession_window (authorities : List B) (hne : authorities ≠ [])
    (hbound : authorities.length ≤ cfg.maxAuthorities) (sessions : List (List B × List B × ℕ)) :
    ∃ s₁, initializeAuthorities cfg commitments State.empty authorities = .ok s₁ ∧
      (onNewSessions cfg commitments s₁ sessions).validatorSetId = sessions.length ∧
      (∀ x ∈ sessions.getLast?,
        (onNewSessions cfg commitments s₁ sessions).setIdSession[sessions.length]? = some x.2.2) ∧
      (∀ j, j ∈ (onNewSessions cfg commitments s₁ sessions).setIdSession ↔
        sessions.length < j + max cfg.maxSetIdSessionEntries 1 ∧ j ≤ sessions.length) ∧
      (onNewSessions cfg commitments s₁ sessions).setIdSession.size ≤
        max cfg.maxSetIdSessionEntries 1 ∧
      tryStateValidators (onNewSessions cfg commitments s₁ sessions) = .ok () := by
  obtain ⟨s₁, hinit, hid₁, hmap₁⟩ :=
    initializeAuthorities_eq_ok cfg commitments State.empty rfl hne hbound
  -- after `initialize` the window of set `0` is `{0}`
  have hw₁ : ∀ j, j ∈ s₁.setIdSession ↔ InWindow cfg s₁.validatorSetId j := by
    intro j
    rw [hmap₁, hid₁, InWindow, Std.TreeMap.mem_insert, Nat.compare_eq_eq]
    simp only [State.empty, Std.TreeMap.not_mem_emptyc, or_false]
    omega
  obtain ⟨hw, hid, hlast⟩ := onNewSessions_window cfg commitments hw₁ sessions
  rw [hid₁, zero_add] at hid
  have hwin : ∀ j, j ∈ (onNewSessions cfg commitments s₁ sessions).setIdSession ↔
      sessions.length < j + max cfg.maxSetIdSessionEntries 1 ∧ j ≤ sessions.length := by
    intro j
    rw [hw j, hid, InWindow]
  have hcur : sessions.length ∈ (onNewSessions cfg commitments s₁ sessions).setIdSession := by
    rw [hwin]
    omega
  refine ⟨s₁, hinit, hid, fun x hx => hid ▸ hlast x hx, hwin, size_le_of_window hwin, ?_⟩
  rw [tryStateValidators, if_pos]
  rw [hid, ← Std.TreeMap.mem_iff_isSome_getElem?]
  exact hcur

/-- Three sessions, one of them empty and one over `MaxAuthorities = 3`, with
`MaxSetIdSessionEntries = 2`. -/
theorem setIdSession_window_three_sessions :
    ([0] : List ℕ) ≠ [] ∧ ([0] : List ℕ).length ≤ 3 ∧
      ∃ s₁, initializeAuthorities ⟨3, 2⟩ [0] State.empty [0] = .ok s₁ ∧
        (onNewSessions ⟨3, 2⟩ [0] s₁
          [([0], [0], 1), ([], [], 2), ([0, 1, 2, 3, 4], [0], 3)]).setIdSession.size ≤ 2 ∧
        tryStateValidators (onNewSessions ⟨3, 2⟩ [0] s₁
          [([0], [0], 1), ([], [], 2), ([0, 1, 2, 3, 4], [0], 3)]) = .ok () := by
  obtain ⟨s₁, hinit, -, -, -, hsize, htry⟩ := setIdSession_window ⟨3, 2⟩ [0] [0] (by decide)
    (by decide) [([0], [0], 1), ([], [], 2), ([0, 1, 2, 3, 4], [0], 3)]
  exact ⟨by decide, by decide, s₁, hinit, hsize, htry⟩

end Pallet

end BeefyEtf
