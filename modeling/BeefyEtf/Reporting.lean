/-
From a detected equivocation to the offence on chain (`BeefyWorker::report_equivocation` of
`worker.rs`, with the pallet's `publish_evidence` of `pallets/beefy-etf/src/equivocation.rs`).

When the front session's `add_vote` reports an equivocation, the worker hands the proof to
`report_equivocation`: it checks the proof, skips our own equivocation, asks the backend for
the hash of the round's block and the runtime for a key ownership proof of the offender at
that block, and has the runtime submit an unsigned `report_equivocation_unsigned` extrinsic,
which the transaction pool validates as coming from the node itself.

* `firstVotesGood_afterCalls` — over any run of a session's rounds in which every vote
  added is signed, every first vote filed is signed;
* `detected_equivocation_punished` — an equivocation the front session detects among signed
  votes is submitted by `report_equivocation`, admitted by the pool, and its dispatch reports
  the offence of the equivocating authority for its set id and round.
-/
import BeefyEtf.RoundRuns
import BeefyEtf.Oracle
import BeefyEtf.Equivocation

namespace BeefyEtf

namespace Rounds

open Run

variable {A S : Type*} [Ord A] [Std.TransOrd A] [Std.LawfulEqOrd A] [DecidableEq A]
  {good : VoteMessage A S → Prop}

/-- Every first vote a session holds is good. -/
def FirstVotesGood (good : VoteMessage A S → Prop) (s : Rounds A S) : Prop :=
  ∀ (k : A × ℕ) (u : VoteMessage A S), s.previousVotes[k]? = some u → good u

/-- `add_vote` files only the vote it counts. -/
theorem FirstVotesGood.addVote {s : Rounds A S} (h : FirstVotesGood good s)
    {vote : VoteMessage A S} (hg : s.Counts vote → good vote) :
    FirstVotesGood good (s.addVote vote).2 := by
  by_cases hc : s.Counts vote
  swap
  · rw [addVote_snd_of_not_counts hc]
    exact h
  rw [addVote_of_counts hc]
  intro k u hk
  rw [countVote_previousVotes] at hk
  by_cases hkey : k = (vote.id, vote.commitment.blockNumber)
  · -- the vote's own key: the first vote already there, or this one
    subst hkey
    rw [recordVote_previousVotes_self] at hk
    cases hold : s.previousVotes[(vote.id, vote.commitment.blockNumber)]? with
    | none =>
      simp only [hold, Option.getD_none, Option.some.injEq] at hk
      exact hk ▸ hg hc
    | some w =>
      simp only [hold, Option.getD_some, Option.some.injEq] at hk
      exact hk ▸ h _ w hold
  · rw [recordVote_previousVotes_of_ne hkey] at hk
    exact h k u hk

omit [DecidableEq A] in
theorem FirstVotesGood.conclude {s : Rounds A S} (h : FirstVotesGood good s) (roundNum : ℕ) :
    FirstVotesGood good (s.conclude roundNum) := by
  intro k u hk
  rw [conclude_previousVotes_getElem?] at hk
  split at hk
  · exact h k u hk
  · cases hk

/-- Over any run of a session's rounds in which every vote added is good, every first vote
filed is good. -/
theorem firstVotesGood_afterCalls (sessionStart : ℕ) (vs : ValidatorSet A)
    {calls : List (Call A S)} (hcalls : ∀ vote, Call.addVote vote ∈ calls → good vote) :
    FirstVotesGood good (afterCalls sessionStart vs calls) := by
  refine @runFrom_invariant_mem _ _ _ call (FirstVotesGood good) calls
    (fun s c hc hs => ?_) _ (fun k u hk => by simp [Rounds.new] at hk)
  cases c with
  | addVote vote => exact hs.addVote fun _ => hcalls vote hc
  | conclude roundNum => exact hs.conclude roundNum

end Rounds

/-! ### Reporting an equivocation -/

/-- What `report_equivocation` reads of the node besides its voter state: the key store,
the backend's block hashes, and the runtime API at a block, whose calls can fail. -/
structure ReportEnv (A S H K : Type*) where
  /-- The key store's `authority_id`: our key among the validators, if any. -/
  authorityId : List A → Option A
  /-- `expect_block_hash_from_id`: the hash of a block number, or the backend's error. -/
  expectBlockHash : ℕ → Except String H
  /-- `generate_key_ownership_proof` at a block, for a set id and an authority: `None`
  when the authority is not part of the set. -/
  generateKeyOwnershipProof : H → ℕ → A → Except String (Option K)
  /-- The hash of the best block. -/
  bestHash : H
  /-- `submit_report_equivocation_unsigned_extrinsic` at a block: the runtime's
  `publish_evidence`, whose submission the pool validates. -/
  submitReportEquivocationUnsignedExtrinsic : H → EquivocationProof A S → K → Except String Unit

namespace Worker

variable {A S H K : Type*} [Ord A] [DecidableEq A] (verify : A → S → Commitment → Bool)
  (env : ReportEnv A S H K)

/-- `BeefyWorker::report_equivocation`: the extrinsic submitted, or `none` when the report is
skipped: a proof that does not check, our own equivocation, or an offender outside the set. -/
def reportEquivocation (o : VoterOracle A S) (proof : EquivocationProof A S) :
    Except Error (Option (Pallet.Call A S K)) :=
  match o.activeRounds with
  | .error e => .error e
  | .ok rounds =>
    let validators := rounds.validators
    let validatorSetId := rounds.validatorSetId
    let offenderId := proof.offenderId
    if !checkEquivocationProof verify proof then .ok none
    -- skip equivocation report for own equivocation
    else if env.authorityId validators = some offenderId then .ok none
    else
      let number := proof.roundNumber
      match env.expectBlockHash number with
      | .error err =>
        .error (.backend ("Couldn't get hash for block #" ++ toString number ++ " (error: " ++
          err ++ "), skipping report for equivocation"))
      | .ok hash =>
        -- generate key ownership proof at that block
        match env.generateKeyOwnershipProof hash validatorSetId offenderId with
        | .error e => .error (.runtimeApi e)
        | .ok none => .ok none
        | .ok (some keyOwnerProof) =>
          -- submit equivocation report at the best block
          match env.submitReportEquivocationUnsignedExtrinsic env.bestHash proof
              keyOwnerProof with
          | .error e => .error (.runtimeApi e)
          | .ok () => .ok (some (.reportEquivocationUnsigned proof keyOwnerProof))

/-- A proof that checks, of another authority than ours, whose round's block has a hash at
which the runtime proves the offender's key and submits the report: the report is the
unsigned extrinsic carrying the proof and the key owner proof. -/
theorem reportEquivocation_eq_submitted {o : VoterOracle A S} {rounds : Rounds A S}
    (hrounds : o.activeRounds = .ok rounds) {proof : EquivocationProof A S}
    (hcheck : checkEquivocationProof verify proof = true)
    (hown : env.authorityId rounds.validators ≠ some proof.offenderId) {hash : H}
    (hhash : env.expectBlockHash proof.roundNumber = .ok hash) {keyOwnerProof : K}
    (hkey : env.generateKeyOwnershipProof hash rounds.validatorSetId proof.offenderId =
      .ok (some keyOwnerProof))
    (hsubmit : env.submitReportEquivocationUnsignedExtrinsic env.bestHash proof keyOwnerProof =
      .ok ()) :
    reportEquivocation verify env o proof =
      .ok (some (.reportEquivocationUnsigned proof keyOwnerProof)) := by
  simp [reportEquivocation, hrounds, hcheck, hown, hhash, hkey, hsubmit]

end Worker

/-! ### From the voter to the chain -/

section EndToEnd

variable {A S H K O R Acc : Type*} [Ord A] [Std.TransOrd A] [Std.LawfulEqOrd A] [DecidableEq A]
  (verify : A → S → Commitment → Bool) (sys : Pallet.ReportSystem A K O R Acc)
  (cfg : Pallet.Config) (commitments : List A) (env : ReportEnv A S H K)

/-- **A detected equivocation is punished.**  The front session of the voter has taken the
votes of a run of its rounds, each signed.  When a signed vote makes its `add_vote` report an
equivocation, the proof pairs the authority's first vote for the block with this one, in
the session's set.  Then, for a node whose key is not the offender's, whose backend has the
round's block, and whose runtime proves the offender's key there: `report_equivocation`
submits the unsigned report; and on a chain where `SetIdSession` maps the set id to the key
owner proof's session and the offence is new and taken by the offences pallet, the pool
admits the report, and its dispatch reports the offence of the equivocating authority for
the set id and the round, changing only the offences. -/
theorem detected_equivocation_punished (sessionStart : ℕ) (vs : ValidatorSet A)
    (calls : List (Rounds.Call A S))
    (hsigned : ∀ vote, Rounds.Call.addVote vote ∈ calls →
      verify vote.id vote.signature vote.commitment = true)
    (o : VoterOracle A S) (hfront : o.sessions.head? = some (Rounds.afterCalls sessionStart vs calls))
    (vote : VoteMessage A S) (hvote : verify vote.id vote.signature vote.commitment = true)
    {p : EquivocationProof A S}
    (hdetect : ((Rounds.afterCalls sessionStart vs calls).addVote vote).1 = .equivocation p)
    (hown : env.authorityId vs.validators ≠ some vote.id) {hash : H}
    (hhash : env.expectBlockHash vote.commitment.blockNumber = .ok hash) {keyOwnerProof : K}
    (hkey : env.generateKeyOwnershipProof hash vs.id vote.id = .ok (some keyOwnerProof))
    (hsubmit : env.submitReportEquivocationUnsignedExtrinsic env.bestHash p keyOwnerProof = .ok ())
    (st : Pallet.Storage A R) (blockNumber : ℕ) {offender : O} {offences' : R}
    (hproof : sys.checkProof vote.id keyOwnerProof = some offender)
    (hsession : st.pallet.setIdSession[vs.id]? = some (sys.session keyOwnerProof))
    (hnew : sys.isKnownOffence st.offences [offender] ⟨vs.id, vote.commitment.blockNumber⟩ =
      false)
    (htaken : sys.reportOffence st.offences sys.author.toList
      ⟨⟨vs.id, vote.commitment.blockNumber⟩, sys.session keyOwnerProof,
        sys.validatorCount keyOwnerProof, offender⟩ = .ok offences') :
    p.second = vote ∧ p.offenderId = vote.id ∧ p.setId = vs.id ∧
      p.roundNumber = vote.commitment.blockNumber ∧
      Worker.reportEquivocation verify env o p =
        .ok (some (.reportEquivocationUnsigned p keyOwnerProof)) ∧
      Pallet.validateUnsigned sys st.offences .local
          (.reportEquivocationUnsigned p keyOwnerProof) =
        .ok ⟨"BeefyEquivocation", Pallet.maxPriority,
          [(vote.id, vs.id, vote.commitment.blockNumber)], sys.longevity, false⟩ ∧
      Pallet.applyEvent verify sys cfg commitments st
          (.extrinsic blockNumber .none (.reportEquivocationUnsigned p keyOwnerProof)) =
        (some ⟨⟨vs.id, vote.commitment.blockNumber⟩, sys.session keyOwnerProof,
            sys.validatorCount keyOwnerProof, offender⟩,
          { st with offences := offences' }) := by
  set s := Rounds.afterCalls sessionStart vs calls with hs
  have hsetId : s.validatorSetId = vs.id := by
    simp [hs, Rounds.afterCalls, Rounds.validatorSetId, Rounds.new]
  have hvalidators : s.validators = vs.validators := by
    simp [hs, Rounds.afterCalls, Rounds.validators, Rounds.new]
  -- the voter's side: the first vote, filed and signed, and this one
  obtain ⟨-, hvset, -, u, hu, hpayload, rfl⟩ := Rounds.addVote_fst_eq_equivocation.mp hdetect
  obtain ⟨hid, hround, huset⟩ := (Rounds.valid_of_new sessionStart vs calls).previous _ u hu
  have hgood : Rounds.FirstVotesGood
      (fun v : VoteMessage A S => verify v.id v.signature v.commitment = true) s :=
    Rounds.firstVotesGood_afterCalls sessionStart vs hsigned
  have hfirst : verify u.id u.signature u.commitment = true := hgood _ u hu
  have hcheck : checkEquivocationProof verify ⟨u, vote⟩ = true := by
    rw [checkEquivocationProof_eq_verify verify hid hround (huset.trans hvset.symm) hpayload,
      hfirst, hvote]
    rfl
  have hoffender : (⟨u, vote⟩ : EquivocationProof A S).offenderId = vote.id := hid
  have hset : (⟨u, vote⟩ : EquivocationProof A S).setId = vs.id := huset.trans hsetId
  have hnum : (⟨u, vote⟩ : EquivocationProof A S).roundNumber = vote.commitment.blockNumber :=
    hround
  -- the node's side: the report is submitted
  have hrounds : o.activeRounds = .ok s := by
    simp [VoterOracle.activeRounds, hfront]
  have hreport := Worker.reportEquivocation_eq_submitted verify env hrounds hcheck
    (by rw [hvalidators, hoffender]; exact hown) (by rw [hnum]; exact hhash)
    (by rw [hsetId, hoffender]; exact hkey) hsubmit
  -- the chain's side
  obtain ⟨hpool, hevent⟩ := Pallet.equivocation_report_accepted verify sys cfg commitments st
    blockNumber ⟨u, vote⟩ keyOwnerProof offender offences' hid hround
    (huset.trans hvset.symm) hpayload hfirst hvote (by rw [hoffender]; exact hproof)
    (by rw [hset]; exact hsession) (by rw [hset, hnum]; exact hnew)
    (by rw [hset, hnum]; exact htaken)
  refine ⟨rfl, hoffender, hset, hnum, hreport, ?_, ?_⟩
  · rw [hpool, hoffender, hset, hnum]
  · rw [hevent, hset, hnum]

/-- Authority `0` of set `0` votes twice for block `1` with two payloads, seen by a node
whose key is authority `1`: the report is submitted, and the chain reports the offence. -/
theorem detected_equivocation_punished_double_vote :
    let verify : ℕ → ℕ → Commitment → Bool := fun _ _ _ => true
    let sys : Pallet.ReportSystem ℕ ℕ ℕ Unit ℕ :=
      ⟨fun b _ => some b, id, fun _ => 1, fun _ _ _ => false, fun r _ _ => .ok r, none, 0⟩
    let env : ReportEnv ℕ ℕ ℕ ℕ :=
      ⟨fun _ => some 1, fun n => .ok n, fun _ _ _ => .ok (some 0), 9, fun _ _ _ => .ok ()⟩
    let u : VoteMessage ℕ ℕ := ⟨⟨⟨[]⟩, 1, 0⟩, 0, 0⟩
    let vote : VoteMessage ℕ ℕ := ⟨⟨⟨[(#v[0, 0], [])]⟩, 1, 0⟩, 0, 0⟩
    let o : VoterOracle ℕ ℕ := ⟨[Rounds.afterCalls 1 ⟨[0, 1], [0, 1], 0⟩ [.addVote u]], 1, 5, 0⟩
    let st : Pallet.Storage ℕ Unit :=
      ⟨{ Pallet.State.empty with setIdSession := (∅ : Std.TreeMap ℕ ℕ).insert 0 0 }, none, ()⟩
    Worker.reportEquivocation verify env o ⟨u, vote⟩ =
        .ok (some (.reportEquivocationUnsigned ⟨u, vote⟩ 0)) ∧
      (Pallet.applyEvent verify sys ⟨3, 2⟩ [0] st
        (.extrinsic 5 .none (.reportEquivocationUnsigned ⟨u, vote⟩ 0))).1 =
        some ⟨⟨0, 1⟩, 0, 1, 0⟩ := by
  intro verify sys env u vote o st
  have hdetect : ((Rounds.afterCalls 1 ⟨[0, 1], [0, 1], 0⟩ [.addVote u] : Rounds ℕ ℕ).addVote
      vote).1 = .equivocation ⟨u, vote⟩ := by decide
  have h := detected_equivocation_punished verify sys ⟨3, 2⟩ [0] env 1 ⟨[0, 1], [0, 1], 0⟩
    [.addVote u] (fun _ _ => rfl) o rfl vote rfl hdetect (by decide) rfl rfl rfl st 5 rfl
    (by simp [st, sys]) rfl rfl
  refine ⟨h.2.2.2.2.1, ?_⟩
  rw [h.2.2.2.2.2.2]
  rfl

end EndToEnd

end BeefyEtf
