/-
Voters and verifiers agree: what `Rounds` concludes, `verify_with_validator_set` accepts.

`justification.rs` has one `verify_with_validator_set` for each build.  Both zip the
signatures of a `SignedCommitment` with a list of keys and count the positions whose
signature verifies: the default build zips with `validators()`, the
`bls-experimental` build with `commitments()`.  `verifyWithKeys` is that common check,
with the key list as a parameter.

* `verifyWithKeys_eq_ok` — the check passes a proof whose length and set id match and
  enough of whose signatures verify under the keys at their positions;
* `signatures_of_addVote_eq_roundConcluded` — a round `add_vote` concludes has one slot
  per validator, the signature in slot `i` is a counted vote of `validators()[i]`, and at
  least `threshold` slots are filled;
* `concluded_verifies` — over any run whose accepted votes carry valid signatures,
  every concluded round passes the default build's verifier, and the
  `bls-experimental` one when the votes also verify under the commitment keys at their
  authors' positions.
-/
import BeefyEtf.RoundConclusion

namespace BeefyEtf

/-- `sp_consensus::Error`, as far as the verifier returns it. -/
inductive ConsensusError where
  | invalidJustification
  deriving DecidableEq, Repr

section Verify

variable {A S : Type*}

/-- The check of `verify_with_validator_set`, zipping the signatures with `keys`: `Ok`, or
the error with the number of signatures checked. -/
def verifyWithKeys (verify : A → S → Commitment → Bool) (keys : List A) (targetNumber : ℕ)
    (validatorSet : ValidatorSet A) (proof : VersionedFinalityProof S) :
    Except (ConsensusError × ℕ) Unit :=
  match proof with
  | .v1 signedCommitment =>
    if signedCommitment.signatures.length ≠ validatorSet.len ∨
        signedCommitment.commitment.validatorSetId ≠ validatorSet.id ∨
        signedCommitment.commitment.blockNumber ≠ targetNumber then
      .error (.invalidJustification, 0)
    else
      -- the `filter` visits every pair, and counts each signature it checks
      let pairs := keys.zip signedCommitment.signatures
      let validSignatures := (pairs.filter fun p =>
        p.2.any fun sig => verify p.1 sig signedCommitment.commitment).length
      let signaturesChecked := (pairs.filter fun p => p.2.isSome).length
      if threshold validatorSet.len ≤ validSignatures then .ok ()
      else .error (.invalidJustification, signaturesChecked)

namespace Ecdsa

/-- `verify_with_validator_set` of the default build: position `i` is checked against
`validators()[i]`. -/
def verifyWithValidatorSet (verify : A → S → Commitment → Bool) (targetNumber : ℕ)
    (validatorSet : ValidatorSet A) (proof : VersionedFinalityProof S) :
    Except (ConsensusError × ℕ) Unit :=
  verifyWithKeys verify validatorSet.validators targetNumber validatorSet proof

end Ecdsa

namespace BlsExperimental

/-- `verify_with_validator_set` of the `bls-experimental` build: position `i` is checked
against `commitments()[i]`. -/
def verifyWithValidatorSet (verify : A → S → Commitment → Bool) (targetNumber : ℕ)
    (validatorSet : ValidatorSet A) (proof : VersionedFinalityProof S) :
    Except (ConsensusError × ℕ) Unit :=
  verifyWithKeys verify validatorSet.commitments targetNumber validatorSet proof

end BlsExperimental

/-- Zipped with at least as many keys, every signature present is kept. -/
theorem length_filter_zip_isSome (keys : List A) (sigs : List (Option S))
    (h : sigs.length ≤ keys.length) :
    ((keys.zip sigs).filter fun p => p.2.isSome).length = (sigs.filter Option.isSome).length := by
  induction sigs generalizing keys with
  | nil => simp
  | cons o sigs ih =>
    cases keys with
    | nil => simp at h
    | cons k keys =>
      have ih' := ih keys (by simpa using h)
      cases o <;> simp [ih']

/-- When every signature present verifies under the key at its position, the verifier
counts every signature present. -/
theorem validSignatures_eq (verify : A → S → Commitment → Bool) (keys : List A)
    (sc : SignedCommitment S) (hlen : sc.signatures.length ≤ keys.length)
    (hpos : ∀ i (hi : i < sc.signatures.length) (hk : i < keys.length) (sig : S),
      sc.signatures[i] = some sig → verify keys[i] sig sc.commitment = true) :
    ((keys.zip sc.signatures).filter fun p =>
        p.2.any fun sig => verify p.1 sig sc.commitment).length =
      (sc.signatures.filter Option.isSome).length := by
  rw [← length_filter_zip_isSome keys sc.signatures hlen]
  congr 1
  refine List.filter_congr fun p hp => ?_
  obtain ⟨i, hi, rfl⟩ := List.getElem_of_mem hp
  have hlens : i < min keys.length sc.signatures.length := by
    rw [← List.length_zip]
    exact hi
  have hi₁ : i < keys.length := by omega
  have hi₂ : i < sc.signatures.length := by omega
  rw [List.getElem_zip]
  cases hsig : sc.signatures[i] with
  | none => rfl
  | some sig => simp [hpos i hi₂ hi₁ sig hsig]

/-- The verifier accepts a proof for its own block whose length and set id match, when
the signatures present verify under the keys at their positions and reach `threshold`. -/
theorem verifyWithKeys_eq_ok (verify : A → S → Commitment → Bool) (keys : List A)
    (validatorSet : ValidatorSet A) (sc : SignedCommitment S)
    (hlen : sc.signatures.length = validatorSet.len)
    (hset : sc.commitment.validatorSetId = validatorSet.id)
    (hkeys : validatorSet.len ≤ keys.length)
    (hpos : ∀ i (hi : i < sc.signatures.length) (hk : i < keys.length) (sig : S),
      sc.signatures[i] = some sig → verify keys[i] sig sc.commitment = true)
    (hcount : threshold validatorSet.len ≤ (sc.signatures.filter Option.isSome).length) :
    verifyWithKeys verify keys sc.commitment.blockNumber validatorSet (.v1 sc) = .ok () := by
  have hvalid := validSignatures_eq verify keys sc (hlen ▸ hkeys) hpos
  simp only [verifyWithKeys, hlen, hset, ne_eq, not_true_eq_false, or_self, if_false, hvalid]
  rw [if_pos hcount]

/-- A set of list members takes at least as many positions of the list. -/
theorem card_le_length_filter_mem [DecidableEq A] (l : List A) (X : Finset A)
    (hX : X ⊆ l.toFinset) : X.card ≤ (l.filter fun a => a ∈ X).length := by
  have hsub : X ⊆ (l.filter fun a => a ∈ X).toFinset := fun a ha => by
    simpa [ha] using hX ha
  exact (Finset.card_le_card hsub).trans (List.toFinset_card_le _)

end Verify

/-! ### What `Rounds` concludes -/

namespace Rounds

open Run

variable {A S : Type*} [Ord A] [Std.TransOrd A] [Std.LawfulEqOrd A] [DecidableEq A]

theorem getElem?_withVote (s : Rounds A S) (vote : VoteMessage A S) (a : A) :
    (s.withVote vote).votes[a]? =
      if vote.id = a then some vote.signature else (s.roundOf vote.commitment).votes[a]? := by
  rw [withVote, Std.TreeMap.getElem?_insert]
  simp

/-- A round concluded by `add_vote` in a valid state, from a good vote: one slot per
validator, slot `i` filled only with a good vote of `validators()[i]` for the
commitment, and at least `threshold` slots filled. -/
theorem signatures_of_addVote_eq_roundConcluded {good : VoteMessage A S → Prop}
    {s : Rounds A S} (hv : Valid good s) {vote : VoteMessage A S} {sc : SignedCommitment S}
    (h : (s.addVote vote).1 = .roundConcluded sc) (hgood : good vote) :
    sc.commitment = vote.commitment ∧ sc.signatures.length = s.validatorSet.len ∧
      (∀ i (hi : i < s.validators.length) (sig : S), sc.signatures[i]? = some (some sig) →
        good { commitment := sc.commitment, id := s.validators[i], signature := sig }) ∧
      threshold s.validatorSet.len ≤ (sc.signatures.filter Option.isSome).length := by
  have hc : s.Counts vote := addVote_isAccepted_iff.mp (by rw [h]; rfl)
  rw [addVote_of_counts hc] at h
  obtain ⟨hnew, ht, rfl⟩ := countVote_fst_eq_roundConcluded.mp h
  set rt := (s.recordVote vote).withVote vote with hrt
  -- a filled slot holds the vote itself or a signature already in the round
  have hslot : ∀ a sig, rt.votes[a]? = some sig →
      good { commitment := vote.commitment, id := a, signature := sig } ∧ a ∈ s.validators := by
    intro a sig ha
    rw [hrt, getElem?_withVote] at ha
    split at ha
    · rename_i hid
      cases ha
      subst hid
      exact ⟨hgood, hc.2.2.1⟩
    · obtain ⟨rt₀, hr, hsig⟩ := exists_of_getElem?_roundOf ha
      rw [recordVote_rounds] at hr
      obtain ⟨hg, ha', -⟩ := hv.entry _ rt₀ a sig hr hsig
      exact ⟨hg, ha'⟩
  refine ⟨rfl, by simp [signedCommitment, validators, ValidatorSet.len], fun i hi sig hsig => ?_, ?_⟩
  · have hi' : i < s.validatorSet.validators.length := hi
    have hsig' : rt.votes[s.validators[i]]? = some sig := by
      simpa [signedCommitment, validators, List.getElem?_map, hi'] using hsig
    exact (hslot _ _ hsig').1
  · -- the filled slots are the positions of the round's voters, each a member
    have hsub : rt.voters ⊆ s.validators.toFinset := fun a ha => by
      rw [RoundTracker.mem_voters] at ha
      obtain ⟨sig, hsig⟩ := Option.isSome_iff_exists.mp (Std.TreeMap.isSome_getElem?_iff_mem.mpr ha)
      exact List.mem_toFinset.mpr (hslot a sig hsig).2
    have hfill : ((s.recordVote vote).signedCommitment (vote.commitment, rt)).signatures.filter
        Option.isSome = ((s.validators.filter fun a => a ∈ rt.voters).map fun a => rt.votes[a]?) := by
      simp only [signedCommitment, validators, recordVote_validatorSet, List.filter_map]
      congr 1
      refine List.filter_congr fun a _ => ?_
      simp only [Function.comp_apply, RoundTracker.mem_voters, Std.TreeMap.isSome_getElem?_eq_contains]
      exact Bool.eq_iff_iff.mpr (by simp [Std.TreeMap.contains_iff_mem])
    calc threshold s.validatorSet.len ≤ rt.voters.card := by
          rw [RoundTracker.card_voters, hrt, size_withVote hnew]
          simpa using ht
      _ ≤ (s.validators.filter fun a => a ∈ rt.voters).length := card_le_length_filter_mem _ _ hsub
      _ = _ := by rw [hfill, List.length_map]

omit [Std.TransOrd A] [Std.LawfulEqOrd A] in
/-- A round concluded in a run was concluded by one of its `add_vote` calls. -/
theorem exists_of_mem_concluded {s : Rounds A S} {calls : List (Call A S)}
    {sc : SignedCommitment S} (h : sc ∈ concluded (runFrom call s calls).1) :
    ∃ k, ∃ hk : k < calls.length, ∃ vote, calls[k] = .addVote vote ∧
      ((runFrom call s (calls.take k)).2.addVote vote).1 = .roundConcluded sc := by
  obtain ⟨o, ho, hsc⟩ := List.mem_filterMap.mp h
  obtain ⟨k, hk, rfl⟩ := List.getElem_of_mem ho
  have hk' : k < calls.length := by simpa using hk
  have hget : (runFrom call s calls).1[k]? =
      some (call (runFrom call s (calls.take k)).2 calls[k]).1 := getElem?_runFrom s calls k hk'
  rw [List.getElem?_eq_getElem hk, Option.some.injEq] at hget
  rw [hget] at hsc
  refine ⟨k, hk', ?_⟩
  generalize calls[k] = c at hsc ⊢
  cases c with
  | addVote vote =>
    refine ⟨vote, rfl, ?_⟩
    cases hres : ((runFrom call s (calls.take k)).2.addVote vote).1 <;>
      simp [call, hres, concludedCommitment] at hsc ⊢
    exact hsc
  | conclude r => simp [call, concludedCommitment] at hsc

/-- **Voters and verifiers agree.**  Over every run of a session's rounds whose accepted
votes carry valid signatures, a concluded round has one slot per validator, slot `i`
holds the signature of an accepted vote of `validators()[i]` for its commitment, at least
`threshold` slots verify, and the default build's verifier accepts it.  The
`bls-experimental` verifier accepts it when every accepted vote also verifies under the
commitment key at each position its author holds, and every validator has a commitment
key. -/
theorem concluded_verifies (verify : A → S → Commitment → Bool) (sessionStart : ℕ)
    (vs : ValidatorSet A) (calls : List (Call A S))
    (hverify : ∀ v ∈ (trace call (Rounds.new sessionStart vs) calls).filterMap acceptedVote,
      verify v.id v.signature v.commitment = true) :
    ∀ sc ∈ concluded (runFrom call (Rounds.new sessionStart vs) calls).1,
      sc.signatures.length = vs.len ∧
      (∀ i (hi : i < vs.validators.length) (sig : S), sc.signatures[i]? = some (some sig) →
        { commitment := sc.commitment, id := vs.validators[i], signature := sig } ∈
          (trace call (Rounds.new sessionStart vs) calls).filterMap acceptedVote) ∧
      threshold vs.len ≤ ((vs.validators.zip sc.signatures).filter fun p =>
        p.2.any fun sig => verify p.1 sig sc.commitment).length ∧
      Ecdsa.verifyWithValidatorSet verify sc.commitment.blockNumber vs (.v1 sc) = .ok () ∧
      ((∀ v ∈ (trace call (Rounds.new sessionStart vs) calls).filterMap acceptedVote,
          ∀ i (hi : i < vs.validators.length) (hk : i < vs.commitments.length),
            vs.validators[i] = v.id → verify vs.commitments[i] v.signature v.commitment = true) →
        vs.len ≤ vs.commitments.length →
        BlsExperimental.verifyWithValidatorSet verify sc.commitment.blockNumber vs (.v1 sc) =
          .ok ()) := by
  intro sc hsc
  set accepted := (trace call (Rounds.new sessionStart vs) calls).filterMap acceptedVote
  -- every prefix of the run is valid, a counted vote being an accepted one
  have hvalid : ∀ k ≤ calls.length,
      Valid (· ∈ accepted) (runFrom call (Rounds.new sessionStart vs) (calls.take k)).2 := by
    refine runFrom_take_invariant (valid_new sessionStart vs) calls fun k hk hv => ?_
    have hmem : (calls[k], (call (runFrom call (Rounds.new sessionStart vs)
        (calls.take k)).2 calls[k]).1) ∈ trace call (Rounds.new sessionStart vs) calls :=
      mem_trace (Rounds.new sessionStart vs) calls k hk
    generalize calls[k] = c at hmem ⊢
    cases c with
    | addVote vote =>
      refine valid_addVote hv fun hcnt => List.mem_filterMap.mpr ⟨_, hmem, ?_⟩
      simp [call, acceptedVote, addVote_isAccepted_of_counts hcnt]
    | conclude r => exact valid_conclude hv r
  obtain ⟨k, hk, vote, hck, hres⟩ := exists_of_mem_concluded hsc
  have hgood : vote ∈ accepted := by
    refine List.mem_filterMap.mpr ⟨_, mem_trace (Rounds.new sessionStart vs) calls k hk, ?_⟩
    simp [hck, call, acceptedVote, hres, VoteImportResult.isAccepted]
  obtain ⟨hcomm, hlen, hslots, hcount⟩ :=
    signatures_of_addVote_eq_roundConcluded (hvalid k hk.le) hres hgood
  have hvs : (runFrom call (Rounds.new sessionStart vs) (calls.take k)).2.validatorSet = vs := by
    rw [validatorSet_runFrom]
    rfl
  have hset : sc.commitment.validatorSetId = vs.id := by
    rw [hcomm, (addVote_fst_eq_roundConcluded hres).1.2.1]
    simp [validatorSetId, hvs]
  rw [hvs] at hlen hcount
  have hslots' : ∀ i (hi : i < vs.validators.length) (sig : S),
      sc.signatures[i]? = some (some sig) →
        { commitment := sc.commitment, id := vs.validators[i], signature := sig } ∈ accepted := by
    intro i hi sig hsig
    have h := hslots i (by simpa [validators, hvs] using hi) sig hsig
    simpa [validators, hvs] using h
  -- a signature present at position `i` verifies under `validators()[i]`
  have hpos : ∀ i (hi : i < sc.signatures.length) (hk : i < vs.validators.length) (sig : S),
      sc.signatures[i] = some sig → verify vs.validators[i] sig sc.commitment = true :=
    fun i hi hk sig hsig =>
      hverify _ (hslots' i hk sig (by rw [List.getElem?_eq_getElem hi, hsig]))
  refine ⟨hlen, hslots', ?_, verifyWithKeys_eq_ok verify _ vs sc hlen hset le_rfl hpos hcount,
    fun hbls hkeys => verifyWithKeys_eq_ok verify _ vs sc hlen hset hkeys ?_ hcount⟩
  · rw [validSignatures_eq verify _ sc (by rw [hlen]; rfl) hpos]
    exact hcount
  · intro i hi hk sig hsig
    have hi' : i < vs.validators.length := by rw [← ValidatorSet.len, ← hlen]; exact hi
    exact hbls _ (hslots' i hi' sig (by rw [List.getElem?_eq_getElem hi, hsig])) i hi' hk rfl

/-- Two validators whose commitment keys are their ids, signatures that are the signer's
id: both votes verify, and both verifiers accept the round they conclude. -/
theorem concluded_verifies_two_voters :
    Ecdsa.verifyWithValidatorSet (fun a sig _ => a == sig) 1 ⟨[0, 1], [0, 1], 0⟩
        (.v1 ⟨⟨⟨[]⟩, 1, 0⟩, [some 0, some 1]⟩) = .ok () ∧
      BlsExperimental.verifyWithValidatorSet (fun a sig _ => a == sig) 1 ⟨[0, 1], [0, 1], 0⟩
        (.v1 ⟨⟨⟨[]⟩, 1, 0⟩, [some 0, some 1]⟩) = .ok () := by
  have hverify : ∀ v ∈ (trace call (Rounds.new 1 ⟨[0, 1], [0, 1], 0⟩ : Rounds ℕ ℕ)
      [.addVote ⟨⟨⟨[]⟩, 1, 0⟩, 0, 0⟩, .addVote ⟨⟨⟨[]⟩, 1, 0⟩, 1, 1⟩]).filterMap acceptedVote,
      (v.id == v.signature) = true := by decide
  have h := concluded_verifies (fun a sig _ => a == sig) 1 ⟨[0, 1], [0, 1], 0⟩
    [.addVote ⟨⟨⟨[]⟩, 1, 0⟩, 0, 0⟩, .addVote ⟨⟨⟨[]⟩, 1, 0⟩, 1, 1⟩] hverify
    ⟨⟨⟨[]⟩, 1, 0⟩, [some 0, some 1]⟩ (by decide)
  exact ⟨h.2.2.2.1, h.2.2.2.2 (fun v hv i hi hk heq => by simpa [heq] using hverify v hv)
    le_rfl⟩

/-- In the `bls-experimental` build a round concluded from valid votes is rejected when a
validator's commitment key is not its id: the signature at position 0 is checked
against `commitments()[0]`. -/
theorem concluded_rejected_by_commitment_keys :
    (∀ v ∈ (trace call (Rounds.new 1 ⟨[0], [1], 0⟩ : Rounds ℕ ℕ)
        [.addVote ⟨⟨⟨[]⟩, 1, 0⟩, 0, 0⟩]).filterMap acceptedVote, (v.id == v.signature) = true) ∧
      (⟨⟨⟨[]⟩, 1, 0⟩, [some 0]⟩ : SignedCommitment ℕ) ∈
        concluded (runFrom call (Rounds.new 1 ⟨[0], [1], 0⟩ : Rounds ℕ ℕ)
          [.addVote ⟨⟨⟨[]⟩, 1, 0⟩, 0, 0⟩]).1 ∧
      BlsExperimental.verifyWithValidatorSet (fun a sig _ => a == sig) 1 ⟨[0], [1], 0⟩
        (.v1 ⟨⟨⟨[]⟩, 1, 0⟩, [some 0]⟩) = .error (.invalidJustification, 1) := by
  decide

end Rounds

end BeefyEtf
