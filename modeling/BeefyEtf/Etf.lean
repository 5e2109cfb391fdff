/-
The self vote of the `bls-experimental` build (`client/consensus/beefy-etf/src/worker.rs`,
`keystore.rs`).

In this build the voter signs an empty ETF payload with a key it recovers from the share the
runtime holds for it (`etf_extract`, `BeefyKeystore::etf_sign`), and votes under the id the
runtime committed for it (`read_commitment`).  Three runtime answers and the key store decide
the path, and two `unwrap`s lie on it: of the key store in `etf_sign`, and of the committed id
in `get_signed_payload`.  A panic is `none` here.

* `etfExtract_ne_none` — the key store's `unwrap` is never reached from `do_vote`: with no
  key store there is no authority id to sign for;
* `doVote_eq_none_iff` — `do_vote` panics exactly when it reaches the signing step, the
  signature is recovered, and the runtime holds no commitment for our key;
* `etf_vote_panics_without_commitment` — otherwise `do_vote` returns `Ok` or `Err`, and when
  it produces no vote it leaves the worker as it was.

Design notes: the runtime answers at the target block are functions of its number, as the
model names blocks of the finalized chain by number; `commitment.encode()` and
`Signature::decode` are parameters, as elsewhere.
-/
import BeefyEtf.Worker
import BeefyEtf.Payload

namespace BeefyEtf

/-- What the runtime API answers at a block, as `Result`s whose error only matters as an
error: the validator set, the share held for an authority, and the id committed for it. -/
structure RuntimeApi (E A : Type*) where
  validatorSet : ℕ → Except E (Option (ValidatorSet A))
  readShare : ℕ → A → Except E (Option (List UInt8))
  readCommitment : ℕ → A → Except E (Option A)

/-- The key store behind `BeefyKeystore`: which BEEFY keys it holds, and `acss_recover`, which
recovers a signature of a message from a proof of knowledge. -/
structure Keystore (A : Type*) where
  hasKey : A → Bool
  acssRecover : A → List UInt8 → List UInt8 → UInt8 → Except Unit (List UInt8)

/-- `BeefyKeystore(Option<KeystorePtr>)`. -/
structure BeefyKeystore (A : Type*) where
  store : Option (Keystore A)

namespace BeefyKeystore

variable {A S : Type*}

/-- `BeefyKeystore::authority_id`: the first of `keys` the key store holds. -/
def authorityId (keyStore : BeefyKeystore A) (keys : List A) : Option A :=
  match keyStore.store with
  | none => none
  | some store => (keys.filter store.hasKey).head?

/-- `BeefyKeystore::etf_sign`: recover the signature of `message` from `pokBytes` and decode
it; `none` is the panic of the `unwrap` of a missing key store.  (The conversion of `public`
to a `bls377` key cannot fail: in this build the authority id is one.) -/
def etfSign (decodeSignature : List UInt8 → Except String (S × List UInt8))
    (keyStore : BeefyKeystore A) (publicKey : A) (pokBytes message : List UInt8)
    (threshold : UInt8) : Option (Except Error S) :=
  match keyStore.store with
  | none => none
  | some store =>
    match store.acssRecover publicKey pokBytes message threshold with
    | .error _ =>
      some (.error (.signature "Failed to recover a key from the provided proof of knowledge"))
    | .ok sig =>
      match decodeSignature sig with
      | .error _ => some (.error (.signature "invalid signature"))
      | .ok (signature, _) => some (.ok signature)

/-- With a key store, `etf_sign` does not panic. -/
theorem etfSign_ne_none (decodeSignature : List UInt8 → Except String (S × List UInt8))
    {keyStore : BeefyKeystore A} {store : Keystore A} (hstore : keyStore.store = some store)
    (publicKey : A) (pokBytes message : List UInt8) (threshold : UInt8) :
    etfSign decodeSignature keyStore publicKey pokBytes message threshold ≠ none := by
  unfold etfSign
  rw [hstore]
  dsimp only
  split
  · exact Option.some_ne_none _
  · split <;> exact Option.some_ne_none _

/-- `etf_sign` signs exactly when the key store recovers bytes that decode as a signature. -/
theorem etfSign_eq_some_ok_iff {decodeSignature : List UInt8 → Except String (S × List UInt8)}
    {keyStore : BeefyKeystore A} {publicKey : A} {pokBytes message : List UInt8}
    {threshold : UInt8} {signature : S} :
    etfSign decodeSignature keyStore publicKey pokBytes message threshold =
        some (.ok signature) ↔
      ∃ store sig rest, keyStore.store = some store ∧
        store.acssRecover publicKey pokBytes message threshold = .ok sig ∧
        decodeSignature sig = .ok (signature, rest) := by
  constructor
  · intro h
    unfold etfSign at h
    -- the key store, the recovery and the decoding in turn
    split at h
    · cases h
    rename_i store hstore
    split at h
    · cases h
    rename_i sig hsig
    split at h
    · cases h
    rename_i signature' rest hdecode
    cases h
    exact ⟨store, sig, rest, hstore, hsig, hdecode⟩
  · rintro ⟨store, sig, rest, hstore, hsig, hdecode⟩
    simp only [etfSign, hstore, hsig, hdecode]

/-- An authority id comes from a key store. -/
theorem store_of_authorityId {keyStore : BeefyKeystore A} {keys : List A} {authorityId : A}
    (h : keyStore.authorityId keys = some authorityId) : ∃ store, keyStore.store = some store := by
  unfold BeefyKeystore.authorityId at h
  split at h
  · cases h
  · rename_i store hstore
    exact ⟨store, hstore⟩

end BeefyKeystore

namespace Worker

variable {A S : Type*} [Ord A] [DecidableEq A] (env : Env A S)

/-- `do_vote` changes the worker only through a vote: unless `get_signed_payload` hands it a
signed commitment, it returns the worker as it was. -/
theorem doVote_fst_eq (getSignedPayload : ℕ → ℕ → A → Except Error (Option (S × A × Commitment)))
    (w : Worker A S) (targetNumber : ℕ) :
    (doVote env getSignedPayload w targetNumber).1 = w ∨
      ∃ rounds rest authorityId signed,
        w.persistedState.votingOracle.sessions = rounds :: rest ∧
        env.authorityId rounds.validators = some authorityId ∧
        getSignedPayload targetNumber rounds.validatorSetId authorityId = .ok (some signed) := by
  unfold doVote
  split
  · exact .inl rfl
  split
  · exact .inl rfl
  rename_i rounds rest hs
  split
  · exact .inl rfl
  rename_i authorityId ha
  split
  · exact .inl rfl
  · exact .inl rfl
  · -- a signed commitment: the vote
    rename_i signature id commitment hsigned
    exact .inr ⟨rounds, rest, authorityId, (signature, id, commitment), hs, ha, hsigned⟩

end Worker

namespace Etf

variable {E A S : Type*} (api : RuntimeApi E A)
  (decodeSignature : List UInt8 → Except String (S × List UInt8))

/-- `BeefyWorker::etf_extract`: recover our signature of `message` from the share the runtime
holds for `id`, with the number of validators, as a `u8`, for threshold; `none` is a panic of
`etf_sign`. -/
def etfExtract (keyStore : BeefyKeystore A) (hash : ℕ) (id : A) (message : List UInt8) :
    Option (Option S) :=
  match api.validatorSet hash with
  | .ok (some validatorSet) =>
    match api.readShare hash id with
    | .ok (some pokBytes) =>
      (keyStore.etfSign decodeSignature id pokBytes message
        (UInt8.ofNat validatorSet.len)).map Except.toOption
    | _ => some none
  | _ => some none

/-- The commitment `get_signed_payload` signs: an empty ETF payload at the target. -/
def etfCommitment (targetNumber validatorSetId : ℕ) : Commitment :=
  { payload := Payload.fromSingleEntry etfSignature []
    blockNumber := targetNumber
    validatorSetId := validatorSetId }

/-- `BeefyWorker::get_signed_payload` of the `bls-experimental` build: our signature of the
encoded commitment from `etf_extract`, with the id the runtime committed for us; `none` is a
panic, of `etf_sign` or of the `unwrap` of that id. -/
def getSignedPayload (encodeCommitment : Commitment → List UInt8) (keyStore : BeefyKeystore A)
    (targetNumber validatorSetId : ℕ) (authorityId : A) :
    Option (Except Error (Option (S × A × Commitment))) :=
  let commitment := etfCommitment targetNumber validatorSetId
  match etfExtract api decodeSignature keyStore targetNumber authorityId
      (encodeCommitment commitment) with
  | none => none
  | some none => some (.ok none)
  | some (some signature) =>
    -- it is a critical failure if there is no commitment available in the runtime
    match api.readCommitment targetNumber authorityId with
    | .error _ => some (.error .consensusReset)
    | .ok none => none
    | .ok (some etfAuthorityId) => some (.ok (some (signature, etfAuthorityId, commitment)))

/-- With a key store, `etf_extract` does not panic. -/
theorem etfExtract_ne_none {keyStore : BeefyKeystore A} {store : Keystore A}
    (hstore : keyStore.store = some store) (hash : ℕ) (id : A) (message : List UInt8) :
    etfExtract api decodeSignature keyStore hash id message ≠ none := by
  unfold etfExtract
  split
  · split
    · rw [Ne, Option.map_eq_none_iff]
      exact BeefyKeystore.etfSign_ne_none decodeSignature hstore _ _ _ _
    · exact Option.some_ne_none _
  · exact Option.some_ne_none _

/-- `etf_extract` recovers a signature exactly when the runtime holds a validator set and a
share for `id`, and the key store recovers from that share bytes that decode as a
signature. -/
theorem etfExtract_eq_some_some_iff {keyStore : BeefyKeystore A} {hash : ℕ} {id : A}
    {message : List UInt8} {signature : S} :
    etfExtract api decodeSignature keyStore hash id message = some (some signature) ↔
      ∃ validatorSet pokBytes store sig rest,
        api.validatorSet hash = .ok (some validatorSet) ∧
        api.readShare hash id = .ok (some pokBytes) ∧
        keyStore.store = some store ∧
        store.acssRecover id pokBytes message (UInt8.ofNat validatorSet.len) = .ok sig ∧
        decodeSignature sig = .ok (signature, rest) := by
  constructor
  · intro h
    unfold etfExtract at h
    -- the runtime answers a validator set and a share for `id`; the rest is `etf_sign`'s
    split at h
    · rename_i validatorSet hset
      split at h
      · rename_i pokBytes hshare
        obtain ⟨result, hsign, hresult⟩ := Option.map_eq_some_iff.mp h
        cases result with
        | error e => cases hresult
        | ok signature' =>
          cases hresult
          obtain ⟨store, sig, rest, hstore, hsig, hdecode⟩ :=
            BeefyKeystore.etfSign_eq_some_ok_iff.mp hsign
          exact ⟨validatorSet, pokBytes, store, sig, rest, hset, hshare, hstore, hsig, hdecode⟩
      · cases h
    · cases h
  · rintro ⟨validatorSet, pokBytes, store, sig, rest, hset, hshare, hstore, hsig, hdecode⟩
    have hsign := BeefyKeystore.etfSign_eq_some_ok_iff.mpr ⟨store, sig, rest, hstore, hsig, hdecode⟩
    simp only [etfExtract, hset, hshare, hsign]
    rfl

/-- `get_signed_payload` panics, once there is a key store, exactly when `etf_extract`
recovers the signature and the runtime holds no commitment for our key. -/
theorem getSignedPayload_eq_none_iff (encodeCommitment : Commitment → List UInt8)
    {keyStore : BeefyKeystore A} {store : Keystore A} (hstore : keyStore.store = some store)
    (targetNumber validatorSetId : ℕ) (authorityId : A) :
    getSignedPayload api decodeSignature encodeCommitment keyStore targetNumber validatorSetId
        authorityId = none ↔
      ∃ signature, etfExtract api decodeSignature keyStore targetNumber authorityId
          (encodeCommitment (etfCommitment targetNumber validatorSetId)) = some (some signature) ∧
        api.readCommitment targetNumber authorityId = .ok none := by
  unfold getSignedPayload
  dsimp only
  have hextract := etfExtract_ne_none api decodeSignature hstore targetNumber authorityId
    (encodeCommitment (etfCommitment targetNumber validatorSetId))
  rcases hx : etfExtract api decodeSignature keyStore targetNumber authorityId
      (encodeCommitment (etfCommitment targetNumber validatorSetId)) with _ | _ | signature
  · exact absurd hx hextract
  · simp
  · -- the signature is there: the committed id decides
    rcases hc : api.readCommitment targetNumber authorityId with _ | _ | etfAuthorityId <;> simp

variable [Ord A] [DecidableEq A] (env : Env A S) (encodeCommitment : Commitment → List UInt8)

/-- `BeefyWorker::do_vote` of the `bls-experimental` build: our key is the key store's, and
its `get_signed_payload` may panic, which ends the thread at that call; any answer it gives
goes on as in `doVote`. -/
def doVote (keyStore : BeefyKeystore A) (w : Worker A S) (targetNumber : ℕ) :
    Option (Worker A S × Except Error Unit) :=
  if targetNumber ≠ w.bestGrandpaBlock ∧ env.blockHash targetNumber = none then
    some (w, .error (.backend "Couldn't get hash for block, skipping vote.."))
  else
    match w.persistedState.votingOracle.sessions with
    | [] => some (w, .error .uninitSession)
    | rounds :: _ =>
      match keyStore.authorityId rounds.validators with
      | none => some (w, .ok ())
      | some authorityId =>
        (getSignedPayload api decodeSignature encodeCommitment keyStore targetNumber
            rounds.validatorSetId authorityId).map fun signed =>
          Worker.doVote { env with authorityId := keyStore.authorityId }
            (fun _ _ _ => signed) w targetNumber

/-- `do_vote` reaches `get_signed_payload` past the target header, the front session and our
key; what it answers is then what `doVote` makes of it. -/
theorem doVote_of_authorityId {keyStore : BeefyKeystore A} {w : Worker A S} {targetNumber : ℕ}
    {rounds : Rounds A S} {rest : List (Rounds A S)} {authorityId : A}
    (hhash : ¬(targetNumber ≠ w.bestGrandpaBlock ∧ env.blockHash targetNumber = none))
    (hs : w.persistedState.votingOracle.sessions = rounds :: rest)
    (ha : keyStore.authorityId rounds.validators = some authorityId) :
    doVote api decodeSignature env encodeCommitment keyStore w targetNumber =
      (getSignedPayload api decodeSignature encodeCommitment keyStore targetNumber
          rounds.validatorSetId authorityId).map fun signed =>
        Worker.doVote { env with authorityId := keyStore.authorityId }
          (fun _ _ _ => signed) w targetNumber := by
  unfold doVote
  rw [if_neg hhash, hs]
  dsimp only
  rw [ha]

/-- `do_vote` either returns the worker as it was before it reaches `get_signed_payload`, or
reaches it. -/
theorem doVote_cases (keyStore : BeefyKeystore A) (w : Worker A S) (targetNumber : ℕ) :
    (∃ result, doVote api decodeSignature env encodeCommitment keyStore w targetNumber =
      some (w, result)) ∨
    ∃ rounds rest authorityId,
      ¬(targetNumber ≠ w.bestGrandpaBlock ∧ env.blockHash targetNumber = none) ∧
      w.persistedState.votingOracle.sessions = rounds :: rest ∧
      keyStore.authorityId rounds.validators = some authorityId := by
  unfold doVote
  split
  · exact .inl ⟨_, rfl⟩
  rename_i hhash
  split
  · exact .inl ⟨_, rfl⟩
  rename_i rounds rest hs
  split
  · exact .inl ⟨_, rfl⟩
  rename_i authorityId ha
  exact .inr ⟨rounds, rest, authorityId, hhash, hs, ha⟩

/-- `do_vote` panics exactly when it reaches `get_signed_payload`, past the target header,
the front session and our key, and that call panics. -/
theorem doVote_eq_none_iff (keyStore : BeefyKeystore A) (w : Worker A S) (targetNumber : ℕ) :
    doVote api decodeSignature env encodeCommitment keyStore w targetNumber = none ↔
      ¬(targetNumber ≠ w.bestGrandpaBlock ∧ env.blockHash targetNumber = none) ∧
      ∃ rounds rest authorityId,
        w.persistedState.votingOracle.sessions = rounds :: rest ∧
        keyStore.authorityId rounds.validators = some authorityId ∧
        getSignedPayload api decodeSignature encodeCommitment keyStore targetNumber
          rounds.validatorSetId authorityId = none := by
  constructor
  · intro hnone
    rcases doVote_cases api decodeSignature env encodeCommitment keyStore w targetNumber with
      ⟨result, hsome⟩ | ⟨rounds, rest, authorityId, hhash, hs, ha⟩
    · rw [hsome] at hnone
      cases hnone
    · rw [doVote_of_authorityId api decodeSignature env encodeCommitment hhash hs ha,
        Option.map_eq_none_iff] at hnone
      exact ⟨hhash, rounds, rest, authorityId, hs, ha, hnone⟩
  · rintro ⟨hhash, rounds, rest, authorityId, hs, ha, hnone⟩
    rw [doVote_of_authorityId api decodeSignature env encodeCommitment hhash hs ha, hnone]
    rfl

/-- What `do_vote` returns, when it does, is the worker as it was unless `get_signed_payload`
handed it a signed commitment. -/
theorem doVote_eq_some {keyStore : BeefyKeystore A} {w w' : Worker A S} {targetNumber : ℕ}
    {result : Except Error Unit}
    (h : doVote api decodeSignature env encodeCommitment keyStore w targetNumber =
      some (w', result)) :
    w' = w ∨ ∃ rounds rest authorityId signed,
      w.persistedState.votingOracle.sessions = rounds :: rest ∧
      keyStore.authorityId rounds.validators = some authorityId ∧
      getSignedPayload api decodeSignature encodeCommitment keyStore targetNumber
        rounds.validatorSetId authorityId = some (.ok (some signed)) := by
  rcases doVote_cases api decodeSignature env encodeCommitment keyStore w targetNumber with
    ⟨result', hsome⟩ | ⟨rounds, rest, authorityId, hhash, hs, ha⟩
  · rw [hsome, Option.some_inj] at h
    exact .inl (congrArg Prod.fst h).symm
  rw [doVote_of_authorityId api decodeSignature env encodeCommitment hhash hs ha] at h
  obtain ⟨signed, hsigned, hvote⟩ := Option.map_eq_some_iff.mp h
  -- past the call, `doVote` with the answer given changes the worker only through a vote
  rcases Worker.doVote_fst_eq { env with authorityId := keyStore.authorityId }
      (fun _ _ _ => signed) w targetNumber with hsame | ⟨rounds', rest', authorityId', vote,
      hs', ha', hanswer⟩
  · rw [hvote] at hsame
    exact .inl hsame
  · -- the vote is for the same session and key
    rw [hs] at hs'
    have hrounds : rounds' = rounds := (List.cons.inj hs').1.symm
    subst hrounds
    have hkey : authorityId' = authorityId := Option.some.inj (ha'.symm.trans ha)
    subst hkey
    exact .inr ⟨rounds', rest, authorityId', vote, hs, ha, hsigned.trans (congrArg some hanswer)⟩

/-- **The ETF self vote can panic.**  In the `bls-experimental` build `do_vote` panics exactly
when it gets past the target header, the front session and our key, the runtime answers a
validator set and a share for our key, the key store recovers from that share bytes that
decode as a signature of the ETF commitment, and the runtime holds no commitment for our key
(`read_commitment` answers `Ok(None)`, which `get_signed_payload` unwraps).  Otherwise it
returns `Ok` or `Err`, and unless `get_signed_payload` produced a vote the worker is as it
was: best voted block, oracle and sessions included. -/
theorem etf_vote_panics_without_commitment (keyStore : BeefyKeystore A) (w : Worker A S)
    (targetNumber : ℕ) :
    (doVote api decodeSignature env encodeCommitment keyStore w targetNumber = none ↔
      ¬(targetNumber ≠ w.bestGrandpaBlock ∧ env.blockHash targetNumber = none) ∧
      ∃ rounds rest authorityId,
        w.persistedState.votingOracle.sessions = rounds :: rest ∧
        keyStore.authorityId rounds.validators = some authorityId ∧
        (∃ validatorSet pokBytes store sig signature rest',
          api.validatorSet targetNumber = .ok (some validatorSet) ∧
          api.readShare targetNumber authorityId = .ok (some pokBytes) ∧
          keyStore.store = some store ∧
          store.acssRecover authorityId pokBytes
            (encodeCommitment (etfCommitment targetNumber rounds.validatorSetId))
            (UInt8.ofNat validatorSet.len) = .ok sig ∧
          decodeSignature sig = .ok (signature, rest')) ∧
        api.readCommitment targetNumber authorityId = .ok none) ∧
    ∀ w' result, doVote api decodeSignature env encodeCommitment keyStore w targetNumber =
        some (w', result) →
      w' = w ∨ ∃ rounds rest authorityId signed,
        w.persistedState.votingOracle.sessions = rounds :: rest ∧
        keyStore.authorityId rounds.validators = some authorityId ∧
        getSignedPayload api decodeSignature encodeCommitment keyStore targetNumber
          rounds.validatorSetId authorityId = some (.ok (some signed)) := by
  refine ⟨?_, fun w' result h => doVote_eq_some api decodeSignature env encodeCommitment h⟩
  rw [doVote_eq_none_iff]
  apply and_congr_right
  intro _
  constructor
  · rintro ⟨rounds, rest, authorityId, hs, ha, hnone⟩
    obtain ⟨store, hstore⟩ := BeefyKeystore.store_of_authorityId ha
    obtain ⟨signature, hextract, hcommit⟩ :=
      (getSignedPayload_eq_none_iff api decodeSignature encodeCommitment hstore _ _ _).mp hnone
    obtain ⟨validatorSet, pokBytes, store', sig, rest', hset, hshare, hstore', hsig, hdecode⟩ :=
      (etfExtract_eq_some_some_iff api decodeSignature).mp hextract
    exact ⟨rounds, rest, authorityId, hs, ha,
      ⟨validatorSet, pokBytes, store', sig, signature, rest', hset, hshare, hstore', hsig, hdecode⟩,
      hcommit⟩
  · rintro ⟨rounds, rest, authorityId, hs, ha, ⟨validatorSet, pokBytes, store, sig, signature,
      rest', hset, hshare, hstore, hsig, hdecode⟩, hcommit⟩
    refine ⟨rounds, rest, authorityId, hs, ha, ?_⟩
    have hextract := (etfExtract_eq_some_some_iff api decodeSignature).mpr
      ⟨validatorSet, pokBytes, store, sig, rest', hset, hshare, hstore, hsig, hdecode⟩
    exact (getSignedPayload_eq_none_iff api decodeSignature encodeCommitment hstore _ _ _).mpr
      ⟨signature, hextract, hcommit⟩

/-- A worker on a chain of one session, from block `1`, of validator `0`, whose best GRANDPA
block is `1`. -/
def oneSessionWorker : Worker ℕ ℕ where
  persistedState :=
    { bestVoted := 0
      votingOracle :=
        { sessions := [Rounds.new 1 ⟨[0], [0], 0⟩]
          minBlockDelta := 1
          bestGrandpaBlock := 1
          bestBeefyBlock := 0 }
      palletGenesis := 1 }
  pendingJustifications := ∅
  gossipFilter := none
  rpcBestBlocks := []
  rpcJustifications := []
  gossipedVotes := []
  gossipedProofs := []
  finalized := []

/-- A runtime that holds a validator set and a share for every key, and no commitment. -/
def runtimeWithoutCommitment : RuntimeApi Unit ℕ where
  validatorSet _ := .ok (some ⟨[0], [0], 0⟩)
  readShare _ _ := .ok (some [1])
  readCommitment _ _ := .ok none

/-- A key store that holds every key and recovers the bytes `[7]` from any share. -/
def recoveringKeystore : BeefyKeystore ℕ := ⟨some ⟨fun _ => true, fun _ _ _ _ => .ok [7]⟩⟩

/-- Without a key store the self vote of `oneSessionWorker` on block `1` returns `Ok` and
leaves the worker as it was. -/
theorem etf_vote_without_key_store :
    doVote runtimeWithoutCommitment (fun _ => .ok (0, []))
        ⟨fun _ => .ok (), fun _ => none, fun _ => none, fun _ => none, fun _ => .ok ()⟩
        (fun _ => []) ⟨none⟩ oneSessionWorker 1 = some (oneSessionWorker, .ok ()) ∧
      (oneSessionWorker = oneSessionWorker ∨ ∃ rounds rest authorityId signed,
        oneSessionWorker.persistedState.votingOracle.sessions = rounds :: rest ∧
        BeefyKeystore.authorityId ⟨none⟩ rounds.validators = some authorityId ∧
        getSignedPayload runtimeWithoutCommitment (fun _ => .ok (0, [])) (fun _ => [])
          ⟨none⟩ 1 rounds.validatorSetId authorityId = some (.ok (some signed))) := by
  have hvote : doVote runtimeWithoutCommitment (fun _ => .ok (0, []))
      ⟨fun _ => .ok (), fun _ => none, fun _ => none, fun _ => none, fun _ => .ok ()⟩
      (fun _ => []) ⟨none⟩ oneSessionWorker 1 = some (oneSessionWorker, .ok ()) := rfl
  exact ⟨hvote, (etf_vote_panics_without_commitment runtimeWithoutCommitment _ _ _ ⟨none⟩
    oneSessionWorker 1).2 _ _ hvote⟩

/-- **The self vote panics** on a runtime that holds a share but no commitment for our key:
the key store recovers a signature and `get_signed_payload` unwraps the `Ok(None)` of
`read_commitment`. -/
theorem etf_vote_panics_at_missing_commitment :
    doVote runtimeWithoutCommitment (fun _ => .ok (0, []))
      ⟨fun _ => .ok (), fun _ => none, fun _ => none, fun _ => none, fun _ => .ok ()⟩
      (fun _ => []) recoveringKeystore oneSessionWorker 1 = none :=
  rfl

end Etf

end BeefyEtf
