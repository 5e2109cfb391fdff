/-
The voter's aux-db schema (`aux_schema.rs`).

The voter keeps two values in the backend's aux storage: the schema version under
`VERSION_KEY`, SCALE-encoded as a `u32`, and its `PersistedState` under `WORKER_STATE_KEY`.
`load_persistent` reads the state only under the current version `4`: no version, or one of
the obsolete versions `1` to `3`, reads as nothing stored, and any other version is an
error naming it.

The backend is a parameter, `AuxBackend`: `get_aux` and `insert_aux` over its state, each
of which can fail with the backend's message.  What the results assume of it is the law
`AuxStore` documents, `AuxBackend.Lawful`: over what the backend stores, a read that
succeeds returns the value stored, and an insert that succeeds stores the pairs inserted and
leaves every other key.  The in-memory `AuxDb` is one such backend.  The state's SCALE codec
is a parameter too.

* `decodeU32_encodeU32` — the version's codec round-trips;
* `load_after_writes` — after writes of the voter that succeed, one of them of the current
  version, the state loaded is the last one written, unless a read fails;
* `obsolete_schema_reads_empty` — a database with no version or an obsolete one reads as
  empty after any writes of voter states alone, unless the read of the version fails;
* `restart_resumes_last_written` — so a restart resumes from the last state written when
  its pallet genesis is the one the runtime reports, and builds a state afresh otherwise;
  or it fails with the backend's message.
-/
import BeefyEtf.Startup

namespace BeefyEtf

namespace AuxSchema

/-- `VERSION_KEY = b"beefy_auxschema_version"`, an ASCII byte string. -/
def versionKey : List UInt8 := "beefy_auxschema_version".toList.map Char.toUInt8

/-- `WORKER_STATE_KEY = b"beefy_voter_state"`. -/
def workerStateKey : List UInt8 := "beefy_voter_state".toList.map Char.toUInt8

/-- `CURRENT_VERSION`. -/
def currentVersion : UInt32 := 4

theorem versionKey_ne_workerStateKey : versionKey ≠ workerStateKey := by decide

/-- The backend's aux storage as `AuxStore` offers it, over the backend's state `σ`: a read of
a key, and an insert of pairs followed by deletions of keys.  Both can fail with the backend's
message. -/
structure AuxBackend (σ : Type*) where
  getAux : σ → List UInt8 → Except String (Option (List UInt8))
  insertAux : σ → List (List UInt8 × List UInt8) → List (List UInt8) → Except String σ

/-- The value under `key` after inserting pairs, the last one for a key winning, then deleting
keys, where `old` was stored. -/
def insertedValue (insert : List (List UInt8 × List UInt8)) (delete : List (List UInt8))
    (old : Option (List UInt8)) (key : List UInt8) : Option (List UInt8) :=
  if key ∈ delete then none
  else ((insert.reverse.find? fun kv => kv.1 == key).map Prod.snd).or old

@[simp]
theorem insertedValue_single (key value : List UInt8) (old : Option (List UInt8))
    (k : List UInt8) :
    insertedValue [(key, value)] [] old k = if k = key then some value else old := by
  by_cases h : k = key
  · subst h
    simp [insertedValue]
  · simp [insertedValue, h, Ne.symm h]

/-- What `AuxStore` documents, over `contents`, what the backend stores under each key: a
read that succeeds returns the value stored, and an insert that succeeds stores the pairs
inserted, deletions after insertions, and leaves every other key as it was. -/
structure AuxBackend.Lawful {σ : Type*} (backend : AuxBackend σ)
    (contents : σ → List UInt8 → Option (List UInt8)) : Prop where
  getAux_eq : ∀ s key v, backend.getAux s key = .ok v → v = contents s key
  contents_insertAux : ∀ s s' insert delete, backend.insertAux s insert delete = .ok s' →
    ∀ key, contents s' key = insertedValue insert delete (contents s key) key

/-- An in-memory backend: the value under each key. -/
structure AuxDb where
  aux : List UInt8 → Option (List UInt8)

namespace AuxDb

/-- A backend with nothing stored. -/
def empty : AuxDb := ⟨fun _ => none⟩

def getAux (db : AuxDb) (key : List UInt8) : Option (List UInt8) := db.aux key

def insertAux (db : AuxDb) (insert : List (List UInt8 × List UInt8))
    (delete : List (List UInt8)) : AuxDb :=
  ⟨fun key => insertedValue insert delete (db.getAux key) key⟩

/-- The in-memory backend, whose reads and writes do not fail. -/
def backend : AuxBackend AuxDb :=
  ⟨fun db key => .ok (db.getAux key), fun db insert delete => .ok (db.insertAux insert delete)⟩

theorem lawful : backend.Lawful getAux := by
  refine ⟨fun db key v h => ?_, fun db db' insert delete h key => ?_⟩
  · cases h
    rfl
  · cases h
    rfl

end AuxDb

/-! ### The version's codec -/

/-- SCALE's encoding of a `u32`: its four bytes, least significant first. -/
def encodeU32 (v : UInt32) : List UInt8 :=
  [v.toUInt8, (v >>> 8).toUInt8, (v >>> 16).toUInt8, (v >>> 24).toUInt8]

/-- SCALE's decoding of a `u32`: `u32::from_le_bytes` of the next four bytes, with the rest
of the input. -/
def decodeU32 : List UInt8 → Except String (UInt32 × List UInt8)
  | b₀ :: b₁ :: b₂ :: b₃ :: rest =>
    .ok (b₀.toUInt32 + b₁.toUInt32 * 256 + b₂.toUInt32 * 65536 + b₃.toUInt32 * 16777216, rest)
  | _ => .error "Not enough data to fill buffer"

theorem decodeU32_encodeU32 (v : UInt32) (rest : List UInt8) :
    decodeU32 (encodeU32 v ++ rest) = .ok (v, rest) := by
  simp only [encodeU32, decodeU32, List.cons_append, List.nil_append, Except.ok.injEq,
    Prod.mk.injEq, and_true]
  apply UInt32.toNat_inj.mp
  -- the four bytes are the base-256 digits of `v`
  have hv := v.toNat_lt
  simp only [UInt32.toNat_add, UInt32.toNat_mul, UInt8.toNat_toUInt32, UInt32.toNat_toUInt8,
    UInt32.toNat_shiftRight, UInt32.toNat_ofNat, Nat.shiftRight_eq_div_pow]
  simp only [Nat.reduceMod, Nat.reducePow] at *
  omega

/-! ### Loading and writing -/

variable {A S : Type*} [Ord A] (encodeState : PersistedState A S → List UInt8)
  (decodeState : List UInt8 → Except String (PersistedState A S × List UInt8))
  {σ : Type*} (backend : AuxBackend σ)

/-- `write_current_version`: the backend's state after the write, or its error. -/
def writeCurrentVersion (s : σ) : Except Error σ :=
  (backend.insertAux s [(versionKey, encodeU32 currentVersion)] []).mapError Error.backend

/-- `write_voter_state`. -/
def writeVoterState (s : σ) (state : PersistedState A S) : Except Error σ :=
  (backend.insertAux s [(workerStateKey, encodeState state)] []).mapError Error.backend

/-- `load_decode`: nothing under the key, or the value decoded from the front of the bytes
stored; a failed read is the backend's error. -/
def loadDecode {T : Type*} (decode : List UInt8 → Except String (T × List UInt8)) (s : σ)
    (key : List UInt8) : Except Error (Option T) :=
  match backend.getAux s key with
  | .error e => .error (.backend e)
  | .ok none => .ok none
  | .ok (some t) =>
    match decode t with
    | .error e => .error (.backend ("BEEFY DB is corrupted: " ++ e))
    | .ok r => .ok (some r.1)

/-- `load_persistent`. -/
def loadPersistent (s : σ) : Except Error (Option (PersistedState A S)) :=
  match loadDecode backend decodeU32 s versionKey with
  | .error e => .error e
  | .ok none => .ok none
  -- versions 1, 2 and 3 are obsolete and ignored
  | .ok (some 1) | .ok (some 2) | .ok (some 3) => .ok none
  | .ok (some 4) => loadDecode backend decodeState s workerStateKey
  | .ok (some v) => .error (.backend ("Unsupported BEEFY DB version: Some(" ++ toString v ++ ")"))

/-- The aux-db as the store `load_or_init_state` reads and `init_state` writes to. -/
def auxStore (s : σ) : AuxStore A S :=
  ⟨loadPersistent decodeState backend s,
    (backend.insertAux s [(versionKey, encodeU32 currentVersion)] []).map fun _ => (),
    fun state => (backend.insertAux s [(workerStateKey, encodeState state)] []).map fun _ => ()⟩

omit [Ord A] in
/-- A read of a lawful backend returns what is stored, or fails. -/
theorem getAux_cases {contents : σ → List UInt8 → Option (List UInt8)}
    (hlaw : backend.Lawful contents) (s : σ) (key : List UInt8) :
    backend.getAux s key = .ok (contents s key) ∨ ∃ e, backend.getAux s key = .error e := by
  cases h : backend.getAux s key with
  | error e => exact .inr ⟨e, rfl⟩
  | ok v => exact .inl (congrArg Except.ok (hlaw.getAux_eq s key v h))

omit [Ord A] in
theorem loadDecode_of_getAux {T : Type*} {decode : List UInt8 → Except String (T × List UInt8)}
    {s : σ} {key bytes rest : List UInt8} {value : T} (h : backend.getAux s key = .ok (some bytes))
    (hdecode : decode bytes = .ok (value, rest)) :
    loadDecode backend decode s key = .ok (some value) := by
  simp [loadDecode, h, hdecode]

omit [Ord A] in
theorem loadDecode_of_getAux_none {T : Type*} {decode : List UInt8 → Except String (T × List UInt8)}
    {s : σ} {key : List UInt8} (h : backend.getAux s key = .ok none) :
    loadDecode backend decode s key = .ok none := by
  simp [loadDecode, h]

omit [Ord A] in
theorem loadDecode_of_getAux_error {T : Type*}
    {decode : List UInt8 → Except String (T × List UInt8)} {s : σ} {key : List UInt8} {e : String}
    (h : backend.getAux s key = .error e) :
    loadDecode backend decode s key = .error (.backend e) := by
  simp [loadDecode, h]

/-- Under the current version, the state is what is stored under its key. -/
theorem loadPersistent_of_currentVersion {s : σ}
    (h : backend.getAux s versionKey = .ok (some (encodeU32 currentVersion))) :
    loadPersistent decodeState backend s = loadDecode backend decodeState s workerStateKey := by
  have hversion : loadDecode backend decodeU32 s versionKey = .ok (some currentVersion) :=
    loadDecode_of_getAux backend h (by simpa using decodeU32_encodeU32 currentVersion [])
  rw [loadPersistent, hversion]
  rfl

/-- Under no version or an obsolete one, nothing is stored. -/
theorem loadPersistent_of_obsolete {s : σ}
    (h : backend.getAux s versionKey = .ok none ∨
      ∃ v, (v = 1 ∨ v = 2 ∨ v = 3) ∧ backend.getAux s versionKey = .ok (some (encodeU32 v))) :
    loadPersistent decodeState backend s = .ok none := by
  rcases h with hnone | ⟨v, hv, hsome⟩
  · rw [loadPersistent, loadDecode_of_getAux_none backend hnone]
  · have hversion : loadDecode backend decodeU32 s versionKey = .ok (some v) :=
      loadDecode_of_getAux backend hsome (by simpa using decodeU32_encodeU32 v [])
    rw [loadPersistent, hversion]
    rcases hv with rfl | rfl | rfl <;> rfl

/-- A failed read of the version fails the load with the backend's message. -/
theorem loadPersistent_of_versionKey_error {s : σ} {e : String}
    (h : backend.getAux s versionKey = .error e) :
    loadPersistent decodeState backend s = .error (.backend e) := by
  rw [loadPersistent, loadDecode_of_getAux_error backend h]

/-- **Loading a stored state.**  On a lawful backend storing the current version and the
encoding of `p`, whose codec round-trips, the load returns `p`, unless one of its two reads
fails, and then it fails with the backend's message. -/
theorem loadPersistent_of_stored {contents : σ → List UInt8 → Option (List UInt8)}
    (hlaw : backend.Lawful contents) {s : σ} {p : PersistedState A S}
    (hversion : contents s versionKey = some (encodeU32 currentVersion))
    (hstate : contents s workerStateKey = some (encodeState p))
    (hcodec : decodeState (encodeState p) = .ok (p, [])) :
    loadPersistent decodeState backend s = .ok (some p) ∨
      ∃ e, (backend.getAux s versionKey = .error e ∨
          backend.getAux s workerStateKey = .error e) ∧
        loadPersistent decodeState backend s = .error (.backend e) := by
  rcases getAux_cases backend hlaw s versionKey with hv | ⟨e, hv⟩
  · rw [hversion] at hv
    rw [loadPersistent_of_currentVersion decodeState backend hv]
    -- the version read, the state's read decides
    rcases getAux_cases backend hlaw s workerStateKey with hst | ⟨e, hst⟩
    · rw [hstate] at hst
      exact .inl (loadDecode_of_getAux backend hst hcodec)
    · exact .inr ⟨e, .inr hst, loadDecode_of_getAux_error backend hst⟩
  · exact .inr ⟨e, .inl hv, loadPersistent_of_versionKey_error decodeState backend hv⟩

/-! ### Runs of writes -/

/-- A write of the voter to its aux-db: the current version, as `init_state` writes it, or a
voter state. -/
inductive AuxWrite (A S : Type*) [Ord A] where
  | currentVersion
  | voterState (state : PersistedState A S)

/-- The voter state a write stores, if any. -/
def AuxWrite.writtenState : AuxWrite A S → Option (PersistedState A S)
  | .currentVersion => none
  | .voterState state => some state

/-- One write to the aux-db. -/
def applyWrite (s : σ) : AuxWrite A S → Except Error σ
  | .currentVersion => writeCurrentVersion backend s
  | .voterState state => writeVoterState encodeState backend s state

/-- Writes in turn, stopping at the first that fails: its error ends the voter. -/
def runWrites (s : σ) : List (AuxWrite A S) → Except Error σ
  | [] => .ok s
  | w :: writes =>
    match applyWrite encodeState backend s w with
    | .error e => .error e
    | .ok s => runWrites s writes

/-- The last voter state among the writes. -/
def lastWritten (writes : List (AuxWrite A S)) : Option (PersistedState A S) :=
  (writes.filterMap AuxWrite.writtenState).getLast?

theorem lastWritten_cons_currentVersion (writes : List (AuxWrite A S)) :
    lastWritten (.currentVersion :: writes) = lastWritten writes := rfl

theorem lastWritten_cons_voterState (state : PersistedState A S)
    (writes : List (AuxWrite A S)) :
    lastWritten (.voterState state :: writes) = (lastWritten writes).or (some state) := by
  simp only [lastWritten, List.filterMap_cons, AuxWrite.writtenState, List.getLast?_cons]
  cases (writes.filterMap AuxWrite.writtenState).getLast? <;> rfl

theorem runWrites_cons_eq_ok {s s' : σ} {w : AuxWrite A S} {writes : List (AuxWrite A S)}
    (h : runWrites encodeState backend s (w :: writes) = .ok s') :
    ∃ s₁, applyWrite encodeState backend s w = .ok s₁ ∧
      runWrites encodeState backend s₁ writes = .ok s' := by
  rw [runWrites] at h
  split at h
  · cases h
  · rename_i s₁ hw
    exact ⟨s₁, hw, h⟩

section Lawful

variable {contents : σ → List UInt8 → Option (List UInt8)} (hlaw : backend.Lawful contents)
include hlaw

/-- A write of one pair that succeeds stores its value under its key and leaves the
others. -/
theorem contents_of_insertAux_single {s s₁ : σ} {k v : List UInt8}
    (h : (backend.insertAux s [(k, v)] []).mapError Error.backend = .ok s₁) (key : List UInt8) :
    contents s₁ key = if key = k then some v else contents s key := by
  cases hins : backend.insertAux s [(k, v)] [] with
  | error e =>
    rw [hins] at h
    cases h
  | ok s₂ =>
    rw [hins] at h
    cases h
    rw [hlaw.contents_insertAux _ _ _ _ hins, insertedValue_single]

/-- The version stored after writes that succeed, none of them of the version. -/
theorem contents_versionKey_of_not_mem {s s' : σ} {writes : List (AuxWrite A S)}
    (hrun : runWrites encodeState backend s writes = .ok s')
    (h : AuxWrite.currentVersion ∉ writes) :
    contents s' versionKey = contents s versionKey := by
  induction writes generalizing s with
  | nil =>
    cases hrun
    rfl
  | cons w writes ih =>
    rw [List.mem_cons, not_or] at h
    obtain ⟨s₁, hw, hrest⟩ := runWrites_cons_eq_ok encodeState backend hrun
    rw [ih hrest h.2]
    cases w with
    | currentVersion => exact absurd rfl h.1
    | voterState state =>
      rw [contents_of_insertAux_single backend hlaw hw]
      simp [versionKey_ne_workerStateKey]

/-- The version stored after writes that succeed, one of them of the version. -/
theorem contents_versionKey_of_mem {s s' : σ} {writes : List (AuxWrite A S)}
    (hrun : runWrites encodeState backend s writes = .ok s')
    (h : AuxWrite.currentVersion ∈ writes) :
    contents s' versionKey = some (encodeU32 currentVersion) := by
  induction writes generalizing s with
  | nil => cases h
  | cons w writes ih =>
    obtain ⟨s₁, hw, hrest⟩ := runWrites_cons_eq_ok encodeState backend hrun
    by_cases hmem : AuxWrite.currentVersion ∈ writes
    · exact ih hrest hmem
    · -- the last write of the version is this one
      have hw' : w = .currentVersion := by
        rcases List.mem_cons.mp h with h | h
        · exact h.symm
        · exact absurd h hmem
      subst hw'
      rw [contents_versionKey_of_not_mem encodeState backend hlaw hrest hmem,
        contents_of_insertAux_single backend hlaw hw]
      simp

/-- The bytes under the state's key after writes that succeed: the last state written, or
what was there. -/
theorem contents_workerStateKey {s s' : σ} {writes : List (AuxWrite A S)}
    (hrun : runWrites encodeState backend s writes = .ok s') :
    contents s' workerStateKey =
      ((lastWritten writes).map encodeState).or (contents s workerStateKey) := by
  induction writes generalizing s with
  | nil =>
    cases hrun
    rfl
  | cons w writes ih =>
    obtain ⟨s₁, hw, hrest⟩ := runWrites_cons_eq_ok encodeState backend hrun
    rw [ih hrest]
    cases w with
    | currentVersion =>
      rw [contents_of_insertAux_single backend hlaw hw]
      simp [lastWritten_cons_currentVersion, Ne.symm versionKey_ne_workerStateKey]
    | voterState state =>
      rw [contents_of_insertAux_single backend hlaw hw, lastWritten_cons_voterState]
      cases lastWritten writes <;> simp

/-- **A state written is read back.**  After writes of the voter that all succeed, one of
them of the current version, `load_persistent` returns the last state written, when its codec
round-trips; unless a read of the backend fails, and then the load fails with the backend's
message. -/
theorem load_after_writes (s : σ) (writes : List (AuxWrite A S))
    (hversion : AuxWrite.currentVersion ∈ writes) {p : PersistedState A S}
    (hlast : lastWritten writes = some p) (hcodec : decodeState (encodeState p) = .ok (p, []))
    {s' : σ} (hrun : runWrites encodeState backend s writes = .ok s') :
    loadPersistent decodeState backend s' = .ok (some p) ∨
      ∃ e, (backend.getAux s' versionKey = .error e ∨
          backend.getAux s' workerStateKey = .error e) ∧
        loadPersistent decodeState backend s' = .error (.backend e) := by
  have hstate : contents s' workerStateKey = some (encodeState p) := by
    rw [contents_workerStateKey encodeState backend hlaw hrun, hlast]
    rfl
  exact loadPersistent_of_stored encodeState decodeState backend hlaw
    (contents_versionKey_of_mem encodeState backend hlaw hrun hversion) hstate hcodec

/-- **Voter states alone are not read.**  A database with no version or an obsolete one
reads as nothing stored after any writes that succeed and do not write the current version,
unless the read of the version fails, and then the load fails with the backend's message. -/
theorem obsolete_schema_reads_empty (s : σ) (writes : List (AuxWrite A S))
    (hdb : contents s versionKey = none ∨
      ∃ v, (v = 1 ∨ v = 2 ∨ v = 3) ∧ contents s versionKey = some (encodeU32 v))
    (hversion : AuxWrite.currentVersion ∉ writes) {s' : σ}
    (hrun : runWrites encodeState backend s writes = .ok s') :
    loadPersistent decodeState backend s' = .ok none ∨
      ∃ e, backend.getAux s' versionKey = .error e ∧
        loadPersistent decodeState backend s' = .error (.backend e) := by
  have hkept := contents_versionKey_of_not_mem encodeState backend hlaw hrun hversion
  rcases getAux_cases backend hlaw s' versionKey with hv | ⟨e, hv⟩
  · -- the version read is the one the database had
    refine .inl (loadPersistent_of_obsolete decodeState backend ?_)
    rw [hv, hkept]
    rcases hdb with hnone | ⟨v, hv', hsome⟩
    · exact .inl (by rw [hnone])
    · exact .inr ⟨v, hv', by rw [hsome]⟩
  · exact .inr ⟨e, hv, loadPersistent_of_versionKey_error decodeState backend hv⟩

end Lawful

/-- Two states written after the version to the in-memory backend: the second is read
back. -/
theorem load_after_writes_second_state :
    let p₀ : PersistedState ℕ ℕ := ⟨0, ⟨[], 1, 0, 0⟩, 1⟩
    let p₁ : PersistedState ℕ ℕ := ⟨2, ⟨[], 1, 3, 2⟩, 1⟩
    let encodeState : PersistedState ℕ ℕ → List UInt8 := fun p => [p.bestVoted.toUInt8]
    let decodeState : List UInt8 → Except String (PersistedState ℕ ℕ × List UInt8) :=
      fun bytes => if bytes = [2] then .ok (p₁, []) else .ok (p₀, [])
    let writes : List (AuxWrite ℕ ℕ) := [.currentVersion, .voterState p₀, .voterState p₁]
    ∃ db, runWrites encodeState AuxDb.backend AuxDb.empty writes = .ok db ∧
      loadPersistent decodeState AuxDb.backend db = .ok (some p₁) := by
  intro p₀ p₁ encodeState decodeState writes
  refine ⟨_, rfl, ?_⟩
  -- the in-memory backend's reads do not fail
  exact (load_after_writes encodeState decodeState AuxDb.backend AuxDb.lawful AuxDb.empty writes
    (by simp [writes]) rfl rfl rfl).resolve_right fun ⟨e, he, _⟩ => by
      rcases he with he | he <;> cases he

/-- A database of schema version `2` holding a state, written over with another state. -/
theorem obsolete_schema_reads_empty_version_two :
    let p₀ : PersistedState ℕ ℕ := ⟨0, ⟨[], 1, 0, 0⟩, 1⟩
    let encodeState : PersistedState ℕ ℕ → List UInt8 := fun p => [p.bestVoted.toUInt8]
    let decodeState : List UInt8 → Except String (PersistedState ℕ ℕ × List UInt8) :=
      fun _ => .ok (p₀, [])
    let db : AuxDb := ⟨fun key => if key = versionKey then some (encodeU32 2)
      else if key = workerStateKey then some [0] else none⟩
    ∃ db', runWrites encodeState AuxDb.backend db [.voterState p₀] = .ok db' ∧
      loadPersistent decodeState AuxDb.backend db' = .ok none := by
  intro p₀ encodeState decodeState db
  refine ⟨_, rfl, ?_⟩
  exact (obsolete_schema_reads_empty encodeState decodeState AuxDb.backend AuxDb.lawful db
    [.voterState p₀] (.inr ⟨2, by decide, by simp [db, AuxDb.getAux]⟩) (by simp) rfl).resolve_right
    fun ⟨e, he, _⟩ => by cases he

end AuxSchema

namespace Chain

variable {A S : Type*} [Ord A]

/-- A stored state of another pallet genesis is dropped, and a state built afresh. -/
theorem loadOrInitState_of_other_genesis {chain : Chain A} {aux : AuxStore A S} {g bg d : ℕ}
    {p : PersistedState A S} (hload : aux.loadPersistent = .ok (some p))
    (hg : p.palletGenesis ≠ g) :
    chain.loadOrInitState aux g bg d = chain.initState aux g bg d := by
  unfold loadOrInitState
  rw [hload]
  dsimp only
  rw [Option.filter_some, if_neg (by simp [hg])]

/-- A failed load fails the start with its error. -/
theorem loadOrInitState_of_error {chain : Chain A} {aux : AuxStore A S} {g bg d : ℕ} {e : Error}
    (hload : aux.loadPersistent = .error e) : chain.loadOrInitState aux g bg d = .error e := by
  unfold loadOrInitState
  rw [hload]

end Chain

namespace AuxSchema

variable {A S : Type*} [Ord A] (encodeState : PersistedState A S → List UInt8)
  (decodeState : List UInt8 → Except String (PersistedState A S × List UInt8))
  {σ : Type*} (backend : AuxBackend σ)

/-- **Restarts resume from the last state written.**  After writes of the voter that all
succeed on a lawful backend, one of them of the current version, `load_or_init_state` brings
the last state written up to the new best GRANDPA block when the runtime reports its pallet
genesis, and builds a state with `init_state` when it reports another; unless a read of the
backend fails, and then the start fails with the backend's message. -/
theorem restart_resumes_last_written (chain : Chain A)
    {contents : σ → List UInt8 → Option (List UInt8)} (hlaw : backend.Lawful contents) (s : σ)
    (writes : List (AuxWrite A S)) (hversion : AuxWrite.currentVersion ∈ writes)
    {p : PersistedState A S} (hlast : lastWritten writes = some p)
    (hcodec : decodeState (encodeState p) = .ok (p, [])) {s' : σ}
    (hrun : runWrites encodeState backend s writes = .ok s') (bg d : ℕ) :
    (chain.loadOrInitState (auxStore encodeState decodeState backend s') p.palletGenesis bg d =
        .ok ((chain.announcements
            (max p.votingOracle.lastSessionStart p.votingOracle.bestBeefyBlock) bg).foldl
          (fun state x => state.initSessionAt x.2 x.1) ((p.setBestGrandpa bg).setMinBlockDelta d)) ∧
      ∀ g, g ≠ p.palletGenesis →
        chain.loadOrInitState (auxStore encodeState decodeState backend s') g bg d =
          chain.initState (auxStore encodeState decodeState backend s') g bg d) ∨
    ∃ e, (backend.getAux s' versionKey = .error e ∨ backend.getAux s' workerStateKey = .error e) ∧
      ∀ g, chain.loadOrInitState (auxStore encodeState decodeState backend s') g bg d =
        .error (.backend e) := by
  have hstate : contents s' workerStateKey = some (encodeState p) := by
    rw [contents_workerStateKey encodeState backend hlaw hrun, hlast]
    rfl
  rcases loadPersistent_of_stored encodeState decodeState backend hlaw
      (contents_versionKey_of_mem encodeState backend hlaw hrun hversion) hstate hcodec with
    hload | ⟨e, hread, hload⟩
  · exact .inl ⟨Chain.loadOrInitState_eq_foldl hload rfl,
      fun g hg => Chain.loadOrInitState_of_other_genesis hload (Ne.symm hg)⟩
  · exact .inr ⟨e, hread, fun g => Chain.loadOrInitState_of_error hload⟩

/-- A state written after the version to the in-memory backend, restarted at best GRANDPA
block `3` under its pallet genesis `1` and under genesis `2`. -/
theorem restart_resumes_last_written_after_init :
    let chain : Chain ℕ :=
      ⟨fun _ => [], fun _ => "", fun _ => false, fun _ => some ⟨[0], [0], 0⟩, fun _ => some 1⟩
    let p : PersistedState ℕ ℕ := ⟨0, ⟨[Rounds.new 1 ⟨[0], [0], 0⟩], 1, 1, 0⟩, 1⟩
    let encodeState : PersistedState ℕ ℕ → List UInt8 := fun _ => []
    let decodeState : List UInt8 → Except String (PersistedState ℕ ℕ × List UInt8) :=
      fun _ => .ok (p, [])
    let writes : List (AuxWrite ℕ ℕ) := [.currentVersion, .voterState p]
    ∃ db, runWrites encodeState AuxDb.backend AuxDb.empty writes = .ok db ∧
      chain.loadOrInitState (auxStore encodeState decodeState AuxDb.backend db) 1 3 1 =
        .ok ((chain.announcements
            (max p.votingOracle.lastSessionStart p.votingOracle.bestBeefyBlock) 3).foldl
          (fun state x => state.initSessionAt x.2 x.1) ((p.setBestGrandpa 3).setMinBlockDelta 1)) ∧
      chain.loadOrInitState (auxStore encodeState decodeState AuxDb.backend db) 2 3 1 =
        chain.initState (auxStore encodeState decodeState AuxDb.backend db) 2 3 1 := by
  intro chain p encodeState decodeState writes
  refine ⟨_, rfl, ?_⟩
  have h := (restart_resumes_last_written encodeState decodeState AuxDb.backend chain
    AuxDb.lawful AuxDb.empty writes (by simp [writes]) rfl rfl rfl 3 1).resolve_right
      fun ⟨e, he, _⟩ => by rcases he with he | he <;> cases he
  exact ⟨h.1, h.2 2 (by decide)⟩

end AuxSchema

end BeefyEtf
