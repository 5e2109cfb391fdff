/-
The MMR leaf format (`primitives/consensus/beefy-etf/src/mmr.rs`) and the BEEFY-MMR
pallet (`pallets/beefy-mmr-etf/src/lib.rs`).

Every leaf the MMR appends carries a version byte, the parent block, extra data, and the
next BEEFY authority set: its id, its size and a commitment to its keys, the Merkle root of
the authorities converted to leaves.  The pallet caches the current and the next authority
sets, which the BEEFY pallet hands it through `OnNewValidatorSet`.  The Merkle root, the
hashing and the Ethereum address of an ECDSA key are computed outside: they are arguments.

Each block's MMR root goes into the block's digest (`DepositBeefyDigest`), where the
client's `MmrRootProvider` reads it back as the payload its voters sign.

* `new_eq_some_iff_split` — `MmrLeafVersion::new` and `split` are inverse: `new` builds a
  version exactly from its components;
* `computeAuthoritySet_bls` — with the BLS conversion every authority is the empty leaf, so
  the authority set of a validator set is its id and its size only;
* `payload_depositBeefyDigest` — the payload of a header whose digest ends with the deposited
  root, and holds no other, is that root.
-/
import BeefyEtf.Worker
import BeefyEtf.Payload

namespace BeefyEtf

/-- `MmrLeafVersion`: the major version in the top three bits of a byte, the minor one in the
low five. -/
structure MmrLeafVersion where
  version : UInt8
  deriving DecidableEq, Repr

namespace MmrLeafVersion

/-- `MmrLeafVersion::new`; `none` where the source panics, on a component too big. -/
def new (major minor : UInt8) : Option MmrLeafVersion :=
  if major > 0b111 || minor > 0b11111 then none
  else some ⟨(major <<< 5) + minor⟩

/-- `MmrLeafVersion::split`: the major and the minor version. -/
def split (v : MmrLeafVersion) : UInt8 × UInt8 :=
  (v.version >>> 5, v.version &&& 0b11111)

/-- The mask keeps the low five bits. -/
theorem toNat_and_mask (v : UInt8) : (v &&& 0b11111).toNat = v.toNat % 32 := by
  rw [UInt8.toNat_and]
  exact Nat.and_two_pow_sub_one_eq_mod v.toNat 5

/-- The byte of two components within bounds is `32 * major + minor`. -/
theorem toNat_pack {major minor : UInt8} (hmajor : major.toNat ≤ 7) (hminor : minor.toNat ≤ 31) :
    ((major <<< 5) + minor).toNat = major.toNat * 32 + minor.toNat := by
  rw [UInt8.toNat_add, UInt8.toNat_shiftLeft, Nat.shiftLeft_eq]
  simp only [UInt8.reduceToNat, Nat.reduceMod, Nat.reducePow]
  omega

/-- The major version is the byte's top three bits. -/
theorem toNat_shiftRight_five (v : UInt8) : (v >>> 5).toNat = v.toNat / 32 := by
  rw [UInt8.toNat_shiftRight, Nat.shiftRight_eq_div_pow]
  rfl

/-- The components of a version built from them are read back. -/
theorem split_new {major minor : UInt8} {v : MmrLeafVersion} (h : new major minor = some v) :
    v.split = (major, minor) := by
  unfold new at h
  split at h
  · cases h
  rename_i hbound
  simp only [Bool.or_eq_true, decide_eq_true_eq, not_or, gt_iff_lt, UInt8.lt_iff_toNat_lt,
    UInt8.reduceToNat, Nat.not_lt] at hbound
  cases h
  have hv := toNat_pack hbound.1 hbound.2
  refine Prod.ext (UInt8.toNat_inj.mp ?_) (UInt8.toNat_inj.mp ?_)
  · show (((major <<< 5) + minor) >>> 5).toNat = major.toNat
    rw [toNat_shiftRight_five, hv]
    omega
  · show ((major <<< 5) + minor &&& 0b11111).toNat = minor.toNat
    rw [toNat_and_mask, hv]
    omega

/-- Every version is built back from its components. -/
theorem new_split (v : MmrLeafVersion) : new v.split.1 v.split.2 = some v := by
  obtain ⟨version⟩ := v
  have hv := version.toNat_lt
  have hbound : ¬(version >>> 5 > 0b111 || version &&& 0b11111 > 0b11111) := by
    simp only [Bool.or_eq_true, decide_eq_true_eq, not_or, gt_iff_lt, UInt8.lt_iff_toNat_lt,
      toNat_and_mask, toNat_shiftRight_five, UInt8.reduceToNat]
    omega
  unfold new split
  rw [if_neg hbound]
  congr 2
  apply UInt8.toNat_inj.mp
  rw [UInt8.toNat_add, UInt8.toNat_shiftLeft, Nat.shiftLeft_eq, toNat_shiftRight_five,
    toNat_and_mask]
  simp only [UInt8.reduceToNat, Nat.reduceMod, Nat.reducePow]
  omega

/-- **Leaf version round trip.**  `new` builds a version exactly from its components: the
pairs it accepts are those `split` returns. -/
theorem new_eq_some_iff_split (major minor : UInt8) (v : MmrLeafVersion) :
    new major minor = some v ↔ v.split = (major, minor) := by
  constructor
  · exact split_new
  · intro hsplit
    have h := new_split v
    rwa [hsplit] at h

end MmrLeafVersion

/-- `BeefyAuthoritySet`: the set's id, its size as a `u32`, and the commitment to its
keys. -/
structure BeefyAuthoritySet (H : Type*) where
  id : ℕ
  len : ℕ
  keysetCommitment : H
  deriving DecidableEq, Repr

/-- The `Default` of `BeefyAuthoritySet`, what an unset `ValueQuery` reads. -/
instance {H : Type*} [Inhabited H] : Inhabited (BeefyAuthoritySet H) := ⟨⟨0, 0, default⟩⟩

/-- `MmrLeaf`: what the MMR appends for a block. -/
structure MmrLeaf (N Hash H E : Type*) where
  version : MmrLeafVersion
  parentNumberAndHash : N × Hash
  beefyNextAuthoritySet : BeefyAuthoritySet H
  leafExtra : E
  deriving DecidableEq

namespace BeefyMmr

variable {A H : Type*}

/-- `BeefyEcdsaToEthereum`: the Ethereum address of the key, or no bytes when it has
none. -/
def beefyEcdsaToEthereum (toEthAddress : A → Option (List UInt8)) (beefyId : A) : List UInt8 :=
  (toEthAddress beefyId).getD []

/-- `BeefyBlsToEthereum`: no bytes for any key. -/
def beefyBlsToEthereum (_beefyId : A) : List UInt8 := []

/-- `compute_authority_set`: the set's id, its size, and the Merkle root of its authorities
converted to leaves.  The count of keys that convert to the zero address is only logged. -/
def computeAuthoritySet (convert : A → List UInt8) (merkleRoot : List (List UInt8) → H)
    (validatorSet : ValidatorSet A) : BeefyAuthoritySet H :=
  let beefyAddresses := validatorSet.validators.map convert
  { id := validatorSet.id
    len := beefyAddresses.length % 2 ^ 32
    keysetCommitment := merkleRoot beefyAddresses }

/-- The pallet's storage: the current and the next authority set. -/
structure State (H : Type*) where
  beefyAuthorities : BeefyAuthoritySet H
  beefyNextAuthorities : BeefyAuthoritySet H
  deriving DecidableEq

/-- Both authority sets at their defaults. -/
def State.empty [Inhabited H] : State H := ⟨default, default⟩

variable (convert : A → List UInt8) (merkleRoot : List (List UInt8) → H)

/-- `OnNewValidatorSet::on_new_validator_set`: compute and cache both authority sets. -/
def onNewValidatorSet (_s : State H) (currentSet nextSet : ValidatorSet A) : State H :=
  { beefyAuthorities := computeAuthoritySet convert merkleRoot currentSet
    beefyNextAuthorities := computeAuthoritySet convert merkleRoot nextSet }

/-- `LeafDataProvider::leaf_data`: the version, the parent block, the extra data and the
cached next authority set. -/
def leafData {N Hash E : Type*} (leafVersion : MmrLeafVersion) (parentNumberAndHash : N × Hash)
    (leafExtra : E) (s : State H) : MmrLeaf N Hash H E :=
  { version := leafVersion
    parentNumberAndHash := parentNumberAndHash
    leafExtra := leafExtra
    beefyNextAuthoritySet := s.beefyNextAuthorities }

/-- `authority_set_proof`. -/
def authoritySetProof (s : State H) : BeefyAuthoritySet H := s.beefyAuthorities

/-- `next_authority_set_proof`. -/
def nextAuthoritySetProof (s : State H) : BeefyAuthoritySet H := s.beefyNextAuthorities

/-- With the BLS conversion an authority set keeps only the id and the size of the validator
set: its keyset commitment is the root of as many empty leaves. -/
theorem computeAuthoritySet_bls (validatorSet : ValidatorSet A) :
    computeAuthoritySet beefyBlsToEthereum merkleRoot validatorSet =
      { id := validatorSet.id
        len := validatorSet.validators.length % 2 ^ 32
        keysetCommitment := merkleRoot (List.replicate validatorSet.validators.length []) } := by
  have hconst : (beefyBlsToEthereum : A → List UInt8) = fun _ => [] := rfl
  simp only [computeAuthoritySet, hconst, List.map_const', List.length_replicate]

/-- Two sets of one id and size, with no key in common, have one authority set. -/
example : computeAuthoritySet beefyBlsToEthereum List.length (⟨[1, 2], [1, 2], 3⟩ : ValidatorSet ℕ) =
    computeAuthoritySet beefyBlsToEthereum List.length ⟨[7, 8], [7, 8], 3⟩ := by
  decide

/-- `DepositBeefyDigest::on_new_root`: the digest item of a new MMR root. -/
def depositBeefyDigest (root : List UInt8) : ConsensusLog A := .mmrRoot root

end BeefyMmr

/-- `known_payloads::MMR_ROOT_ID = *b"mh"`. -/
def mmrRootId : BeefyPayloadId := ⟨#[109, 104], rfl⟩

/-- `find_mmr_root_digest`: the root of the header's first `MmrRoot` item. -/
def findMmrRootDigest {A : Type*} (header : Header A) : Option (List UInt8) :=
  header.digest.findSome? fun
    | .mmrRoot root => some root
    | _ => none

namespace MmrRootProvider

variable {A : Type*}

/-- `mmr_root_from_digest_or_runtime`: the root in the digest, else the runtime's
answer, an error read as none. -/
def mmrRootFromDigestOrRuntime (mmrRoot : Option (List UInt8)) (header : Header A) :
    Option (List UInt8) :=
  (findMmrRootDigest header).or mmrRoot

/-- `PayloadProvider::payload`: the MMR root as the single entry of the payload. -/
def payload (mmrRoot : Option (List UInt8)) (header : Header A) : Option Payload :=
  (mmrRootFromDigestOrRuntime mmrRoot header).map fun root =>
    Payload.fromSingleEntry mmrRootId root

/-- **Root digest round trip.**  The payload of a header whose digest holds no root before the
one deposited is that root, whatever the runtime would answer. -/
theorem payload_depositBeefyDigest (mmrRoot : Option (List UInt8)) (number : ℕ)
    (digest : List (ConsensusLog A)) (hnone : ∀ root, .mmrRoot root ∉ digest)
    (root : List UInt8) :
    payload mmrRoot ⟨number, digest ++ [BeefyMmr.depositBeefyDigest root]⟩ =
      some (Payload.fromSingleEntry mmrRootId root) := by
  have hfind : findMmrRootDigest (⟨number, digest ++ [BeefyMmr.depositBeefyDigest root]⟩ :
      Header A) = some root := by
    rw [findMmrRootDigest, List.findSome?_append, List.findSome?_eq_none_iff.mpr]
    · rfl
    · intro x hx
      cases x with
      | mmrRoot r => exact absurd hx (hnone r)
      | _ => rfl
  simp only [payload, mmrRootFromDigestOrRuntime, hfind, Option.some_or, Option.map_some]

end MmrRootProvider

end BeefyEtf
