/-
The wire format of signed commitments (`commitment.rs`).

A `SignedCommitment` is encoded as its `CompactSignedCommitment`: a bit field saying
which validators signed, the number of validators, and the signatures present, in
order.  `pack` builds the bit field with the `Bits` library, padding it with
`8 - len % 8` zero bits (a whole zero byte when `len` is a multiple of eight);
`unpack` reads the bits back, truncates them to the number of validators and hands
the compacted signatures out, in order, to the set bits.

* `unpack_pack` — unpacking a packed signed commitment gives it back;
* `signedCommitment_round_trip` — so a signed commitment, and the finality proof
  carrying it, decode from their encoding, when the derived codec of the compact form
  round-trips.
-/
import BeefyEtf.Bits
import BeefyEtf.Primitives

namespace BeefyEtf

/-- `CompactSignedCommitment`: the commitment, a bit field of which validators signed,
the number of validators, and the signatures present. -/
structure CompactSignedCommitment (S : Type*) where
  commitment : Commitment
  signaturesFrom : List UInt8
  validatorSetLen : UInt32
  signaturesCompact : List S
  deriving DecidableEq, Repr

namespace CompactSignedCommitment

variable {S : Type*}

/-- `CONTAINER_BIT_SIZE`: bits in one byte of the bit field. -/
def containerBitSize : ℕ := 8

/-- `CompactSignedCommitment::pack`. -/
def pack (signedCommitment : SignedCommitment S) : CompactSignedCommitment S :=
  let signatures := signedCommitment.signatures
  let validatorSetLen := signatures.length.toUInt32
  let signaturesCompact := signatures.filterMap id
  let bits := signatures.map fun x => if x.isSome then (1 : UInt8) else 0
  -- resize with excess bits for placement purposes
  let excessBitsLen := containerBitSize - validatorSetLen.toNat % containerBitSize
  let bits := bits ++ List.replicate excessBitsLen 0
  { commitment := signedCommitment.commitment
    signaturesFrom := (Bits.chunks containerBitSize bits).map Bits.packChunk
    validatorSetLen := validatorSetLen
    signaturesCompact := signaturesCompact }

/-- The signatures of `unpack`, by position: a set bit takes the next compacted
signature, if any is left. -/
def threadSignatures : List UInt8 → List S → List (Option S)
  | [], _ => []
  | x :: bits, signatures =>
    if x = 1 then signatures.head? :: threadSignatures bits signatures.tail
    else none :: threadSignatures bits signatures

/-- `CompactSignedCommitment::unpack`. -/
def unpack (temporarySignatures : CompactSignedCommitment S) : SignedCommitment S :=
  let bits := temporarySignatures.signaturesFrom.flatMap Bits.unpackByte
  let bits := bits.take temporarySignatures.validatorSetLen.toNat
  { commitment := temporarySignatures.commitment
    signatures := threadSignatures bits temporarySignatures.signaturesCompact }

/-- The bits `pack` sets: one per signature slot. -/
theorem bits_eq_map_bitOf (signatures : List (Option S)) :
    (signatures.map fun x => if x.isSome then (1 : UInt8) else 0) =
      (signatures.map Option.isSome).map Bits.bitOf := by
  rw [List.map_map]
  rfl

/-- Handing the compacted signatures to the bits of their slots gives the slots back. -/
theorem threadSignatures_map_bitOf (signatures : List (Option S)) :
    threadSignatures ((signatures.map Option.isSome).map Bits.bitOf) (signatures.filterMap id) =
      signatures := by
  induction signatures with
  | nil => rfl
  | cons x signatures ih =>
    cases x with
    | none =>
      rw [List.map_cons, List.map_cons, List.filterMap_cons_none rfl, threadSignatures,
        if_neg (by simp [Bits.bitOf]), ih]
    | some sig =>
      rw [List.map_cons, List.map_cons,
        List.filterMap_cons_some (show id (some sig) = some sig from rfl), threadSignatures,
        if_pos (by simp [Bits.bitOf]), List.head?_cons, List.tail_cons, ih]

/-- **Pack/unpack round trip.**  Below `2^32` slots, where `validator_set_len` does not
wrap, unpacking a packed signed commitment gives it back. -/
theorem unpack_pack (sc : SignedCommitment S) (hlen : sc.signatures.length < 2 ^ 32) :
    unpack (pack sc) = sc := by
  set len := sc.signatures.length with hlen_def
  have hlen32 : len.toUInt32.toNat = len := by
    simpa using Nat.mod_eq_of_lt hlen
  -- the padded bit field has `len / 8 + 1` whole bytes
  set bs := sc.signatures.map Option.isSome ++
    List.replicate (containerBitSize - len % containerBitSize) false with hbs
  have hbits : (sc.signatures.map fun x => if x.isSome then (1 : UInt8) else 0) ++
      List.replicate (containerBitSize - len % containerBitSize) 0 = bs.map Bits.bitOf := by
    rw [bits_eq_map_bitOf, hbs, List.map_append, List.map_replicate]
    rfl
  have hbslen : bs.length = (len / 8 + 1) * 8 := by
    simp only [hbs, List.length_append, List.length_map, List.length_replicate, containerBitSize]
    omega
  have hchunks : Bits.chunks containerBitSize (bs.map Bits.bitOf) =
      Bits.chunksAux 8 (len / 8 + 1) (bs.map Bits.bitOf) := by
    simp only [Bits.chunks, containerBitSize, List.length_map, hbslen]
    congr 1
    omega
  have hread := Bits.unpack_pack bs (len / 8 + 1) hbslen
  simp only [unpack, pack, hlen32, ← hlen_def, hbits, hchunks, hread]
  rw [hbs, List.map_append, List.take_left' (by simp [hlen_def])]
  rw [threadSignatures_map_bitOf]

end CompactSignedCommitment

/-! ### The SCALE codec -/

namespace SignedCommitment

variable {S E : Type*}

/-- `Encode for SignedCommitment`: the compact form, in the derived encoding
`encodeCompact` of `CompactSignedCommitment`. -/
def encode (encodeCompact : CompactSignedCommitment S → List UInt8)
    (signedCommitment : SignedCommitment S) : List UInt8 :=
  encodeCompact (CompactSignedCommitment.pack signedCommitment)

/-- `Decode for SignedCommitment`: the compact form, decoded by the derived
`decodeCompact`, then unpacked; the input left over is returned. -/
def decode (decodeCompact : List UInt8 → Except E (CompactSignedCommitment S × List UInt8))
    (input : List UInt8) : Except E (SignedCommitment S × List UInt8) :=
  match decodeCompact input with
  | .ok (temp, rest) => .ok (CompactSignedCommitment.unpack temp, rest)
  | .error e => .error e

end SignedCommitment

namespace VersionedFinalityProof

variable {S E : Type*}

/-- The derived `Encode` of `VersionedFinalityProof`: the variant index of `V1`
(`#[codec(index = 1)]`), then the signed commitment. -/
def encode (encodeSigned : SignedCommitment S → List UInt8) :
    VersionedFinalityProof S → List UInt8
  | .v1 sc => 1 :: encodeSigned sc

/-- The derived `Decode` of `VersionedFinalityProof`: a variant index, of which only `1`
names a variant, then that variant's fields. -/
def decode (decodeSigned : List UInt8 → Except E (SignedCommitment S × List UInt8))
    (unknownVariant : E) : List UInt8 → Except E (VersionedFinalityProof S × List UInt8)
  | 1 :: input =>
    match decodeSigned input with
    | .ok (sc, rest) => .ok (.v1 sc, rest)
    | .error e => .error e
  | _ => .error unknownVariant

end VersionedFinalityProof

/-- **Signed commitment round trip.**  Below `2^32` slots, unpacking a packed signed
commitment gives it back; so, when the derived codec of `CompactSignedCommitment` decodes
its own encoding of the packed form, a signed commitment and a `V1` finality proof
carrying it decode from their encodings, leaving the rest of the input. -/
theorem signedCommitment_round_trip {S : Type*} (sc : SignedCommitment S)
    (hlen : sc.signatures.length < 2 ^ 32) :
    CompactSignedCommitment.unpack (CompactSignedCommitment.pack sc) = sc ∧
      ∀ {E : Type} (encodeCompact : CompactSignedCommitment S → List UInt8)
        (decodeCompact : List UInt8 → Except E (CompactSignedCommitment S × List UInt8)),
        (∀ rest, decodeCompact (encodeCompact (CompactSignedCommitment.pack sc) ++ rest) =
          .ok (CompactSignedCommitment.pack sc, rest)) →
        (∀ rest, SignedCommitment.decode decodeCompact
          (SignedCommitment.encode encodeCompact sc ++ rest) = .ok (sc, rest)) ∧
        ∀ (unknownVariant : E) rest,
          VersionedFinalityProof.decode (SignedCommitment.decode decodeCompact) unknownVariant
            (VersionedFinalityProof.encode (SignedCommitment.encode encodeCompact) (.v1 sc) ++
              rest) = .ok (.v1 sc, rest) := by
  have hunpack := CompactSignedCommitment.unpack_pack sc hlen
  refine ⟨hunpack, fun encodeCompact decodeCompact hcodec => ?_⟩
  have hsigned : ∀ rest, SignedCommitment.decode decodeCompact
      (SignedCommitment.encode encodeCompact sc ++ rest) = .ok (sc, rest) := by
    intro rest
    rw [SignedCommitment.decode, SignedCommitment.encode, hcodec rest]
    simp only [hunpack]
  refine ⟨hsigned, fun unknownVariant rest => ?_⟩
  rw [VersionedFinalityProof.encode, List.cons_append, VersionedFinalityProof.decode, hsigned rest]

/-- Three slots, the middle one empty, through a codec that decodes this packed form. -/
theorem signedCommitment_round_trip_three_slots :
    CompactSignedCommitment.unpack
        (CompactSignedCommitment.pack (⟨⟨⟨[]⟩, 1, 0⟩, [some 0, none, some 2]⟩ : SignedCommitment ℕ)) =
        ⟨⟨⟨[]⟩, 1, 0⟩, [some 0, none, some 2]⟩ ∧
      SignedCommitment.decode (fun input => (.ok (CompactSignedCommitment.pack
          (⟨⟨⟨[]⟩, 1, 0⟩, [some 0, none, some 2]⟩ : SignedCommitment ℕ), input) : Except Unit _))
        (SignedCommitment.encode (fun _ => []) ⟨⟨⟨[]⟩, 1, 0⟩, [some 0, none, some 2]⟩) =
        .ok (⟨⟨⟨[]⟩, 1, 0⟩, [some 0, none, some 2]⟩, []) := by
  have h := signedCommitment_round_trip
    (⟨⟨⟨[]⟩, 1, 0⟩, [some 0, none, some 2]⟩ : SignedCommitment ℕ) (by decide)
  exact ⟨h.1, (h.2 (fun _ => []) (fun input => (.ok (CompactSignedCommitment.pack
    ⟨⟨⟨[]⟩, 1, 0⟩, [some 0, none, some 2]⟩, input) : Except Unit _)) fun _ => rfl).1 []⟩

end BeefyEtf
