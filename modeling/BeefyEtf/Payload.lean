/-
The payload of a commitment (`primitives/consensus/beefy-etf/src/payload.rs`).

A payload holds SCALE-encoded values, each under a two-byte id.  `get_raw` finds a value
by binary search over the ids, which the doc of `Payload` asks to be sorted and free of
duplicates; `push_raw` appends an entry and sorts the entries by id again.

* `Sorted.pushRaw` — pushing an id not yet there keeps the ids strictly increasing;
* `getRaw_eq_some_iff` — on a payload whose ids increase, `get_raw` finds exactly the
  values stored, each under its own id;
* `payload_lookup` — a payload built by `from_single_entry` and pushes of distinct ids
  is sorted after every push, and `get_raw` (and so `get_decoded`) answers under each id
  the value pushed with it, and nothing under any other id.
-/
import BeefyEtf.Primitives
import BeefyEtf.Rust

namespace BeefyEtf

/-- `known_payloads::ETF_SIGNATURE = *b"ef"`. -/
def etfSignature : BeefyPayloadId := ⟨#[101, 102], rfl⟩

namespace Payload

/-- `Payload::from_single_entry`. -/
def fromSingleEntry (id : BeefyPayloadId) (value : List UInt8) : Payload := ⟨[(id, value)]⟩

/-- `Payload::get_raw`: the value at the index the binary search by id returns.  (That index
is in range, `Rust.binarySearchBy_eq_ok`, so the source's indexing never panics.) -/
def getRaw (p : Payload) (id : BeefyPayloadId) : Option (List UInt8) :=
  match Rust.binarySearchBy (fun probe => compare probe.1 id) p.entries with
  | .ok index => p.entries[index]?.map Prod.snd
  | .error _ => none

/-- `Payload::get_decoded`: the value under `id`, if it decodes. -/
def getDecoded {T E : Type*} (decode : List UInt8 → Except E (T × List UInt8)) (p : Payload)
    (id : BeefyPayloadId) : Option T :=
  (p.getRaw id).bind fun raw => (decode raw).toOption.map Prod.fst

/-- `Payload::push_raw`: push the entry, then sort the entries by id. -/
def pushRaw (p : Payload) (id : BeefyPayloadId) (value : List UInt8) : Payload :=
  ⟨Rust.sortByKey Prod.fst (p.entries ++ [(id, value)])⟩

/-- `push_raw` of each entry in turn, as the daisy chain `p.push_raw(..).push_raw(..)`. -/
def pushAll (p : Payload) (pushes : List (BeefyPayloadId × List UInt8)) : Payload :=
  pushes.foldl (fun p e => p.pushRaw e.1 e.2) p

/-- The ids of the payload's entries. -/
def ids (p : Payload) : List BeefyPayloadId := p.entries.map Prod.fst

/-- The ids strictly increase, as the doc of `Payload` requires. -/
def Sorted (p : Payload) : Prop := p.entries.Pairwise fun a b => compare a.1 b.1 = .lt

instance (p : Payload) : Decidable p.Sorted := inferInstanceAs (Decidable (List.Pairwise _ _))

/-! ### Sorted payloads -/

@[simp] theorem ids_fromSingleEntry (id : BeefyPayloadId) (value : List UInt8) :
    (fromSingleEntry id value).ids = [id] :=
  rfl

theorem sorted_fromSingleEntry (id : BeefyPayloadId) (value : List UInt8) :
    (fromSingleEntry id value).Sorted :=
  List.pairwise_singleton _ _

/-- Ids in increasing order with none twice strictly increase. -/
theorem pairwise_lt_of_isLE {entries : List (BeefyPayloadId × List UInt8)}
    (hle : entries.Pairwise fun a b => (compare a.1 b.1).isLE)
    (hnodup : (entries.map Prod.fst).Nodup) :
    entries.Pairwise fun a b => compare a.1 b.1 = .lt := by
  rw [List.Nodup, List.pairwise_map] at hnodup
  refine (hle.and hnodup).imp fun {a b} hab => ?_
  obtain ⟨hab, hne⟩ := hab
  -- `isLE` leaves `lt` and `eq`, and `eq` would make the ids equal
  cases hc : compare a.1 b.1 with
  | lt => rfl
  | eq => exact absurd (Std.LawfulEqCmp.eq_of_compare hc) hne
  | gt => rw [hc] at hab; cases hab

theorem Sorted.nodup {p : Payload} (h : p.Sorted) : p.ids.Nodup := by
  rw [ids, List.Nodup, List.pairwise_map]
  refine h.imp fun {a b} hab heq => ?_
  have hrefl : compare b.1 b.1 = .eq := Std.ReflOrd.compare_self
  rw [heq, hrefl] at hab
  cases hab

theorem ids_pushRaw (p : Payload) (id : BeefyPayloadId) (value : List UInt8) :
    (p.pushRaw id value).ids.Perm (p.ids ++ [id]) := by
  have := (Rust.sortByKey_perm Prod.fst (p.entries ++ [(id, value)])).map Prod.fst
  simpa [ids, pushRaw] using this

/-- **One push.**  Pushing an id not yet there keeps the ids strictly increasing. -/
theorem Sorted.pushRaw {p : Payload} (h : p.Sorted) {id : BeefyPayloadId} (hid : id ∉ p.ids)
    (value : List UInt8) : (p.pushRaw id value).Sorted := by
  have hdisjoint : ∀ a ∈ p.ids, ∀ b ∈ [id], a ≠ b := by
    rintro a ha b hb rfl
    rw [List.mem_singleton.mp hb] at ha
    exact hid ha
  have hnodup : (p.ids ++ [id]).Nodup :=
    List.nodup_append.mpr ⟨h.nodup, List.nodup_singleton id, hdisjoint⟩
  exact pairwise_lt_of_isLE (Rust.pairwise_sortByKey Prod.fst _)
    ((ids_pushRaw p id value).nodup_iff.mpr hnodup)

/-- Along increasing ids, probing for `id` answers `Less` before it and `Greater` after it. -/
theorem Sorted.orderedFor {p : Payload} (h : p.Sorted) (id : BeefyPayloadId) :
    Rust.OrderedFor (fun probe => compare probe.1 id) p.entries := by
  refine h.imp fun {a b} hab => ⟨fun hgt => ?_, fun hlt => ?_⟩
  · -- `id < a.1 < b.1`
    exact Std.TransCmp.gt_trans (Std.OrientedCmp.gt_of_lt hab) hgt
  · -- `a.1 < b.1 < id`
    exact Std.TransCmp.lt_trans hab hlt

/-! ### Lookup -/

/-- `get_raw` answers only values stored under `id`. -/
theorem mem_of_getRaw_eq_some {p : Payload} {id : BeefyPayloadId} {v : List UInt8}
    (h : p.getRaw id = some v) : (id, v) ∈ p.entries := by
  unfold getRaw at h
  split at h
  · rename_i index hsearch
    obtain ⟨hindex, heq⟩ := Rust.binarySearchBy_eq_ok hsearch
    rw [List.getElem?_eq_getElem hindex, Option.map_some, Option.some_inj] at h
    have hid : p.entries[index].1 = id := Std.LawfulEqCmp.eq_of_compare heq
    have hentry : p.entries[index] = (id, v) := Prod.ext hid h
    exact hentry ▸ List.getElem_mem hindex
  · cases h

/-- On a sorted payload, `get_raw` finds every value stored under `id`. -/
theorem getRaw_of_mem {p : Payload} (h : p.Sorted) {id : BeefyPayloadId} {v : List UInt8}
    (hmem : (id, v) ∈ p.entries) : p.getRaw id = some v := by
  obtain ⟨k, hk, hkv⟩ := List.getElem_of_mem hmem
  have hfk : compare p.entries[k].1 id = .eq := by
    rw [hkv]
    exact Std.ReflCmp.compare_self
  obtain ⟨index, hsearch⟩ := Rust.binarySearchBy_isOk (h.orderedFor id) hk hfk
  obtain ⟨hindex, heq⟩ := Rust.binarySearchBy_eq_ok hsearch
  -- the index found holds `id` too, and the ids are distinct: it is `k`
  have hindex' : index < p.ids.length := by simpa [ids] using hindex
  have hk' : k < p.ids.length := by simpa [ids] using hk
  have hids : p.ids[index] = p.ids[k] := by
    simp only [ids, List.getElem_map]
    rw [Std.LawfulEqCmp.eq_of_compare heq, hkv]
  have hik : index = k := (h.nodup.getElem_inj_iff).mp hids
  subst hik
  unfold getRaw
  rw [hsearch]
  dsimp only
  rw [List.getElem?_eq_getElem hk, hkv]
  rfl

theorem getRaw_eq_some_iff {p : Payload} (h : p.Sorted) {id : BeefyPayloadId} {v : List UInt8} :
    p.getRaw id = some v ↔ (id, v) ∈ p.entries :=
  ⟨mem_of_getRaw_eq_some, getRaw_of_mem h⟩

theorem getRaw_eq_none_iff {p : Payload} (h : p.Sorted) {id : BeefyPayloadId} :
    p.getRaw id = none ↔ id ∉ p.ids := by
  constructor
  · intro hnone hid
    obtain ⟨⟨id', v⟩, hmem, rfl⟩ := List.mem_map.mp hid
    rw [getRaw_of_mem h hmem] at hnone
    cases hnone
  · intro hid
    cases hget : p.getRaw id with
    | none => rfl
    | some v => exact absurd (List.mem_map_of_mem (f := Prod.fst) (mem_of_getRaw_eq_some hget)) hid

/-! ### Payloads built by pushes -/

theorem entries_pushRaw_perm (p : Payload) (id : BeefyPayloadId) (value : List UInt8) :
    (p.pushRaw id value).entries.Perm (p.entries ++ [(id, value)]) :=
  Rust.sortByKey_perm Prod.fst _

/-- **Every push.**  Pushing entries whose ids are distinct and new keeps a sorted payload
sorted, and adds exactly the entries pushed. -/
theorem Sorted.pushAll {p : Payload} (h : p.Sorted) (pushes : List (BeefyPayloadId × List UInt8))
    (hdistinct : (p.ids ++ pushes.map Prod.fst).Nodup) :
    (p.pushAll pushes).Sorted ∧ (p.pushAll pushes).entries.Perm (p.entries ++ pushes) := by
  induction pushes generalizing p with
  | nil => exact ⟨h, by simp [Payload.pushAll]⟩
  | cons e pushes ih =>
    -- the first push is of a new id, and the ids after it are still new
    have hfresh : e.1 ∉ p.ids := by
      intro hmem
      rw [List.map_cons, List.nodup_append] at hdistinct
      exact hdistinct.2.2 e.1 hmem e.1 List.mem_cons_self rfl
    have hdistinct' : ((p.pushRaw e.1 e.2).ids ++ pushes.map Prod.fst).Nodup := by
      refine ((ids_pushRaw p e.1 e.2).append_right _).nodup_iff.mpr ?_
      simpa using hdistinct
    obtain ⟨hsorted, hperm⟩ := ih (h.pushRaw hfresh e.2) hdistinct'
    refine ⟨hsorted, hperm.trans ?_⟩
    have := (entries_pushRaw_perm p e.1 e.2).append_right pushes
    simpa using this

/-- **Payload lookup.**  Build a payload by `from_single_entry` and `push_raw` of entries with
distinct ids: after every push its ids strictly increase; `get_raw` answers under each id
the value pushed with it and nothing under any other, and `get_decoded` the decoding of
that value. -/
theorem payload_lookup {T E : Type*} (decode : List UInt8 → Except E (T × List UInt8))
    (first : BeefyPayloadId × List UInt8) (pushes : List (BeefyPayloadId × List UInt8))
    (hdistinct : ((first :: pushes).map Prod.fst).Nodup) :
    (∀ n, ((fromSingleEntry first.1 first.2).pushAll (pushes.take n)).Sorted) ∧
      (∀ id v, ((fromSingleEntry first.1 first.2).pushAll pushes).getRaw id = some v ↔
        (id, v) ∈ first :: pushes) ∧
      (∀ id, ((fromSingleEntry first.1 first.2).pushAll pushes).getRaw id = none ↔
        id ∉ (first :: pushes).map Prod.fst) ∧
      ∀ id v, (id, v) ∈ first :: pushes →
        ((fromSingleEntry first.1 first.2).pushAll pushes).getDecoded decode id =
          (decode v).toOption.map Prod.fst := by
  obtain ⟨hsorted, hperm⟩ := (sorted_fromSingleEntry first.1 first.2).pushAll pushes hdistinct
  have hmem : ∀ e, e ∈ ((fromSingleEntry first.1 first.2).pushAll pushes).entries ↔
      e ∈ first :: pushes := fun e => by
    rw [hperm.mem_iff]
    rfl
  have hsome : ∀ id v, ((fromSingleEntry first.1 first.2).pushAll pushes).getRaw id = some v ↔
      (id, v) ∈ first :: pushes := fun id v => by
    rw [getRaw_eq_some_iff hsorted, hmem]
  refine ⟨fun n => ?_, hsome, fun id => ?_, fun id v hv => ?_⟩
  · -- a prefix of the pushes is pushed the same way
    have hprefix : ((first :: pushes.take n).map Prod.fst).Nodup :=
      hdistinct.sublist (((List.take_sublist n pushes).cons_cons first).map Prod.fst)
    exact ((sorted_fromSingleEntry first.1 first.2).pushAll (pushes.take n) hprefix).1
  · rw [getRaw_eq_none_iff hsorted, ids, hperm.map Prod.fst |>.mem_iff]
    rfl
  · rw [getDecoded, (hsome id v).mpr hv, Option.bind_some]

/-- Two values under `"ef"` and `"hw"`. -/
theorem payload_lookup_two_ids :
    (([(etfSignature, []), (⟨#[104, 119], rfl⟩, [1])] : List (BeefyPayloadId × List UInt8)).map
      Prod.fst).Nodup ∧
      (∀ n, ((fromSingleEntry etfSignature []).pushAll
        (([(⟨#[104, 119], rfl⟩, [1])] : List (BeefyPayloadId × List UInt8)).take n)).Sorted) ∧
      (∀ id v, ((fromSingleEntry etfSignature []).pushAll [(⟨#[104, 119], rfl⟩, [1])]).getRaw id =
        some v ↔ (id, v) ∈ [(etfSignature, []), (⟨#[104, 119], rfl⟩, [1])]) ∧
      (∀ id, ((fromSingleEntry etfSignature []).pushAll [(⟨#[104, 119], rfl⟩, [1])]).getRaw id =
        none ↔ id ∉ ([(etfSignature, []), (⟨#[104, 119], rfl⟩, [1])] :
          List (BeefyPayloadId × List UInt8)).map Prod.fst) ∧
      ∀ id v, (id, v) ∈ ([(etfSignature, []), (⟨#[104, 119], rfl⟩, [1])] :
          List (BeefyPayloadId × List UInt8)) →
        ((fromSingleEntry etfSignature []).pushAll [(⟨#[104, 119], rfl⟩, [1])]).getDecoded
          (fun raw => (.ok (raw.length, []) : Except Unit (ℕ × List UInt8))) id =
          (((.ok (v.length, [])) : Except Unit (ℕ × List UInt8)).toOption.map Prod.fst) := by
  have hdistinct : (([(etfSignature, []), (⟨#[104, 119], rfl⟩, [1])] :
      List (BeefyPayloadId × List UInt8)).map Prod.fst).Nodup := by decide
  exact ⟨hdistinct, payload_lookup (fun raw => (.ok (raw.length, []) : Except Unit (ℕ × List UInt8)))
    (etfSignature, []) [(⟨#[104, 119], rfl⟩, [1])] hdistinct⟩

end Payload

end BeefyEtf
