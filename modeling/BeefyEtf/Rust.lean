/-
What the node's code takes from Rust's `core` and `alloc`.

Unsigned integers of `bits` bits are the natural numbers up to `Uint.max bits`.  The code
uses `saturating_sub` (the subtraction of `ℕ`), `saturating_add`, `saturated_into`, and
`+` and `next_power_of_two`, which fail on overflow in a debug build (`checkedAdd`,
`checkedNextPowerOfTwo`: `none` where the exact result does not fit).  Of
`next_power_of_two` only its overflow condition is used: `Nat.nextPowerOfTwo` gives the
value.  Of the collections
it uses `BTreeMap::split_off`, over a `Std.TreeMap`, `slice::binary_search_by`, step for
step on the window `[left, right)` it keeps, and `sort_by_key`, a stable sort, as
`List.mergeSort`:

* `binarySearchBy_eq_ok` — an `Ok` index holds an element the probe compares equal to;
* `binarySearchBy_isOk` — on a slice ordered for the probe, an element the probe compares
  equal to is found;
* `pairwise_sortByKey` — `sort_by_key` leaves the keys in increasing order.

Nothing here is specific to BEEFY.
-/
import Mathlib

namespace Rust

/-! ### Unsigned integers -/

namespace Uint

/-- `uN::MAX` for an integer type of `bits` bits. -/
def max (bits : ℕ) : ℕ := 2 ^ bits - 1

/-- `a + b` with the overflow check of `checked_add`, and of `+` in a debug build. -/
def checkedAdd (bits a b : ℕ) : Option ℕ := if a + b ≤ max bits then some (a + b) else none

/-- `a.saturating_add(b)`. -/
def saturatingAdd (bits a b : ℕ) : ℕ := min (a + b) (max bits)

/-- `a.saturated_into::<uN>()`. -/
def saturatedInto (bits a : ℕ) : ℕ := min a (max bits)

/-- `a.next_power_of_two()` with the overflow check of a debug build: the power overflows
exactly when `a` is above `2 ^ (bits - 1)`, as `core` documents it. -/
def checkedNextPowerOfTwo (bits a : ℕ) : Option ℕ :=
  if a ≤ 2 ^ (bits - 1) then some a.nextPowerOfTwo else none

@[simp] theorem checkedAdd_eq_some_iff {bits a b c : ℕ} :
    checkedAdd bits a b = some c ↔ a + b ≤ max bits ∧ a + b = c := by
  unfold checkedAdd
  split_ifs with h <;> simp [h]

@[simp] theorem checkedAdd_eq_none_iff {bits a b : ℕ} :
    checkedAdd bits a b = none ↔ max bits < a + b := by
  unfold checkedAdd
  split_ifs with h
  · simp only [false_iff, not_lt]
    exact h
  · simp only [true_iff]
    omega

theorem checkedAdd_of_le {bits a b : ℕ} (h : a + b ≤ max bits) :
    checkedAdd bits a b = some (a + b) :=
  checkedAdd_eq_some_iff.mpr ⟨h, rfl⟩

/-- At the largest value, adding one stays there. -/
@[simp] theorem saturatingAdd_max_one (bits : ℕ) : saturatingAdd bits (max bits) 1 = max bits := by
  unfold saturatingAdd
  omega

/-- `next_power_of_two` does not overflow on a number at most half the range. -/
theorem checkedNextPowerOfTwo_of_le {bits a : ℕ} (h : a ≤ 2 ^ (bits - 1)) :
    checkedNextPowerOfTwo bits a = some a.nextPowerOfTwo :=
  if_pos h

end Uint

/-! ### `BTreeMap::split_off` -/

section SplitOff

variable {α β : Type*} {cmp : α → α → Ordering}

/-- `m.split_off(&key)`: what stays in `m`, the entries below `key`, and what is returned,
the entries at or above it. -/
def splitOff (m : Std.TreeMap α β cmp) (key : α) : Std.TreeMap α β cmp × Std.TreeMap α β cmp :=
  (m.filter fun k _ => cmp k key == .lt, m.filter fun k _ => cmp k key != .lt)

theorem toList_splitOff_fst (m : Std.TreeMap α β cmp) (key : α) :
    (splitOff m key).1.toList = m.toList.filter fun e => cmp e.1 key == .lt :=
  Std.TreeMap.toList_filter

theorem toList_splitOff_snd (m : Std.TreeMap α β cmp) (key : α) :
    (splitOff m key).2.toList = m.toList.filter fun e => cmp e.1 key != .lt :=
  Std.TreeMap.toList_filter

end SplitOff

/-! ### `slice::binary_search_by` -/

section BinarySearch

variable {α : Type*}

/-- The loop of `binary_search_by` on the window `[left, right)`: probe the middle, go right
of it on `Less`, left of it on `Greater`, and return it on `Equal`; `Err(left)` once the
window is empty. -/
def binarySearchByGo (f : α → Ordering) (xs : List α) (left right : ℕ)
    (hright : right ≤ xs.length) : Except ℕ ℕ :=
  if hlt : left < right then
    let mid := left + (right - left) / 2
    have : mid < xs.length := by omega
    match f xs[mid] with
    | .lt => binarySearchByGo f xs (mid + 1) right hright
    | .gt => binarySearchByGo f xs left mid (by omega)
    | .eq => .ok mid
  else .error left
termination_by right - left

/-- `xs.binary_search_by(f)`: `Ok` with an index the probe `f` answers `Equal` at, or `Err`
with where such an element would go. -/
def binarySearchBy (f : α → Ordering) (xs : List α) : Except ℕ ℕ :=
  binarySearchByGo f xs 0 xs.length le_rfl

/-- `xs` is ordered for the probe `f`, as `binary_search_by` asks: `f` answers `Less` on a
prefix, `Greater` on a suffix and `Equal` between them. -/
def OrderedFor (f : α → Ordering) (xs : List α) : Prop :=
  xs.Pairwise fun a b => (f a = .gt → f b = .gt) ∧ (f b = .lt → f a = .lt)

theorem binarySearchByGo_eq_ok {f : α → Ordering} {xs : List α} {left right : ℕ}
    {hright : right ≤ xs.length} {i : ℕ} (h : binarySearchByGo f xs left right hright = .ok i) :
    ∃ hi : i < xs.length, f xs[i] = .eq := by
  fun_induction binarySearchByGo f xs left right hright with
  | case1 left right hright hlt mid hmid hf ih => exact ih h
  | case2 left right hright hlt mid hmid hf ih => exact ih h
  | case3 left right hright hlt mid hmid hf =>
    have hi : mid = i := by injection h
    subst hi
    exact ⟨hmid, hf⟩
  | case4 left right hright hge => cases h

/-- An `Ok` answer holds an element the probe compares equal to, whatever the order. -/
theorem binarySearchBy_eq_ok {f : α → Ordering} {xs : List α} {i : ℕ}
    (h : binarySearchBy f xs = .ok i) : ∃ hi : i < xs.length, f xs[i] = .eq :=
  binarySearchByGo_eq_ok h

theorem binarySearchByGo_isOk {f : α → Ordering} {xs : List α} (hxs : OrderedFor f xs)
    {left right : ℕ} {hright : right ≤ xs.length} {k : ℕ} (hleft : left ≤ k) (hk : k < right)
    (hkl : k < xs.length) (hfk : f xs[k] = .eq) :
    ∃ i, binarySearchByGo f xs left right hright = .ok i := by
  fun_induction binarySearchByGo f xs left right hright with
  | case1 left right hright hlt mid hmid hf ih =>
    -- `f` answers `Less` at `mid`, and so at every index up to it: `k` lies right of `mid`
    refine ih (Nat.lt_of_not_le fun hkm => ?_) hk
    rcases Nat.lt_or_eq_of_le hkm with hkm | rfl
    · have := (List.pairwise_iff_getElem.mp hxs k mid (by omega) hmid hkm).2 hf
      rw [hfk] at this
      cases this
    · rw [hfk] at hf
      cases hf
  | case2 left right hright hlt mid hmid hf ih =>
    -- `f` answers `Greater` at `mid`, and so at every index from it: `k` lies left of `mid`
    refine ih hleft (Nat.lt_of_not_le fun hmk => ?_)
    rcases Nat.lt_or_eq_of_le hmk with hmk | rfl
    · have := (List.pairwise_iff_getElem.mp hxs mid k hmid (by omega) hmk).1 hf
      rw [hfk] at this
      cases this
    · rw [hfk] at hf
      cases hf
  | case3 left right hright hlt mid hmid hf => exact ⟨mid, rfl⟩
  | case4 left right hright hge => omega

/-- On a slice ordered for the probe, an element the probe compares equal to is found. -/
theorem binarySearchBy_isOk {f : α → Ordering} {xs : List α} (hxs : OrderedFor f xs) {k : ℕ}
    (hk : k < xs.length) (hfk : f xs[k] = .eq) : ∃ i, binarySearchBy f xs = .ok i :=
  binarySearchByGo_isOk hxs (Nat.zero_le k) hk hk hfk

end BinarySearch

/-! ### `slice::sort_by_key` -/

section SortByKey

variable {α κ : Type*} [Ord κ]

/-- `xs.sort_by_key(key)`: a stable sort by `key`. -/
def sortByKey (key : α → κ) (xs : List α) : List α :=
  xs.mergeSort fun a b => (compare (key a) (key b)).isLE

theorem sortByKey_perm (key : α → κ) (xs : List α) : (sortByKey key xs).Perm xs :=
  List.mergeSort_perm xs _

/-- `sort_by_key` leaves the keys in increasing order. -/
theorem pairwise_sortByKey [Std.TransOrd κ] (key : α → κ) (xs : List α) :
    (sortByKey key xs).Pairwise fun a b => (compare (key a) (key b)).isLE := by
  apply List.pairwise_mergeSort
  · intro a b c hab hbc
    exact Std.TransCmp.isLE_trans hab hbc
  · -- two keys are comparable one way or the other
    intro a b
    rcases Bool.eq_false_or_eq_true (compare (key a) (key b)).isLE with h | h
    · exact Bool.or_eq_true_iff.mpr (.inl h)
    · have hlt : compare (key b) (key a) = .lt :=
        Std.OrientedCmp.lt_of_not_isLE (by rw [h]; decide)
      rw [hlt]
      exact Bool.or_eq_true_iff.mpr (.inr rfl)

end SortByKey

end Rust
