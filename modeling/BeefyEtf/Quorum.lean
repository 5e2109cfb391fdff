/-
Quorum intersection.

Quorums are subsets of one set of members `U`.  Two of them overlap in more than `f`
members as soon as their sizes add up to more than `U`'s size plus `f`
(`lt_card_inter`).

Nothing here is specific to BEEFY.
-/
import Mathlib

namespace Quorum

variable {α : Type*} [DecidableEq α] {U A B : Finset α}

/-- Two quorums of `U` whose sizes add up to more than `|U| + f` share more than `f`
members. -/
theorem lt_card_inter (hA : A ⊆ U) (hB : B ⊆ U) {f : ℕ} (h : U.card + f < A.card + B.card) :
    f < (A ∩ B).card := by
  have hunion : (A ∪ B).card ≤ U.card := Finset.card_le_card (Finset.union_subset hA hB)
  have hsum := Finset.card_union_add_card_inter A B
  omega

end Quorum
