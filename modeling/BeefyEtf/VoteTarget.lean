/-
`vote_target` at the width of the block-number type (`client/consensus/beefy-etf/src/worker.rs`).

`vote_target` is generic over the block-number type `N`, `u32` on this chain.  `voteTarget`
computes it on `ℕ`; `Checked.voteTarget` computes it in `N` of `bits` bits, where two of its
additions can overflow: `best_grandpa.saturating_sub(best_beefy) + 1` and `best_beefy +
step`.  A debug build panics there and a release build wraps; both are `none` here.  The
halved difference is saturated to `u32` first, so `next_power_of_two` never overflows.

* `voteTarget_eq` — the checked computation as three cases: the mandatory block, an
  overflow, and the step above the best BEEFY block;
* `voteTarget_overflow_or_value` — `vote_target` overflows exactly at the top of `N`, and
  otherwise agrees with `voteTarget`: the mandatory block while it is above the best BEEFY
  block, else that block plus the step, never above the best GRANDPA block.

Design notes: the step is `voteStep`, the maximum of `min_delta` and the next power of two
of half the difference, saturated to `u32::MAX`; on `u64` the saturation matters once the
difference passes `2 ^ 32`.
-/
import BeefyEtf.SessionOrder
import BeefyEtf.Rust

namespace BeefyEtf

/-- The step `vote_target` takes above the best BEEFY block:
`min_delta.max(next_power_of_two(diff.saturated_into::<u32>() / 2))`, with `diff` the
difference of the two best blocks plus one. -/
def voteStep (bestGrandpa bestBeefy minDelta : ℕ) : ℕ :=
  max minDelta (min (bestGrandpa - bestBeefy + 1) (Rust.Uint.max 32) / 2).nextPowerOfTwo

/-- `voteTarget` on `ℕ`, with its step named. -/
theorem voteTarget_eq_voteStep (bestGrandpa bestBeefy sessionStart minDelta : ℕ) :
    voteTarget bestGrandpa bestBeefy sessionStart minDelta =
      let target := if bestBeefy < sessionStart then sessionStart
        else bestBeefy + voteStep bestGrandpa bestBeefy minDelta
      if target > bestGrandpa then none else some target :=
  rfl

namespace Checked

/-- `vote_target::<N>` for a block-number type `N` of `bits` bits: `none` where an addition
overflows `N`. -/
def voteTarget (bits bestGrandpa bestBeefy sessionStart minDelta : ℕ) : Option (Option ℕ) := do
  -- if the mandatory block does not have a BEEFY justification yet, vote on it
  let target ←
    if bestBeefy < sessionStart then pure sessionStart
    else do
      let diff ← Rust.Uint.checkedAdd bits (bestGrandpa - bestBeefy) 1
      let diff := Rust.Uint.saturatedInto 32 diff / 2
      let power ← Rust.Uint.checkedNextPowerOfTwo 32 diff
      Rust.Uint.checkedAdd bits bestBeefy (max minDelta power)
  -- don't vote for targets until they've been finalized
  pure (if target > bestGrandpa then none else some target)

/-- Half of a difference saturated to `u32` is at most `2 ^ 31`: its next power of two fits
in `u32`. -/
theorem checkedNextPowerOfTwo_half (d : ℕ) :
    Rust.Uint.checkedNextPowerOfTwo 32 (Rust.Uint.saturatedInto 32 d / 2) =
      some (Rust.Uint.saturatedInto 32 d / 2).nextPowerOfTwo := by
  apply Rust.Uint.checkedNextPowerOfTwo_of_le
  unfold Rust.Uint.saturatedInto Rust.Uint.max
  omega

/-- What `vote_target` computes in `N`: the mandatory block while the best BEEFY block is
below it; past it, nothing when the difference plus one or the target overflows, else the
best BEEFY block plus the step; in both cases nothing above the best GRANDPA block. -/
theorem voteTarget_eq (bits bestGrandpa bestBeefy sessionStart minDelta : ℕ) :
    voteTarget bits bestGrandpa bestBeefy sessionStart minDelta =
      if bestBeefy < sessionStart then
        some (if sessionStart > bestGrandpa then none else some sessionStart)
      else if Rust.Uint.max bits ≤ bestGrandpa - bestBeefy ∨
          Rust.Uint.max bits < bestBeefy + voteStep bestGrandpa bestBeefy minDelta then none
      else
        some (if bestBeefy + voteStep bestGrandpa bestBeefy minDelta > bestGrandpa then none
          else some (bestBeefy + voteStep bestGrandpa bestBeefy minDelta)) := by
  unfold voteTarget
  by_cases hmandatory : bestBeefy < sessionStart
  · simp only [hmandatory, ↓reduceIte]
    rfl
  simp only [hmandatory, ↓reduceIte]
  by_cases hdiff : Rust.Uint.max bits ≤ bestGrandpa - bestBeefy
  · -- `best_grandpa - best_beefy + 1` overflows
    have hnone : Rust.Uint.checkedAdd bits (bestGrandpa - bestBeefy) 1 = none :=
      Rust.Uint.checkedAdd_eq_none_iff.mpr (by omega)
    simp only [hnone, hdiff, true_or, ↓reduceIte]
    rfl
  rw [Rust.Uint.checkedAdd_of_le (by omega)]
  simp only [Option.pure_def, Option.bind_eq_bind, Option.bind_some]
  rw [checkedNextPowerOfTwo_half, Rust.Uint.saturatedInto]
  simp only [Option.bind_some, hdiff, false_or]
  -- the step is `voteStep`; whether `best_beefy + step` overflows decides the rest
  change (Rust.Uint.checkedAdd bits bestBeefy (voteStep bestGrandpa bestBeefy minDelta)).bind _ = _
  by_cases htarget : Rust.Uint.max bits < bestBeefy + voteStep bestGrandpa bestBeefy minDelta
  · rw [Rust.Uint.checkedAdd_eq_none_iff.mpr htarget]
    simp only [htarget, ↓reduceIte]
    rfl
  · rw [Rust.Uint.checkedAdd_of_le (by omega)]
    simp only [htarget, ↓reduceIte]
    rfl

end Checked

/-- **The vote target in `N`.**  For a block-number type `N` of any width, `vote_target`
overflows exactly when the best BEEFY block is at or past the mandatory block and either
the difference of the two best blocks is `N::MAX` or the best BEEFY block plus the step
passes `N::MAX`.  Otherwise it agrees with `voteTarget` on `ℕ`: the mandatory block while
it is above the best BEEFY block and at most the best GRANDPA block, else the best BEEFY
block plus the step when that is at most the best GRANDPA block; every target lies above the
best BEEFY block and at most at the best GRANDPA block. -/
theorem voteTarget_overflow_or_value (bits bestGrandpa bestBeefy sessionStart minDelta : ℕ) :
    (Checked.voteTarget bits bestGrandpa bestBeefy sessionStart minDelta = none ↔
      sessionStart ≤ bestBeefy ∧ (Rust.Uint.max bits ≤ bestGrandpa - bestBeefy ∨
        Rust.Uint.max bits < bestBeefy + voteStep bestGrandpa bestBeefy minDelta)) ∧
    ∀ result, Checked.voteTarget bits bestGrandpa bestBeefy sessionStart minDelta = some result →
      result = voteTarget bestGrandpa bestBeefy sessionStart minDelta ∧
      (bestBeefy < sessionStart →
        result = if sessionStart ≤ bestGrandpa then some sessionStart else none) ∧
      (sessionStart ≤ bestBeefy →
        result = if bestBeefy + voteStep bestGrandpa bestBeefy minDelta ≤ bestGrandpa then
          some (bestBeefy + voteStep bestGrandpa bestBeefy minDelta) else none) ∧
      ∀ t, result = some t → bestBeefy < t ∧ t ≤ bestGrandpa := by
  rw [Checked.voteTarget_eq]
  refine ⟨?_, fun result hresult => ?_⟩
  · by_cases hmandatory : bestBeefy < sessionStart
    · simp only [hmandatory, ↓reduceIte, reduceCtorEq, false_iff, not_and, not_or, not_le,
        not_lt]
      omega
    · simp only [hmandatory, ↓reduceIte, ite_eq_left_iff, reduceCtorEq, imp_false, not_not]
      omega
  -- no overflow: the result is the one on `ℕ`
  have hnat : result = voteTarget bestGrandpa bestBeefy sessionStart minDelta := by
    rw [voteTarget_eq_voteStep]
    by_cases hmandatory : bestBeefy < sessionStart
    · simp only [hmandatory, ↓reduceIte, Option.some_inj] at hresult ⊢
      exact hresult.symm
    · by_cases hoverflow : Rust.Uint.max bits ≤ bestGrandpa - bestBeefy ∨
          Rust.Uint.max bits < bestBeefy + voteStep bestGrandpa bestBeefy minDelta
      · simp only [hmandatory, hoverflow, ↓reduceIte, reduceCtorEq] at hresult
      · simp only [hmandatory, hoverflow, ↓reduceIte, Option.some_inj] at hresult ⊢
        exact hresult.symm
  refine ⟨hnat, fun hmandatory => ?_, fun hpast => ?_, fun t ht => ?_⟩
  · rw [hnat, voteTarget_eq_voteStep]
    simp only [hmandatory, ↓reduceIte, gt_iff_lt]
    split_ifs <;> first | rfl | omega
  · rw [hnat, voteTarget_eq_voteStep]
    simp only [show ¬bestBeefy < sessionStart by omega, ↓reduceIte, gt_iff_lt]
    split_ifs <;> first | rfl | omega
  · -- the bounds of every target on `ℕ`
    obtain ⟨hle, hcase | hcase⟩ := VoterOracle.voteTarget_spec (hnat ▸ ht)
    · exact ⟨hcase.2 ▸ hcase.1, hle⟩
    · exact ⟨hcase.2, hle⟩

/-- Between the two best blocks `90` and `100` of a `u32` chain, past the mandatory block
`80`, the target is `98`. -/
theorem voteTarget_overflow_or_value_u32 :
    Checked.voteTarget 32 100 90 80 1 = some (some 98) ∧ voteTarget 100 90 80 1 = some 98 ∧
      90 < 98 ∧ 98 ≤ 100 := by
  have hcomputed : Checked.voteTarget 32 100 90 80 1 = some (some 98) := by decide +kernel
  obtain ⟨hnat, -, -, hbounds⟩ := (voteTarget_overflow_or_value 32 100 90 80 1).2 _ hcomputed
  exact ⟨hcomputed, hnat.symm, hbounds 98 rfl⟩

/-- At the top of `u32` the additions overflow: with both best blocks at `u32::MAX` the
target does, and with the best BEEFY block at `0` and the best GRANDPA block at `u32::MAX`
the difference plus one does.  On `u64`, with the best blocks `1` and `2 ^ 33`, the
difference saturated to `u32` gives the target `1 + 2 ^ 31`, where the next power of two of
half the difference would give `1 + 2 ^ 32`. -/
theorem voteTarget_overflows_at_top :
    Checked.voteTarget 32 (Rust.Uint.max 32) (Rust.Uint.max 32) (Rust.Uint.max 32) 1 = none ∧
      Checked.voteTarget 32 (Rust.Uint.max 32) 0 0 1 = none ∧
      Checked.voteTarget 64 (2 ^ 33) 1 0 1 = some (some (1 + 2 ^ 31)) ∧
      1 + max 1 ((2 ^ 33 - 1 + 1) / 2).nextPowerOfTwo = 1 + 2 ^ 32 := by
  decide +kernel

end BeefyEtf
