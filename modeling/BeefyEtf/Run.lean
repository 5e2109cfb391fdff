/-
Runs of a component driven by a stream of calls.

A component whose every call updates its state and returns a result is a
function `step : σ → ι → ο × σ`; `runFrom step s is` makes the calls `is` in
order from state `s` and collects the results.  Every run-level result of this
development is proved with one of these induction rules:

* `runFrom_invariant` — a state invariant kept by every call holds after every
  run (`runFrom_invariant_mem` when only the run's own calls keep it);
* `runFrom_take_invariant` — what each call keeps where the earlier calls left the
  state holds after every prefix of the run;
* `runFrom_history` — an invariant of the state together with the results
  returned so far (a ghost history that only grows) holds after every run;
  `trace_history_mem` the same with the calls beside their results, when only the
  run's own calls keep it.

`runFrom_append` cuts a run at any call, and `trace` pairs each call with its
result.  Nothing here is specific to BEEFY.
-/
import Mathlib

namespace Run

variable {σ ι ο : Type*}

/-- Make the calls `is` in order from state `s`: the results in call order, and the
final state. -/
def runFrom (step : σ → ι → ο × σ) : σ → List ι → List ο × σ
  | s, [] => ([], s)
  | s, i :: is => ((step s i).1 :: (runFrom step (step s i).2 is).1,
      (runFrom step (step s i).2 is).2)

variable {step : σ → ι → ο × σ}

@[simp] theorem runFrom_nil (s : σ) : runFrom step s [] = ([], s) := rfl

@[simp] theorem runFrom_cons (s : σ) (i : ι) (is : List ι) :
    runFrom step s (i :: is) =
      ((step s i).1 :: (runFrom step (step s i).2 is).1, (runFrom step (step s i).2 is).2) :=
  rfl

@[simp] theorem length_runFrom (s : σ) (is : List ι) :
    (runFrom step s is).1.length = is.length := by
  induction is generalizing s with
  | nil => rfl
  | cons i is ih => simp [ih]

/-- A run cut after its first calls `is`: the rest starts where they ended. -/
theorem runFrom_append (s : σ) (is js : List ι) :
    runFrom step s (is ++ js) =
      ((runFrom step s is).1 ++ (runFrom step (runFrom step s is).2 js).1,
        (runFrom step (runFrom step s is).2 js).2) := by
  induction is generalizing s with
  | nil => rfl
  | cons i is ih => simp [ih]

/-- The result of call number `k` is what that call returns in the state the earlier
calls left. -/
theorem getElem?_runFrom (s : σ) (is : List ι) (k : ℕ) (hk : k < is.length) :
    (runFrom step s is).1[k]? = some (step (runFrom step s (is.take k)).2 is[k]).1 := by
  induction is generalizing s k with
  | nil => simp at hk
  | cons i is ih =>
    cases k with
    | zero => simp
    | succ k => simp [ih _ k (by simpa using hk)]

/-- The calls of a run, each with its result. -/
def trace (step : σ → ι → ο × σ) (s : σ) (is : List ι) : List (ι × ο) :=
  is.zip (runFrom step s is).1

@[simp] theorem trace_nil (s : σ) : trace step s [] = [] := rfl

@[simp] theorem trace_cons (s : σ) (i : ι) (is : List ι) :
    trace step s (i :: is) = (i, (step s i).1) :: trace step (step s i).2 is := rfl

/-- A trace lists the run's calls in order. -/
@[simp] theorem map_fst_trace (s : σ) (is : List ι) : (trace step s is).map Prod.fst = is := by
  induction is generalizing s with
  | nil => rfl
  | cons i is ih => simp [ih]

/-- A prefix of a run's trace is the trace of the prefix of its calls. -/
theorem trace_take (s : σ) (is : List ι) (k : ℕ) :
    (trace step s is).take k = trace step s (is.take k) := by
  induction is generalizing s k with
  | nil => simp
  | cons i is ih =>
    cases k with
    | zero => simp
    | succ k => simp [ih]

/-- One more call of a run: its result is appended and its state is the new one. -/
theorem runFrom_take_succ (s : σ) (is : List ι) (k : ℕ) (hk : k < is.length) :
    runFrom step s (is.take (k + 1)) =
      ((runFrom step s (is.take k)).1 ++ [(step (runFrom step s (is.take k)).2 is[k]).1],
        (step (runFrom step s (is.take k)).2 is[k]).2) := by
  rw [List.take_add_one, List.getElem?_eq_getElem hk, Option.toList_some, runFrom_append]
  simp

theorem trace_take_succ (s : σ) (is : List ι) (k : ℕ) (hk : k < is.length) :
    trace step s (is.take (k + 1)) =
      trace step s (is.take k) ++ [(is[k], (step (runFrom step s (is.take k)).2 is[k]).1)] := by
  rw [trace, runFrom_take_succ s is k hk, List.take_add_one, List.getElem?_eq_getElem hk,
    Option.toList_some, List.zip_append (by simp)]
  rfl

/-- Call `k`, with the result it returns where the earlier calls left the state, is in the
trace. -/
theorem mem_trace (s : σ) (is : List ι) (k : ℕ) (hk : k < is.length) :
    (is[k], (step (runFrom step s (is.take k)).2 is[k]).1) ∈ trace step s is := by
  have h : (is[k], (step (runFrom step s (is.take k)).2 is[k]).1) ∈
      trace step s (is.take (k + 1)) := by
    rw [trace_take_succ s is k hk]
    exact List.mem_append_right _ (List.mem_singleton_self _)
  rw [← trace_take] at h
  exact List.mem_of_mem_take h

/-- **State invariant.**  What every call keeps holds after every run. -/
theorem runFrom_invariant {P : σ → Prop} (hstep : ∀ s i, P s → P (step s i).2)
    {s : σ} (hs : P s) (is : List ι) : P (runFrom step s is).2 := by
  induction is generalizing s with
  | nil => exact hs
  | cons i is ih => exact ih (hstep s i hs)

/-- **State invariant of the calls of one run.**  What every call of the run keeps holds
after the run. -/
theorem runFrom_invariant_mem {P : σ → Prop} {is : List ι}
    (hstep : ∀ s, ∀ i ∈ is, P s → P (step s i).2) {s : σ} (hs : P s) :
    P (runFrom step s is).2 := by
  induction is generalizing s with
  | nil => exact hs
  | cons i is ih =>
    have h0 : P (step s i).2 := hstep s i List.mem_cons_self hs
    exact ih (fun s' j hj => hstep s' j (List.mem_cons_of_mem i hj)) h0

/-- **State invariant along one run.**  What each call of the run keeps, in the state
the earlier calls left, holds after every prefix of the run. -/
theorem runFrom_take_invariant {P : σ → Prop} {s : σ} (hs : P s) (is : List ι)
    (hstep : ∀ k (hk : k < is.length), P (runFrom step s (is.take k)).2 →
      P (step (runFrom step s (is.take k)).2 is[k]).2) :
    ∀ k ≤ is.length, P (runFrom step s (is.take k)).2 := by
  intro k hk
  induction k with
  | zero => simpa using hs
  | succ k ih =>
    rw [runFrom_take_succ s is k hk]
    exact hstep k hk (ih (by omega))

/-- **History invariant.**  An invariant of the state and of the results returned so
far, kept by every call, holds after every run. -/
theorem runFrom_history {P : σ → List ο → Prop}
    (hstep : ∀ s os i, P s os → P (step s i).2 (os ++ [(step s i).1]))
    {s : σ} {os : List ο} (hs : P s os) (is : List ι) :
    P (runFrom step s is).2 (os ++ (runFrom step s is).1) := by
  induction is generalizing s os with
  | nil => simpa using hs
  | cons i is ih =>
    have h := ih (hstep s os i hs)
    simpa using h

/-- **History invariant of the calls of one run.**  An invariant of the state and of the
calls made so far with their results, kept by every call of the run, holds after the run
with its whole trace. -/
theorem trace_history_mem {P : σ → List (ι × ο) → Prop} {is : List ι}
    (hstep : ∀ s h, ∀ i ∈ is, P s h → P (step s i).2 (h ++ [(i, (step s i).1)]))
    {s : σ} {h : List (ι × ο)} (hs : P s h) :
    P (runFrom step s is).2 (h ++ trace step s is) := by
  induction is generalizing s h with
  | nil => simpa using hs
  | cons i is ih =>
    have h0 : P (step s i).2 (h ++ [(i, (step s i).1)]) := hstep s h i List.mem_cons_self hs
    have h1 := ih (fun s' h' j hj => hstep s' h' j (List.mem_cons_of_mem i hj)) h0
    simpa using h1

end Run
