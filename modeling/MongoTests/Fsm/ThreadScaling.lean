import Mathlib.Algebra.Order.BigOperators.Group.List
import Mathlib.Algebra.Order.Floor.Semifield
import Mathlib.Data.Rat.Floor
import MongoTests.Fsm.Config
import MongoTests.Lib.Checked

/-!
# Scaling thread counts

`ThreadManager.init` of `thread_mgr.js`: when the workloads ask for more threads than are allowed,
their counts are scaled down, rounded down and raised to one. Arithmetic is exact. A workload that
is listed several times is scaled as often, since its config is one object.

* `scaleThreadCount`, `init`.
* `threadCount_scaleAll`: the counts after the loop.
* `gain`, `loss`: what a count gains when it is raised to one, and loses when it is rounded down.
* **`init_within_limit_iff`**: when the threads stay within the limit. `init_exceeds_limit`:
  three workloads, two of which want one thread.
-/

namespace MongoTests.Fsm

open MongoTests.Lib

/-- The assertions of `init`. -/
inductive InitError
  /-- 'the maximum allowed threads must be positive' -/
  | notPositive
  /-- 'the maximum allowed threads must be an integer' -/
  | notInteger
  /-- `assert.lte(numThreads, maxAllowedThreads)` -/
  | tooManyThreads
  deriving DecidableEq, Repr

def computeNumThreads (workloads : List String) (context : String → Config) : ℕ :=
  (workloads.map fun workload => (context workload).threadCount).sum

/-- `Math.max(1, Math.floor(factor * threadCount))`. -/
def scaleThreadCount (factor : ℚ) (threadCount : ℕ) : ℕ := max 1 ⌊factor * threadCount⌋₊

/-- The loop over the workloads. -/
def scaleAll (factor : ℚ) (workloads : List String) (context : String → Config) :
    String → Config :=
  workloads.foldl (fun context workload => Function.update context workload
    { context workload with
      threadCount := scaleThreadCount factor (context workload).threadCount }) context

/-- `init`: the configs and the number of threads. -/
def init (workloads : List String) (context : String → Config) (maxAllowedThreads : ℚ) :
    Except InitError ((String → Config) × ℕ) := do
  ensure (0 < maxAllowedThreads) .notPositive
  ensure (maxAllowedThreads = ⌊maxAllowedThreads⌋) .notInteger
  let requestedNumThreads := computeNumThreads workloads context
  let context :=
    if maxAllowedThreads < requestedNumThreads then
      scaleAll (maxAllowedThreads / requestedNumThreads) workloads context
    else context
  let numThreads := computeNumThreads workloads context
  ensure (numThreads ≤ maxAllowedThreads) .tooManyThreads
  pure (context, numThreads)

/-! ## The counts -/

section Counts

variable {factor : ℚ} {workloads : List String} {context : String → Config}

theorem threadCount_scaleAll (w : String) :
    (scaleAll factor workloads context w).threadCount =
      (scaleThreadCount factor)^[workloads.count w] (context w).threadCount := by
  induction workloads generalizing context with
  | nil => rfl
  | cons v ws ih =>
    rw [scaleAll, List.foldl_cons]
    refine (@ih _).trans ?_
    by_cases h : v = w
    · subst h
      rw [Function.update_self, List.count_cons_self, Function.iterate_succ_apply]
    · rw [Function.update_of_ne (Ne.symm h), List.count_cons_of_ne h]

end Counts

/-- A count that is scaled by `maximum / requested`. -/
def scaled (maximum requested c : ℕ) : ℕ := max 1 (maximum * c / requested)

/-- What a count gains when it is raised to one, in shares of a thread. -/
def gain (maximum requested c : ℕ) : ℕ := requested - maximum * c

/-- What a count loses when it is rounded down, in shares of a thread. -/
def loss (maximum requested c : ℕ) : ℕ :=
  if requested ≤ maximum * c then maximum * c % requested else 0

section Scaled

variable {M T : ℕ}

theorem scaleThreadCount_eq : scaleThreadCount ((M : ℚ) / T) = scaled M T := by
  funext c
  have hfloor : ⌊(M : ℚ) / T * c⌋₊ = M * c / T := by
    rw [div_mul_eq_mul_div, ← Nat.cast_mul, Nat.floor_div_eq_div]
  rw [scaleThreadCount, hfloor, scaled]

/-- Division with remainder. -/
theorem mul_scaled_add_loss (hT : 0 < T) (c : ℕ) :
    T * scaled M T c + loss M T c = M * c + gain M T c := by
  unfold scaled loss gain
  by_cases h : T ≤ M * c
  · have hdiv : 1 ≤ M * c / T := (Nat.one_le_div_iff hT).mpr h
    have hmod := Nat.div_add_mod (M * c) T
    rw [if_pos h, max_eq_right hdiv]
    omega
  · rw [if_neg h, Nat.div_eq_of_lt (not_le.mp h), max_eq_left (Nat.zero_le 1)]
    omega

theorem one_le_scaled (c : ℕ) : 1 ≤ scaled M T c := le_max_left _ _

theorem scaled_le (hMT : M ≤ T) {c : ℕ} (hc : 1 ≤ c) : scaled M T c ≤ c := by
  refine max_le hc ?_
  rcases Nat.eq_zero_or_pos T with rfl | hT
  · rw [Nat.div_zero]
    exact Nat.zero_le c
  · refine Nat.div_le_of_le_mul ?_
    exact Nat.mul_le_mul_right c hMT

theorem iterate_scaled_le (hMT : M ≤ T) {c : ℕ} (hc : 1 ≤ c) (k : ℕ) :
    1 ≤ (scaled M T)^[k] c ∧ (scaled M T)^[k] c ≤ c := by
  induction k with
  | zero => exact ⟨hc, le_rfl⟩
  | succ k ih =>
    rw [Function.iterate_succ_apply']
    exact ⟨one_le_scaled _, (scaled_le hMT ih.1).trans ih.2⟩

end Scaled

/-! ## The limit -/

section Limit

variable {workloads : List String} {context : String → Config} {M T : ℕ}

variable (workloads context) in
/-- The count of a workload before it is scaled for the last time; for a workload that is listed
once, this is its own count. -/
def lastCount (maximum requested : ℕ) (w : String) : ℕ :=
  (scaled maximum requested)^[workloads.count w - 1] (context w).threadCount

/-- The workloads ask for no more than is allowed, or what counts gain by being raised to one is made
up for by what counts lose. -/
def Fits (workloads : List String) (context : String → Config) (maximum : ℕ) : Prop :=
  let requested := computeNumThreads workloads context
  let last := lastCount workloads context maximum requested
  requested ≤ maximum ∨
    (workloads.map fun w => gain maximum requested (last w)).sum ≤
      (workloads.map fun w => loss maximum requested (last w) +
        maximum * ((context w).threadCount - last w)).sum

instance : Decidable (Fits workloads context M) := inferInstanceAs (Decidable (_ ∨ _))

/-- The thread counts stay within what the workloads ask for and what is allowed. -/
structure WithinLimit (workloads : List String) (context context' : String → Config)
    (maximum : ℕ) : Prop where
  positive : ∀ w ∈ workloads, 1 ≤ (context' w).threadCount
  le : ∀ w ∈ workloads, (context' w).threadCount ≤ (context w).threadCount
  total : computeNumThreads workloads context' ≤ maximum

theorem iterate_scaled_eq {w : String} (hw : w ∈ workloads) :
    (scaled M T)^[workloads.count w] (context w).threadCount =
      scaled M T (lastCount workloads context M T w) := by
  have hpos := List.count_pos_iff.mpr hw
  rw [lastCount, ← Function.iterate_succ_apply' (scaled M T), Nat.succ_eq_add_one,
    Nat.sub_add_cancel hpos]

/-- Division with remainder, summed over the workloads. -/
theorem sum_scaled (hMT : M ≤ T) (hT : 0 < T)
    (hpos : ∀ w ∈ workloads, 1 ≤ (context w).threadCount) (l : List String) (hl : l ⊆ workloads) :
    T * (l.map fun w => scaled M T (lastCount workloads context M T w)).sum +
        (l.map fun w => loss M T (lastCount workloads context M T w) +
          M * ((context w).threadCount - lastCount workloads context M T w)).sum =
      M * (l.map fun w => (context w).threadCount).sum +
        (l.map fun w => gain M T (lastCount workloads context M T w)).sum := by
  induction l with
  | nil => rfl
  | cons w ws ih =>
    have hw := hl List.mem_cons_self
    have hrest := ih fun v hv => hl (List.mem_cons_of_mem w hv)
    have hone := mul_scaled_add_loss (M := M) hT (lastCount workloads context M T w)
    have hlast : lastCount workloads context M T w ≤ (context w).threadCount :=
      (iterate_scaled_le hMT (hpos w hw) _).2
    have hsub : M * lastCount workloads context M T w +
        M * ((context w).threadCount - lastCount workloads context M T w) =
          M * (context w).threadCount := by
      rw [← Nat.mul_add, Nat.add_sub_cancel' hlast]
    simp only [List.map_cons, List.sum_cons, Nat.mul_add]
    omega

variable (workloads context M) in
/-- The configs that `init` leaves. -/
def scaledContext : String → Config :=
  if M < computeNumThreads workloads context then
    scaleAll ((M : ℚ) / computeNumThreads workloads context) workloads context
  else context

theorem init_natCast : init workloads context M =
    if M = 0 then .error .notPositive
    else if computeNumThreads workloads (scaledContext workloads context M) ≤ M then
      .ok (scaledContext workloads context M,
        computeNumThreads workloads (scaledContext workloads context M))
    else .error .tooManyThreads := by
  have hcontext : (if (M : ℚ) < computeNumThreads workloads context then
      scaleAll (M / computeNumThreads workloads context) workloads context else context) =
        scaledContext workloads context M := by
    unfold scaledContext
    simp only [Nat.cast_lt]
  rw [init]
  simp only [hcontext, Nat.cast_pos, Int.floor_natCast, Int.cast_natCast, Nat.cast_le, ensure]
  by_cases hM : M = 0
  · rw [if_pos hM, if_neg (by omega)]
    rfl
  · rw [if_neg hM, if_pos (by omega)]
    split_ifs <;> rfl

/-- The counts that `init` leaves. -/
theorem threadCount_scaledContext (hM : M < computeNumThreads workloads context) {w : String}
    (hw : w ∈ workloads) : (scaledContext workloads context M w).threadCount =
      scaled M (computeNumThreads workloads context)
        (lastCount workloads context M (computeNumThreads workloads context) w) := by
  rw [scaledContext, if_pos hM, threadCount_scaleAll, scaleThreadCount_eq, iterate_scaled_eq hw]

theorem threadCount_le (hpos : ∀ w ∈ workloads, 1 ≤ (context w).threadCount) {w : String}
    (hw : w ∈ workloads) : 1 ≤ (scaledContext workloads context M w).threadCount ∧
      (scaledContext workloads context M w).threadCount ≤ (context w).threadCount := by
  by_cases hM : M < computeNumThreads workloads context
  · rw [scaledContext, if_pos hM, threadCount_scaleAll, scaleThreadCount_eq]
    exact iterate_scaled_le hM.le (hpos w hw) _
  · rw [scaledContext, if_neg hM]
    exact ⟨hpos w hw, le_rfl⟩

theorem total_le_iff (hpos : ∀ w ∈ workloads, 1 ≤ (context w).threadCount) :
    computeNumThreads workloads (scaledContext workloads context M) ≤ M ↔
      Fits workloads context M := by
  by_cases hM : M < computeNumThreads workloads context
  · have hT : 0 < computeNumThreads workloads context := by omega
    have hsum := sum_scaled hM.le hT hpos workloads fun _ h => h
    have htotal : computeNumThreads workloads (scaledContext workloads context M) =
        (workloads.map fun w => scaled M (computeNumThreads workloads context)
          (lastCount workloads context M (computeNumThreads workloads context) w)).sum :=
      congrArg List.sum (List.map_congr_left fun w hw => threadCount_scaledContext hM hw)
    rw [← htotal] at hsum
    rw [Fits, or_iff_right (not_le.mpr hM), ← Nat.mul_le_mul_left_iff hT]
    rw [show (workloads.map fun w => (context w).threadCount).sum =
      computeNumThreads workloads context from rfl,
      Nat.mul_comm M (computeNumThreads workloads context)] at hsum
    omega
  · rw [scaledContext, if_neg hM]
    exact iff_of_true (not_lt.mp hM) (.inl (not_lt.mp hM))

/-- **When the threads stay within the limit.** For all workloads with positive thread counts and every
limit, `init` returns with counts between one and what was asked for, and within the limit, if and
only if the limit is positive and the counts fit. -/
theorem init_within_limit_iff (hpos : ∀ w ∈ workloads, 1 ≤ (context w).threadCount) :
    (∃ context' n, init workloads context M = .ok (context', n) ∧
        WithinLimit workloads context context' M) ↔ 0 < M ∧ Fits workloads context M := by
  constructor
  · rintro ⟨context', n, hinit, hlimit⟩
    rw [init_natCast] at hinit
    split_ifs at hinit with hM htotal
    exact ⟨Nat.pos_of_ne_zero hM, (total_le_iff hpos).mp htotal⟩
  · rintro ⟨hM, hfits⟩
    have htotal := (total_le_iff hpos).mpr hfits
    have hinit : init workloads context M = .ok _ :=
      init_natCast.trans ((if_neg hM.ne').trans (if_pos htotal))
    refine ⟨_, _, hinit, ?_⟩
    exact ⟨fun w hw => (threadCount_le hpos hw).1, fun w hw => (threadCount_le hpos hw).2, htotal⟩

end Limit

/-- Workloads `a` and `b` with these thread counts, and others with one thread. -/
def exampleContext (a b : ℕ) (w : String) : Config where
  threadCount := if w = "a" then a else if w = "b" then b else 1
  iterations := 1
  startState := "init"
  states := [("init", 2)]
  transitions := [("init", [("init", .fin 1)])]
  setup := 0
  teardown := 0
  data := []
  passConnectionCache := false

/-- Of 150 threads that two workloads ask for, 100 are left. -/
theorem init_within_limit_two :
    (∃ context' n, init ["a", "b"] (exampleContext 50 100) (100 : ℕ) = .ok (context', n) ∧
        WithinLimit ["a", "b"] (exampleContext 50 100) context' 100) ∧
      0 < 100 ∧ Fits ["a", "b"] (exampleContext 50 100) 100 := by
  have hfits : Fits ["a", "b"] (exampleContext 50 100) 100 := .inr (by decide)
  have hpos : ∀ w ∈ ["a", "b"], 1 ≤ (exampleContext 50 100 w).threadCount := by decide
  exact ⟨(init_within_limit_iff hpos).mpr ⟨by decide, hfits⟩, by decide, hfits⟩

/-- **Too many threads are left**: of twelve threads that three workloads ask for, four are left where
three are allowed, and the assertion fails. -/
theorem init_exceeds_limit :
    (∀ w ∈ ["a", "b", "c"], 1 ≤ (exampleContext 10 1 w).threadCount) ∧
      ["a", "b", "c"].length ≤ 3 ∧
      init ["a", "b", "c"] (exampleContext 10 1) (3 : ℕ) = .error .tooManyThreads := by
  have hpos : ∀ w ∈ ["a", "b", "c"], 1 ≤ (exampleContext 10 1 w).threadCount := by decide
  have htotal : ¬ computeNumThreads ["a", "b", "c"]
      (scaledContext ["a", "b", "c"] (exampleContext 10 1) 3) ≤ 3 := by
    rw [total_le_iff hpos]
    decide
  exact ⟨hpos, by decide, by rw [init_natCast, if_neg (by decide), if_neg htotal]⟩

end MongoTests.Fsm
