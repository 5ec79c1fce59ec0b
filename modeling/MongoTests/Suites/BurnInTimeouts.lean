import Mathlib.Algebra.Order.Archimedean.Basic
import Mathlib.Algebra.Order.Floor.Ring
import Mathlib.Data.Rat.Floor
import Mathlib.Tactic.Linarith
import MongoTests.Resmoke.RepeatPolicy
import MongoTests.Suites.TestStats

/-!
# Timeouts of burn-in tasks

`_generate_timeouts` of `burn_in_tests.py`, with `TimeoutInfo` of `patch_builds/task_generation.py`. A
test that is repeated for a time gets a timeout from its average runtime. The number of its
executions is decided by the queue element of resmoke.

* `RepeatConfig.validate`; `calculateExecTimeout`, `generateTimeouts`, `TimeoutInfo.cmd`.
* `executions_iff`: how often a test of constant duration is executed; `exists_executions`.
* `ExecTimeoutFits`: the condition on the settings.
* **`exec_timeout_suffices_iff`**: when the timeout is long enough.
-/

namespace MongoTests.Suites

open MongoTests.Lib MongoTests.Resmoke

/-! ## The settings -/

structure RepeatConfig where
  repeatTestsSecs : Option ℤ := none
  repeatTestsMin : Option ℤ := none
  repeatTestsMax : Option ℤ := none
  repeatTestsNum : Option ℤ := none
  deriving DecidableEq

/-- The texts are those of the `ValueError`s. -/
def RepeatConfig.validate (c : RepeatConfig) : Except String RepeatConfig := do
  ensure (¬ (truthy c.repeatTestsNum ∧ truthy c.repeatTestsSecs))
    "Cannot specify --repeat-tests and --repeat-tests-secs"
  ensure (truthy c.repeatTestsMax → truthy c.repeatTestsSecs)
    "Must specify --repeat-tests-secs with --repeat-tests-max"
  ensure (truthy c.repeatTestsMax → truthy c.repeatTestsMin →
      c.repeatTestsMin.getD 0 ≤ c.repeatTestsMax.getD 0)
    "--repeat-tests-secs-min is greater than --repeat-tests-max"
  ensure (truthy c.repeatTestsMin → truthy c.repeatTestsSecs)
    "Must specify --repeat-tests-secs with --repeat-tests-min"
  pure c

/-- The `QueueElemRepeatTime` that resmoke makes with these settings. -/
def RepeatConfig.queueElem (c : RepeatConfig) (secs : ℤ) (ident : ℕ) : QueueElem ℚ :=
  ⟨ident, some ⟨c.repeatTestsMin, c.repeatTestsMax, secs, 0, 0⟩⟩

/-! ## The timeouts -/

structure TimeoutInfo where
  useDefaults : Bool
  execTimeout : Option ℤ := none
  timeout : Option ℤ := none
  deriving DecidableEq

inductive TimeoutError
  /-- A comparison of a number with `None`. -/
  | typeError
  | valueError (msg : String)
  deriving DecidableEq

def TimeoutInfo.defaultTimeout : TimeoutInfo where
  useDefaults := true

def TimeoutInfo.overridden (execTimeout timeout : Option ℤ) : Except TimeoutError TimeoutInfo := do
  ensure (truthy execTimeout ∨ truthy timeout)
    (.valueError "Must override either 'exec_timeout' or 'timeout'")
  pure ⟨false, execTimeout, timeout⟩

/-- The `timeout.update` command. -/
structure CmdTimeoutUpdate where
  execTimeout : Option ℤ
  timeout : Option ℤ
  deriving DecidableEq

/-- The command overrides the timeouts that are not zero. -/
def TimeoutInfo.cmd (i : TimeoutInfo) : Option CmdTimeoutUpdate :=
  if i.useDefaults then none else some ⟨i.execTimeout.filter (· ≠ 0), i.timeout.filter (· ≠ 0)⟩

/-- The value that overrides the exec timeout, if there is one. -/
def TimeoutInfo.execOverride (i : TimeoutInfo) : Option ℤ := i.cmd.bind CmdTimeoutUpdate.execTimeout

def avgTestTimeMultiplier : ℤ := 3

def minAvgTestOverflowSec : ℚ := 60

def minAvgTestTimeSec : ℤ := 5 * 60

/-- `a % b`, which has the sign of `b`. -/
def floatMod (a b : ℚ) : ℚ := a - b * ⌊a / b⌋

/-- The runtime of the first entry for the test. -/
def parseAvgTestRuntime (test : String) (taskAvgTestRuntimeStats : List TestRuntime) : Option ℚ :=
  (taskAvgTestRuntimeStats.find? fun testStat => testStat.testName = test).map TestRuntime.runtime

def calculateTimeout (avgTestRuntime : ℚ) : ℤ :=
  max minAvgTestTimeSec ⌈avgTestRuntime * avgTestTimeMultiplier⌉

/-- `_calculate_exec_timeout`: a runtime cannot be compared with `None`. -/
def calculateExecTimeout (c : RepeatConfig) (avgTestRuntime : ℚ) : Except TimeoutError ℤ :=
  match c.repeatTestsSecs with
  | none => .error .typeError
  | some repeatTestsSecs =>
    if avgTestRuntime > repeatTestsSecs ∧ truthy c.repeatTestsMin then
      .ok ⌈avgTestRuntime * avgTestTimeMultiplier * c.repeatTestsMin.getD 0⌉
    else
      let testExecutionTimeOverLimit := avgTestRuntime - floatMod repeatTestsSecs avgTestRuntime
      let testExecutionTimeOverLimit := max minAvgTestOverflowSec testExecutionTimeOverLimit
      .ok ⌈repeatTestsSecs + testExecutionTimeOverLimit * avgTestTimeMultiplier⌉

/-- `_generate_timeouts`; without a history the timeouts are the default ones. -/
def generateTimeouts (c : RepeatConfig) (test : String) (stats : List TestRuntime) :
    Except TimeoutError TimeoutInfo :=
  match (parseAvgTestRuntime test stats).filter (· ≠ 0) with
  | none => .ok .defaultTimeout
  | some avgTestRuntime => do
    let timeout := calculateTimeout avgTestRuntime
    let execTimeout ← calculateExecTimeout c avgTestRuntime
    TimeoutInfo.overridden (some execTimeout) (some timeout)

/-! ## The executions -/

section Executions

variable {c : RepeatConfig} {secs : ℤ} {ident : ℕ} {avg : ℚ}

theorem after_replicate (c : RepeatConfig) (secs : ℤ) (ident : ℕ) (avg : ℚ) (k : ℕ) :
    (c.queueElem secs ident).after (List.replicate k avg) =
      ⟨ident, some ⟨c.repeatTestsMin, c.repeatTestsMax, secs, k * avg, k⟩⟩ := by
  induction k with
  | zero => simp [RepeatConfig.queueElem]
  | succ k ih =>
    rw [List.replicate_succ', QueueElem.after_concat, ih]
    have hsum : (k : ℚ) * avg + avg = ((k + 1 : ℕ) : ℚ) * avg := by
      push_cast
      ring
    simp only [QueueElem.jobCompleted, RepeatTime.jobCompleted, Option.map_some, hsum]

/-- The element is put back after `k` executions. -/
def Requeued (c : RepeatConfig) (secs : ℤ) (avg : ℚ) (k : ℕ) : Prop :=
  (k : ℤ) < c.repeatTestsMin.getD 0 ∨
    ¬ (truthy c.repeatTestsMax = true ∧ c.repeatTestsMax.getD 0 ≤ k) ∧ (k : ℚ) * avg < secs

theorem shouldRequeue_after (c : RepeatConfig) (secs : ℤ) (ident : ℕ) (avg : ℚ) (k : ℕ) :
    ((c.queueElem secs ident).after (List.replicate k avg)).shouldRequeue = true ↔
      Requeued c secs avg k := by
  rw [after_replicate]
  refine shouldRequeue_iff.trans (or_congr ?_ (and_congr ?_ Iff.rfl))
  · -- A minimum that is below the number of executions is not zero.
    simp only [RepeatTime.stillNeedMinimumRuns, truthy, Bool.and_eq_true, bne_iff_ne, ne_eq,
      decide_eq_true_eq]
    omega
  · simp [RepeatTime.haveMaxRunsBeenSatisfied]

/-- **How often a test is executed** whose executions all take the time `avg`. -/
theorem executions_iff {n : ℕ} :
    (c.queueElem secs ident).RunUntilDone (List.replicate n avg) ↔
      n ≠ 0 ∧ ¬ Requeued c secs avg n ∧ ∀ k, k ≠ 0 → k < n → Requeued c secs avg k := by
  rw [QueueElem.RunUntilDone, ← shouldRequeue_after c secs ident avg n, Bool.not_eq_true]
  refine and_congr (by simp) (and_congr Iff.rfl ?_)
  constructor
  · intro h k hk hlt
    refine (shouldRequeue_after c secs ident avg k).mp ?_
    refine h _ (List.replicate (n - k) avg) ?_ (by simpa using hk) (by simp; omega)
    rw [List.replicate_append_replicate, Nat.add_sub_cancel' hlt.le]
  · intro h us vs heq hus hvs
    obtain ⟨hlen, hus', -⟩ := List.append_eq_replicate_iff.mp heq.symm
    have hpos := List.length_pos_iff.mpr hvs
    rw [hus', shouldRequeue_after]
    exact h us.length (List.length_pos_iff.mpr hus).ne' (by omega)

/-- The repetition comes to an end. -/
theorem exists_executions (c : RepeatConfig) (secs : ℤ) (ident : ℕ) (havg : 0 < avg) :
    ∃ n, (c.queueElem secs ident).RunUntilDone (List.replicate n avg) := by
  have hstop : ∃ n, n ≠ 0 ∧ ¬ Requeued c secs avg n := by
    obtain ⟨n, hn⟩ := exists_nat_gt (max (c.repeatTestsMin.getD 0 : ℚ) (secs / avg))
    obtain ⟨hmin, hsecs⟩ := max_lt_iff.mp hn
    refine ⟨n + 1, n.succ_ne_zero, ?_⟩
    rintro (hlt | ⟨-, hlt⟩)
    · have hmin' : c.repeatTestsMin.getD 0 < (n : ℤ) := by exact_mod_cast hmin
      push_cast at hlt
      omega
    · rw [div_lt_iff₀ havg] at hsecs
      push_cast at hlt
      linarith
  classical
  refine ⟨Nat.find hstop, executions_iff.mpr
    ⟨(Nat.find_spec hstop).1, (Nat.find_spec hstop).2, fun k hk hlt => ?_⟩⟩
  by_contra hnot
  exact Nat.find_min hstop hlt ⟨hk, hnot⟩

/-- The minimum is reached. -/
theorem min_le_executions {n : ℕ}
    (h : (c.queueElem secs ident).RunUntilDone (List.replicate n avg)) :
    max 1 (c.repeatTestsMin.getD 0) ≤ n := by
  obtain ⟨hn, hstop, -⟩ := executions_iff.mp h
  refine max_le (by omega) (not_lt.mp fun hlt => hstop (.inl hlt))

/-- The last execution was the first one, or the minimum or the time asked for it. -/
theorem executions_cases {n : ℕ}
    (h : (c.queueElem secs ident).RunUntilDone (List.replicate n avg)) :
    (n : ℤ) ≤ max 1 (c.repeatTestsMin.getD 0) ∨ ((n : ℚ) - 1) * avg < secs ∧ 1 < n := by
  obtain ⟨hn, -, hrequeued⟩ := executions_iff.mp h
  by_cases hone : n = 1
  · exact .inl (hone ▸ le_max_left _ _)
  · obtain hlt | ⟨-, hlt⟩ := hrequeued (n - 1) (by omega) (by omega)
    · exact .inl (le_max_of_le_right (by omega))
    · rw [Nat.cast_sub (by omega), Nat.cast_one] at hlt
      exact .inr ⟨hlt, by omega⟩

end Executions

/-! ## The time over the limit -/

/-- The repeat time with the time over the limit is enough for the executions that the repeat time
asks for. -/
theorem mul_le_of_lt_secs {n : ℕ} {secs avg : ℚ} (havg : 0 < avg)
    (h : ((n : ℚ) - 1) * avg < secs) :
    n * avg ≤ secs + max minAvgTestOverflowSec (avg - floatMod secs avg) * avgTestTimeMultiplier := by
  have hfloor : (n : ℚ) - 1 ≤ ⌊secs / avg⌋ := by
    have hlt : ((n - 1 : ℤ) : ℚ) < secs / avg := by
      rw [lt_div_iff₀ havg]
      push_cast
      exact h
    have hle : (n - 1 : ℤ) ≤ ⌊secs / avg⌋ := Int.le_floor.mpr hlt.le
    have hcast : ((n - 1 : ℤ) : ℚ) ≤ ⌊secs / avg⌋ := by exact_mod_cast hle
    push_cast at hcast
    exact hcast
  have hover : avg - floatMod secs avg = avg * (⌊secs / avg⌋ + 1) - secs := by
    rw [floatMod]
    ring
  have hmax := le_max_right minAvgTestOverflowSec (avg - floatMod secs avg)
  have hpos : 0 ≤ max minAvgTestOverflowSec (avg - floatMod secs avg) :=
    le_max_of_le_left (by norm_num [minAvgTestOverflowSec])
  have hn : (n : ℚ) * avg ≤ avg * (⌊secs / avg⌋ + 1) := by
    rw [mul_comm]
    exact mul_le_mul_of_nonneg_left (by linarith) havg.le
  rw [avgTestTimeMultiplier]
  push_cast
  linarith

/-! ## The timeout -/

/-- The condition on the settings. When one execution is longer than the repeat time and there is a
minimum, the minimum is positive. Otherwise the minimum number of executions fits into the repeat
time with its padding. A timeout of zero overrides nothing. -/
def ExecTimeoutFits (c : RepeatConfig) (secs : ℤ) (avg : ℚ) : Prop :=
  if secs < avg ∧ c.repeatTestsMin.getD 0 ≠ 0 then
    0 < c.repeatTestsMin.getD 0 ∨ ⌈avg * 3 * c.repeatTestsMin.getD 0⌉ = 0
  else
    (max 1 (c.repeatTestsMin.getD 0) : ℤ) * avg ≤ ⌈secs + max 60 (avg - floatMod secs avg) * 3⌉ ∨
      ⌈secs + max 60 (avg - floatMod secs avg) * 3⌉ = 0

section Timeout

variable {c : RepeatConfig} {secs : ℤ} {ident : ℕ} {avg : ℚ}

/-- The timeout is enough for the executions. -/
def Covers (c : RepeatConfig) (secs : ℤ) (ident : ℕ) (avg : ℚ) (execTimeout : ℤ) : Prop :=
  ∀ n, (c.queueElem secs ident).RunUntilDone (List.replicate n avg) → n * avg ≤ execTimeout

/-- The branch for long executions: the test is executed as often as the minimum says. -/
theorem covers_long (ident : ℕ) (havg : 0 < avg) (hlong : (secs : ℚ) < avg) :
    Covers c secs ident avg ⌈avg * 3 * c.repeatTestsMin.getD 0⌉ ↔ 0 < c.repeatTestsMin.getD 0 := by
  constructor
  · intro h
    by_contra hneg
    obtain ⟨n, hn⟩ := exists_executions c secs ident havg
    have hone : (1 : ℚ) ≤ n := by
      have hle := (le_max_left 1 _).trans (min_le_executions hn)
      exact_mod_cast hle
    have hceil : ⌈avg * 3 * c.repeatTestsMin.getD 0⌉ ≤ 0 := by
      rw [Int.ceil_le, Int.cast_zero]
      refine mul_nonpos_of_nonneg_of_nonpos (by linarith) ?_
      exact_mod_cast not_lt.mp hneg
    have hceil' : (⌈avg * 3 * c.repeatTestsMin.getD 0⌉ : ℚ) ≤ 0 := by exact_mod_cast hceil
    have hle := h n hn
    have hmul : avg ≤ n * avg := le_mul_of_one_le_left havg.le hone
    linarith
  · intro hpos n hn
    refine le_trans ?_ (Int.le_ceil _)
    have hle : (n : ℤ) ≤ c.repeatTestsMin.getD 0 := by
      obtain hle | ⟨hlt, hn⟩ := executions_cases hn
      · rwa [max_eq_right hpos] at hle
      · -- A second execution would start after the repeat time.
        exfalso
        have htwo : (1 : ℚ) ≤ n - 1 := by
          have htwo : (2 : ℚ) ≤ n := by exact_mod_cast hn
          linarith
        have hmul : avg ≤ (n - 1) * avg := le_mul_of_one_le_left havg.le htwo
        linarith
    have hle' : (n : ℚ) ≤ c.repeatTestsMin.getD 0 := by exact_mod_cast hle
    have hmul : n * avg ≤ c.repeatTestsMin.getD 0 * avg := mul_le_mul_of_nonneg_right hle' havg.le
    have hpos' : 0 ≤ (c.repeatTestsMin.getD 0 : ℚ) * avg :=
      mul_nonneg (by exact_mod_cast hpos.le) havg.le
    linarith

/-- The branch for the repeat time. -/
theorem covers_repeat (ident : ℕ) (havg : 0 < avg) :
    Covers c secs ident avg ⌈secs + max 60 (avg - floatMod secs avg) * 3⌉ ↔
      (max 1 (c.repeatTestsMin.getD 0) : ℤ) * avg ≤
        ⌈secs + max 60 (avg - floatMod secs avg) * 3⌉ := by
  constructor
  · intro h
    obtain ⟨n, hn⟩ := exists_executions c secs ident havg
    refine le_trans (mul_le_mul_of_nonneg_right ?_ havg.le) (h n hn)
    exact_mod_cast min_le_executions hn
  · intro h n hn
    obtain hle | ⟨hlt, -⟩ := executions_cases hn
    · refine le_trans (mul_le_mul_of_nonneg_right ?_ havg.le) h
      exact_mod_cast hle
    · exact (mul_le_of_lt_secs havg hlt).trans (Int.le_ceil _)

/-- `_calculate_exec_timeout` has a value when there is a repeat time. -/
theorem covers_calculateExecTimeout (ident : ℕ) (havg : 0 < avg)
    (hsecs : c.repeatTestsSecs = some secs) :
    ∃ t, calculateExecTimeout c avg = .ok t ∧
      ((t ≠ 0 → Covers c secs ident avg t) ↔ ExecTimeoutFits c secs avg) := by
  have hbranch : avg > secs ∧ truthy c.repeatTestsMin = true ↔
      (secs : ℚ) < avg ∧ c.repeatTestsMin.getD 0 ≠ 0 := by simp [truthy]
  rw [calculateExecTimeout, hsecs, ExecTimeoutFits]
  by_cases hlong : (secs : ℚ) < avg ∧ c.repeatTestsMin.getD 0 ≠ 0
  · refine ⟨_, if_pos (hbranch.mpr hlong), ?_⟩
    rw [if_pos hlong, ← covers_long ident havg hlong.1, avgTestTimeMultiplier, or_comm,
      or_iff_not_imp_left]
    exact Iff.rfl
  · refine ⟨_, if_neg (fun h => hlong (hbranch.mp h)), ?_⟩
    rw [if_neg hlong, ← covers_repeat ident havg, minAvgTestOverflowSec,
      avgTestTimeMultiplier, or_comm, or_iff_not_imp_left]
    exact Iff.rfl

/-- **When the timeout is long enough.** `_generate_timeouts` does not fail for a test with a known
runtime, and a value that overrides the exec timeout is enough for all executions of the test,
exactly when there is a repeat time and the settings fit. -/
theorem exec_timeout_suffices_iff (c : RepeatConfig) (test : String) (stats : List TestRuntime)
    (ident : ℕ) (avg : ℚ) (hruntime : parseAvgTestRuntime test stats = some avg) (havg : 0 < avg) :
    (∃ info, generateTimeouts c test stats = .ok info ∧
        ∀ t ∈ info.execOverride, ∀ secs ∈ c.repeatTestsSecs, Covers c secs ident avg t) ↔
      ∃ secs ∈ c.repeatTestsSecs, ExecTimeoutFits c secs avg := by
  have hfilter : (parseAvgTestRuntime test stats).filter (· ≠ 0) = some avg := by
    rw [hruntime]
    simp [havg.ne']
  rw [generateTimeouts, hfilter]
  dsimp only
  cases hsecs : c.repeatTestsSecs with
  | none =>
    rw [calculateExecTimeout, hsecs]
    constructor
    · rintro ⟨_, h, -⟩
      cases h
    · rintro ⟨_, h, -⟩
      cases h
  | some secs =>
    obtain ⟨t, ht, hfits⟩ := covers_calculateExecTimeout ident havg hsecs
    have hoverridden : TimeoutInfo.overridden (some t) (some (calculateTimeout avg)) =
        .ok ⟨false, some t, some (calculateTimeout avg)⟩ := by
      have hpos : 300 ≤ calculateTimeout avg := le_max_left _ _
      have htruthy : truthy (some (calculateTimeout avg)) = true := by
        simp [truthy]
        omega
      rw [TimeoutInfo.overridden, ensure, if_pos (.inr htruthy)]
      rfl
    rw [ht]
    constructor
    · rintro ⟨info, hinfo, hcovers⟩
      have heq := hoverridden.symm.trans hinfo
      cases heq
      refine ⟨secs, rfl, hfits.mp fun hne => hcovers t ?_ secs rfl⟩
      simp [TimeoutInfo.execOverride, TimeoutInfo.cmd, hne]
    · rintro ⟨secs', hsecs', h⟩
      cases hsecs'
      refine ⟨_, hoverridden, fun t' ht' secs' hsecs' => ?_⟩
      cases hsecs'
      obtain ⟨rfl, hne⟩ : t = t' ∧ t' ≠ 0 := by
        simpa [TimeoutInfo.execOverride, TimeoutInfo.cmd, and_comm, Option.filter_eq_some_iff]
          using ht'
      exact hfits.mpr h hne

end Timeout

/-! ## Three settings -/

/-- A repeat time without a minimum. -/
theorem exec_timeout_suffices_600_secs :
    let c : RepeatConfig := { repeatTestsSecs := some 600 }
    ∃ info, generateTimeouts c "dir/test2.js" [⟨"dir/test2.js", 4551 / 10⟩] = .ok info ∧
      ∀ t ∈ info.execOverride, ∀ secs ∈ c.repeatTestsSecs, Covers c secs 0 (4551 / 10) t := by
  intro c
  refine (exec_timeout_suffices_iff c "dir/test2.js" _ 0 (4551 / 10) rfl (by norm_num)).mpr
    ⟨600, rfl, ?_⟩
  have hmod : floatMod (600 : ℤ) (4551 / 10) = 1449 / 10 := by
    rw [floatMod]
    norm_num
  have hmin : c.repeatTestsMin.getD 0 = 0 := rfl
  rw [ExecTimeoutFits, hmod, hmin, if_neg (fun h => h.2 rfl)]
  refine .inl ?_
  norm_num

/-- **A minimum that the timeout forgets.** A test of 100 seconds is repeated for 600 seconds, and at
least 100 times. The timeout is 900 seconds, and the executions take 10000 seconds. Without a repeat
time, `_generate_timeouts` raises a `TypeError`. -/
theorem exec_timeout_too_short :
    let c : RepeatConfig := { repeatTestsSecs := some 600, repeatTestsMin := some 100 }
    c.validate = .ok c ∧
      generateTimeouts c "a.js" [⟨"a.js", 100⟩] = .ok ⟨false, some 900, some 300⟩ ∧
      (c.queueElem 600 0).RunUntilDone (List.replicate 100 100) ∧
      ((900 : ℤ) : ℚ) < (100 : ℕ) * 100 ∧
      RepeatConfig.validate {} = .ok {} ∧
      generateTimeouts {} "a.js" [⟨"a.js", 100⟩] = .error .typeError := by
  intro c
  refine ⟨rfl, ?_, ?_, by norm_num, rfl, rfl⟩
  · decide +kernel
  · refine executions_iff.mpr ⟨by decide, ?_, fun k _ hlt => .inl ?_⟩
    · rintro (hlt | ⟨-, hlt⟩)
      · exact absurd hlt (by decide)
      · norm_num at hlt
    · have hmin : c.repeatTestsMin.getD 0 = 100 := rfl
      omega

end MongoTests.Suites
