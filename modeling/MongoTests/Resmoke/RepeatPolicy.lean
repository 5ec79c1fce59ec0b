import MongoTests.Lib.Checked
import MongoTests.Lib.Machine
import MongoTests.Resmoke.TestQueue

/-!
# Repeating a test for a time

From the command line to the runs of a test: `_update_config_vars` and `_validate_config` of
`resmokelib/parser.py`, `SuiteOptions.resolve` of `config.py`, the queue element of
`queue_element.py` and the loop of `Job._run`, here with one element and no interrupt.

* `validateConfig`: the settings are accepted or `parser.error` is called; `None > 1` is a
  `TypeError`.
* `jobRound`, `Runs`: the rounds of the loop, with the durations of an infinite sequence.
* `shouldRequeue_elem`, `eq_state_of_runs`: whether the element is in the queue after `k` runs.
* **`repeat_policy_iff`**: the validator and the runs follow the policy unless a maximum and a time
  are given without a minimum. `max_without_min_raises`: such a command line.
-/

namespace MongoTests.Resmoke

open MongoTests.Lib

variable {τ : Type*}

/-! ## The parser -/

/-- The command line options about repeating tests; `none` is an option that is not given. -/
structure RepeatOptions (τ : Type*) where
  repeatTests : Option ℤ
  repeatTestsMax : Option ℤ
  repeatTestsMin : Option ℤ
  repeatTestsSecs : Option τ
  mixedBinVersions : Option (List String)

/-- The variables of the module `config` that `_validate_config` reads. -/
structure Settings (τ : Type*) where
  repeatTests : ℤ
  repeatTestsMax : Option ℤ
  repeatTestsMin : Option ℤ
  repeatTestsSecs : Option τ
  mixedBinVersions : Option (List String)

/-- `_update_config_vars`: what is not given has its default. -/
def updateConfigVars (o : RepeatOptions τ) : Settings τ where
  repeatTests := o.repeatTests.getD 1
  repeatTestsMax := o.repeatTestsMax
  repeatTestsMin := o.repeatTestsMin
  repeatTestsSecs := o.repeatTestsSecs
  mixedBinVersions := o.mixedBinVersions

/-- How `_validate_config` ends when it does not return. -/
inductive ValidateError
  /-- `parser.error(message)` -/
  | parserError (message : String)
  /-- An exception of Python. -/
  | typeError
  deriving DecidableEq, Repr

/-- `a > b` in Python: `None` cannot be compared. -/
def pyGt (a b : Option ℤ) : Except ValidateError Bool :=
  match a, b with
  | some a, some b => .ok (decide (b < a))
  | _, _ => .error .typeError

/-- The truth value of an optional time. -/
def truthyTime [Zero τ] [DecidableEq τ] (o : Option τ) : Bool := o.getD 0 != 0

section Parser

variable [Zero τ] [DecidableEq τ]

/-- The checks that are made when there is a maximum. -/
def validateMax (c : Settings τ) : Except ValidateError Unit := do
  ensure (truthyTime c.repeatTestsSecs)
    (.parserError "Must specify --repeatTestsSecs with --repeatTestsMax")
  let tooMany ← pyGt c.repeatTestsMin c.repeatTestsMax
  ensure (tooMany = false) (.parserError "--repeatTestsSecsMin > --repeatTestsMax")

def validateConfig (c : Settings τ) : Except ValidateError Unit := do
  if truthy c.repeatTestsMax then validateMax c
  ensure (truthy c.repeatTestsMin → truthyTime c.repeatTestsSecs)
    (.parserError "Must specify --repeatTestsSecs with --repeatTestsMin")
  ensure (¬ (1 < c.repeatTests ∧ truthyTime c.repeatTestsSecs))
    (.parserError "Cannot specify --repeatTests and --repeatTestsSecs")
  ensure (∀ versions ∈ c.mixedBinVersions, ∀ version ∈ versions, version ∈ ["old", "new"])
    (.parserError
      "Must specify binary versions as 'old' or 'new' in format 'version1-version2'")

/-- `SuiteOptions.ALL_INHERITED.resolve()`. -/
def resolve (failFast : Bool) (c : Settings τ) : SuiteOptions τ where
  failFast := failFast
  numRepeatTestsMin := c.repeatTestsMin
  numRepeatTestsMax := c.repeatTestsMax
  timeRepeatTestsSecs := c.repeatTestsSecs

end Parser

/-! ## The loop of the job -/

/-- The queue of `Job._run`, and how often an element has been executed. -/
structure JobLoop (τ : Type*) where
  queue : Queue (QueueElem τ)
  executions : ℕ

section Loop

variable [Add τ] [LE τ] [DecidableLE τ]

/-- One round: the element at the front is executed, for `jobTime`, and put back if it should be.
`none`: the queue is empty, or `task_done()` raises. -/
def jobRound (s : JobLoop τ) (jobTime : τ) : Option (JobLoop τ) := do
  let (e, queue) ← s.queue.getNowait
  let e := e.jobCompleted jobTime
  let queue ← queue.taskDone
  some ⟨if e.shouldRequeue then queue.put e else queue, s.executions + 1⟩

/-- The states of the loop when it starts with `e` alone and execution `k` takes the time `d k`. -/
def Runs (d : ℕ → τ) (e : QueueElem τ) : JobLoop τ → Prop :=
  Reach jobRound (fun s t => t = d s.executions) (· = ⟨.ofList [e], 0⟩)

end Loop

/-- The time that the first `k` executions take. -/
def elapsed [Zero τ] [Add τ] (d : ℕ → τ) : ℕ → τ
  | 0 => 0
  | k + 1 => elapsed d k + d k

/-! ## The policy -/

section Policy

variable [Zero τ] [Add τ] [LinearOrder τ]

/-- What the options promise for one element. -/
structure Follows (c : Settings τ) (secs : τ) (d : ℕ → τ) (e : QueueElem τ) : Prop where
  /-- It is run once and as often as the minimum says. -/
  atLeast : ∃ s, Runs d e s ∧ max 1 (c.repeatTestsMin.getD 0) ≤ s.executions
  /-- It is not run more often than the maximum says. -/
  atMost : ∀ m ∈ c.repeatTestsMax, ∀ s, Runs d e s → (s.executions : ℤ) ≤ m
  /-- It is not run again when the minimum and the time are reached. -/
  stops : ∀ s, Runs d e s → c.repeatTestsMin.getD 0 ≤ s.executions →
    secs ≤ elapsed d s.executions → s.queue.empty = true
  /-- It is run again before. -/
  goesOn : ∀ s, Runs d e s →
    (s.executions : ℤ) < c.repeatTestsMin.getD 0 ∨
        (∀ m ∈ c.repeatTestsMax, (s.executions : ℤ) < m) ∧ elapsed d s.executions < secs →
      (jobRound s (d s.executions)).isSome

/-- The validator accepts the settings or calls `parser.error`, and with accepted settings every
element is run as they say. -/
structure RepeatPolicy (c : Settings τ) : Prop where
  validates : validateConfig c = .ok () ∨ ∃ message, validateConfig c = .error (.parserError message)
  follows : validateConfig c = .ok () → ∀ secs ∈ c.repeatTestsSecs,
    ∀ d : ℕ → τ, (∀ k, 0 ≤ d k) → ∀ ident failFast,
      Follows c secs d (queueElemFactory ident (resolve failFast c))

/-- All values that are given are positive. -/
structure RepeatOptions.Positive (o : RepeatOptions τ) : Prop where
  tests : ∀ n ∈ o.repeatTests, 0 < n
  max : ∀ n ∈ o.repeatTestsMax, 0 < n
  min : ∀ n ∈ o.repeatTestsMin, 0 < n
  secs : ∀ t ∈ o.repeatTestsSecs, 0 < t

end Policy

/-! ## The validator -/

section Validator

variable [Zero τ] [DecidableEq τ] {c : Settings τ}

theorem pyGt_eq_ok {a b : Option ℤ} {r : Bool} :
    pyGt a b = .ok r ↔ ∃ x y, a = some x ∧ b = some y ∧ decide (y < x) = r := by
  cases a <;> cases b <;> simp [pyGt]

theorem pyGt_eq_typeError {a b : Option ℤ} :
    pyGt a b = .error .typeError ↔ a = none ∨ b = none := by
  cases a <;> cases b <;> simp [pyGt]

theorem validateMax_typeError (hmax : c.repeatTestsMax ≠ none) :
    validateMax c = .error .typeError ↔
      truthyTime c.repeatTestsSecs = true ∧ c.repeatTestsMin = none := by
  simp [validateMax, bind_eq_error, ensure_eq_error, ensure_eq_ok, pyGt_eq_typeError, hmax]

theorem ne_none_of_truthy {o : Option ℤ} (h : truthy o = true) : o ≠ none := by
  rintro rfl
  cases h

theorem validateConfig_typeError :
    validateConfig c = .error .typeError ↔
      truthy c.repeatTestsMax = true ∧ truthyTime c.repeatTestsSecs = true ∧
        c.repeatTestsMin = none := by
  by_cases h : truthy c.repeatTestsMax = true
  · simp [validateConfig, bind_eq_error, ensure_eq_error, h, validateMax_typeError (ne_none_of_truthy h)]
  · simp [validateConfig, bind_eq_error, ensure_eq_error, h]

/-- Accepted settings have a minimum below the maximum. -/
theorem le_max_of_validateConfig (h : validateConfig c = .ok ()) {m : ℤ}
    (hm : m ∈ c.repeatTestsMax) (hpos : 0 < m) : c.repeatTestsMin.getD 0 ≤ m := by
  have htruthy : truthy c.repeatTestsMax = true := by
    rw [Option.mem_def.mp hm]
    exact bne_iff_ne.mpr hpos.ne'
  rw [validateConfig, if_pos htruthy] at h
  obtain ⟨_, hmax, -⟩ := bind_eq_ok.mp h
  rw [validateMax] at hmax
  obtain ⟨_, -, hrest⟩ := bind_eq_ok.mp hmax
  obtain ⟨r, hgt, hr⟩ := bind_eq_ok.mp hrest
  obtain ⟨x, y, hx, hy, hlt⟩ := pyGt_eq_ok.mp hgt
  obtain rfl : m = y := Option.some.inj (hm.symm.trans hy)
  have hle := (ensure_eq_ok.mp hr) ▸ hlt
  rw [hx]
  exact not_lt.mp (of_decide_eq_false hle)

end Validator

/-! ## `should_requeue` -/

theorem truthy_iff {o : Option ℤ} : truthy o = true ↔ ∃ n ∈ o, n ≠ 0 := by
  cases o <;> simp [truthy]

theorem stillNeedMinimumRuns_iff {r : RepeatTime τ} (h : ∀ n ∈ r.repeatNumMin, 0 < n) :
    r.stillNeedMinimumRuns = true ↔ (r.repeatNum : ℤ) < r.repeatNumMin.getD 0 := by
  unfold RepeatTime.stillNeedMinimumRuns
  rw [Bool.and_eq_true, decide_eq_true_iff, truthy_iff]
  cases hr : r.repeatNumMin with
  | none => simp
  | some n => simp [(h n hr).ne']

theorem haveMaxRunsBeenSatisfied_iff {r : RepeatTime τ} (h : ∀ n ∈ r.repeatNumMax, 0 < n) :
    r.haveMaxRunsBeenSatisfied = true ↔ ∃ n ∈ r.repeatNumMax, n ≤ r.repeatNum := by
  unfold RepeatTime.haveMaxRunsBeenSatisfied
  rw [Bool.and_eq_true, decide_eq_true_iff, truthy_iff]
  cases hr : r.repeatNumMax with
  | none => simp
  | some n => simp [(h n hr).ne']

theorem shouldRequeue_iff [LinearOrder τ] {r : RepeatTime τ} :
    r.shouldRequeue = true ↔ r.stillNeedMinimumRuns = true ∨
      r.haveMaxRunsBeenSatisfied ≠ true ∧ r.repeatTimeElapsed < r.repeatSecs := by
  unfold RepeatTime.shouldRequeue RepeatTime.hasMinRuntimeBeenSatisfied
  split_ifs <;> simp_all

/-! ## The states of the loop -/

section States

variable [Zero τ] [Add τ] [LinearOrder τ] {c : Settings τ} {secs : τ} {d : ℕ → τ} {ident : ℕ}

variable (c secs d ident) in
/-- The element after `k` executions. -/
def elem (k : ℕ) : QueueElem τ :=
  ⟨ident, some ⟨c.repeatTestsMin, c.repeatTestsMax, secs, elapsed d k, k⟩⟩

variable (c secs d ident) in
/-- The state after `k` executions. -/
def state (k : ℕ) : JobLoop τ :=
  ⟨.ofList (if (elem c secs d ident k).shouldRequeue then [elem c secs d ident k] else []), k⟩

/-- **When the element is put back.** -/
theorem shouldRequeue_elem (hmin : ∀ n ∈ c.repeatTestsMin, 0 < n)
    (hmax : ∀ n ∈ c.repeatTestsMax, 0 < n) (k : ℕ) :
    (elem c secs d ident k).shouldRequeue = true ↔
      (k : ℤ) < c.repeatTestsMin.getD 0 ∨
        (∀ m ∈ c.repeatTestsMax, (k : ℤ) < m) ∧ elapsed d k < secs := by
  refine shouldRequeue_iff.trans ?_
  rw [stillNeedMinimumRuns_iff hmin, Ne, haveMaxRunsBeenSatisfied_iff hmax]
  simp only [not_exists, not_and, not_le]

/-- One round takes the loop from one state to the next. -/
theorem jobRound_state {k : ℕ} (h : (elem c secs d ident k).shouldRequeue = true) :
    jobRound (state c secs d ident k) (d k) = some (state c secs d ident (k + 1)) := by
  have hcompleted : (elem c secs d ident k).jobCompleted (d k) = elem c secs d ident (k + 1) := rfl
  have hround : jobRound ⟨.ofList [elem c secs d ident k], k⟩ (d k) =
      some ⟨if (elem c secs d ident (k + 1)).shouldRequeue then
        (⟨[], 0⟩ : Queue (QueueElem τ)).put (elem c secs d ident (k + 1)) else ⟨[], 0⟩, k + 1⟩ := rfl
  rw [state, if_pos h, hround, state]
  split_ifs <;> rfl

theorem jobRound_state_none {k : ℕ} (h : (elem c secs d ident k).shouldRequeue ≠ true) (t : τ) :
    jobRound (state c secs d ident k) t = none := by
  rw [state, if_neg h]
  rfl

variable (hstart : (elem c secs d ident 0).shouldRequeue = true)

include hstart

theorem state_zero : state c secs d ident 0 = ⟨.ofList [elem c secs d ident 0], 0⟩ := by
  rw [state, if_pos hstart]

/-- The run lemma: the states are known. -/
theorem eq_state_of_runs {s : JobLoop τ} (h : Runs d (elem c secs d ident 0) s) :
    s = state c secs d ident s.executions := by
  refine Reach.inv (I := fun s => s = state c secs d ident s.executions) ?_ ?_ h
  · rintro s rfl
    exact (state_zero hstart).symm
  · intro s t s' hs ht hround
    by_cases hrequeue : (elem c secs d ident s.executions).shouldRequeue = true
    · rw [hs, ht, jobRound_state hrequeue] at hround
      cases hround
      rfl
    · rw [hs, jobRound_state_none hrequeue] at hround
      cases hround

/-- The element is run `k` times if it is put back each time before. -/
theorem runs_state {k : ℕ} (h : ∀ j < k, (elem c secs d ident j).shouldRequeue = true) :
    Runs d (elem c secs d ident 0) (state c secs d ident k) := by
  induction k with
  | zero => exact .start (state_zero hstart)
  | succ k ih =>
    have hk := ih fun j hj => h j (Nat.lt_succ_of_lt hj)
    exact .next hk rfl (jobRound_state (h k (Nat.lt_succ_self k)))

/-- The element is in the queue as long as it should be put back. -/
theorem empty_iff_of_runs {s : JobLoop τ} (h : Runs d (elem c secs d ident 0) s) :
    s.queue.empty = true ↔ (elem c secs d ident s.executions).shouldRequeue ≠ true := by
  rw [eq_state_of_runs hstart h, Queue.empty_iff]
  by_cases hrequeue : (elem c secs d ident s.executions).shouldRequeue = true
  · simp [state, Queue.ofList, hrequeue]
  · simp [state, Queue.ofList, hrequeue]

theorem isSome_jobRound_of_runs {s : JobLoop τ} (h : Runs d (elem c secs d ident 0) s)
    (hrequeue : (elem c secs d ident s.executions).shouldRequeue = true) :
    (jobRound s (d s.executions)).isSome := by
  rw [eq_state_of_runs hstart h]
  exact Option.isSome_iff_exists.mpr ⟨_, jobRound_state hrequeue⟩

/-- The element is not run more than `n` times if it is not put back after the `n`-th. -/
theorem executions_le {n : ℤ} (hn : 0 ≤ n)
    (hlt : ∀ k : ℕ, (elem c secs d ident k).shouldRequeue = true → (k : ℤ) < n) {s : JobLoop τ}
    (h : Runs d (elem c secs d ident 0) s) : (s.executions : ℤ) ≤ n := by
  refine Reach.inv_of (J := Runs d (elem c secs d ident 0)) (I := fun s => (s.executions : ℤ) ≤ n)
    (fun _ hs => hs) ?_ ?_ h
  · rintro s rfl
    exact hn
  · intro s t s' hs hs' _ ht hround
    by_cases hrequeue : (elem c secs d ident s.executions).shouldRequeue = true
    · have hk := hlt s.executions hrequeue
      rw [eq_state_of_runs hstart hs, ht, jobRound_state hrequeue] at hround
      cases hround
      simp only [state, Nat.cast_add, Nat.cast_one]
      omega
    · rw [eq_state_of_runs hstart hs, jobRound_state_none hrequeue] at hround
      cases hround

end States

/-! ## The policy holds -/

section Main

variable [Zero τ] [Add τ] [LinearOrder τ] {o : RepeatOptions τ}

theorem queueElemFactory_resolve {c : Settings τ} {secs : τ} (h : secs ∈ c.repeatTestsSecs)
    (hsecs : 0 < secs) (d : ℕ → τ) (ident : ℕ) (failFast : Bool) :
    queueElemFactory ident (resolve failFast c) = elem c secs d ident 0 := by
  simp [queueElemFactory, resolve, Option.mem_def.mp h, hsecs.ne', elem, elapsed]

/-- With accepted settings, every element is run as they say. -/
theorem follows_of_validateConfig {c : Settings τ} (hvalid : validateConfig c = .ok ())
    (hmax : ∀ n ∈ c.repeatTestsMax, 0 < n) (hmin : ∀ n ∈ c.repeatTestsMin, 0 < n) {secs : τ}
    (hsecs : 0 < secs) (d : ℕ → τ) (ident : ℕ) : Follows c secs d (elem c secs d ident 0) := by
  have hstart : (elem c secs d ident 0).shouldRequeue = true :=
    (shouldRequeue_elem hmin hmax 0).mpr (.inr ⟨fun m hm => hmax m hm, hsecs⟩)
  constructor
  · refine ⟨_, runs_state hstart (k := (max 1 (c.repeatTestsMin.getD 0)).toNat) ?_, ?_⟩
    · intro j hj
      rcases Nat.eq_zero_or_pos j with rfl | hpos
      · exact hstart
      · exact (shouldRequeue_elem hmin hmax j).mpr (.inl (by omega))
    · simp only [state]
      omega
  · intro m hm s hs
    refine executions_le hstart (hmax m hm).le ?_ hs
    intro k hk
    rcases (shouldRequeue_elem hmin hmax k).mp hk with hlt | hlt
    · exact hlt.trans_le (le_max_of_validateConfig hvalid hm (hmax m hm))
    · exact hlt.1 m hm
  · intro s hs hle htime
    rw [empty_iff_of_runs hstart hs, Ne, shouldRequeue_elem hmin hmax, not_or, not_and]
    exact ⟨not_lt.mpr hle, fun _ => not_lt.mpr htime⟩
  · intro s hs hmore
    exact isSome_jobRound_of_runs hstart hs ((shouldRequeue_elem hmin hmax _).mpr hmore)

theorem RepeatPolicy.ne_typeError {c : Settings τ} (h : RepeatPolicy c) :
    validateConfig c ≠ .error .typeError := by
  intro htypeError
  rcases h.validates with hok | ⟨message, herror⟩
  · rw [hok] at htypeError
    cases htypeError
  · rw [herror] at htypeError
    cases htypeError

/-- **When the repeat policy holds.** For all options that are absent or positive, the validator
accepts or calls `parser.error`, and accepted options are followed in every run, if and only if it
is not the case that a maximum and a time are given without a minimum. -/
theorem repeat_policy_iff (hpos : o.Positive) :
    RepeatPolicy (updateConfigVars o) ↔
      ¬ (o.repeatTestsMax.isSome ∧ o.repeatTestsSecs.isSome ∧ o.repeatTestsMin = none) := by
  have htype : validateConfig (updateConfigVars o) = .error .typeError ↔
      o.repeatTestsMax.isSome ∧ o.repeatTestsSecs.isSome ∧ o.repeatTestsMin = none := by
    have hmax : truthy o.repeatTestsMax = true ↔ o.repeatTestsMax.isSome := by
      rw [truthy_iff, Option.isSome_iff_exists]
      exact exists_congr fun n => and_iff_left_of_imp fun hn => (hpos.max n hn).ne'
    have hsecs : truthyTime o.repeatTestsSecs = true ↔ o.repeatTestsSecs.isSome := by
      cases hs : o.repeatTestsSecs with
      | none => simp [truthyTime]
      | some t => simp [truthyTime, (hpos.secs t hs).ne']
    rw [validateConfig_typeError, ← hmax, ← hsecs]
    rfl
  rw [← htype]
  constructor
  · exact RepeatPolicy.ne_typeError
  · intro hne
    refine ⟨?_, fun hvalid secs hsecs d _ ident failFast => ?_⟩
    · cases hresult : validateConfig (updateConfigVars o) with
      | ok => exact .inl rfl
      | error e =>
        cases e with
        | parserError message => exact .inr ⟨message, rfl⟩
        | typeError => exact absurd hresult hne
    · have hpos' : 0 < secs := hpos.secs secs hsecs
      rw [queueElemFactory_resolve hsecs hpos' d]
      exact follows_of_validateConfig hvalid hpos.max hpos.min hpos' d ident

end Main

/-- Seconds; `--repeatTests` and the versions are not given. -/
def timedOptions (repeatTestsMax repeatTestsMin : Option ℤ) (secs : ℕ) : RepeatOptions ℕ where
  repeatTests := none
  repeatTestsMax := repeatTestsMax
  repeatTestsMin := repeatTestsMin
  repeatTestsSecs := some secs
  mixedBinVersions := none

theorem positive_timedOptions {a b : Option ℤ} {secs : ℕ} (ha : ∀ n ∈ a, 0 < n)
    (hb : ∀ n ∈ b, 0 < n) (hsecs : 0 < secs) : (timedOptions a b secs).Positive := by
  refine ⟨?_, ha, hb, ?_⟩
  · rintro n ⟨⟩
  · rintro t ⟨⟩
    exact hsecs

/-- Two to five runs within ten minutes. -/
theorem repeat_policy_two_to_five :
    (timedOptions (some 5) (some 2) 600).Positive ∧
      validateConfig (updateConfigVars (timedOptions (some 5) (some 2) 600)) = .ok () ∧
      RepeatPolicy (updateConfigVars (timedOptions (some 5) (some 2) 600)) := by
  have hpos : (timedOptions (some 5) (some 2) 600).Positive :=
    positive_timedOptions (by decide) (by decide) (by decide)
  exact ⟨hpos, by decide, (repeat_policy_iff hpos).mpr (by decide)⟩

/-- **A maximum without a minimum**: `--repeatTestsMax=5 --repeatTestsSecs=600` compares `None` with
five. -/
theorem max_without_min_raises :
    (timedOptions (some 5) none 600).Positive ∧
      validateConfig (updateConfigVars (timedOptions (some 5) none 600)) = .error .typeError ∧
      ¬ RepeatPolicy (updateConfigVars (timedOptions (some 5) none 600)) := by
  have hpos : (timedOptions (some 5) none 600).Positive :=
    positive_timedOptions (by decide) (by decide) (by decide)
  have hraises :
      validateConfig (updateConfigVars (timedOptions (some 5) none 600)) = .error .typeError := by
    decide
  exact ⟨hpos, hraises, fun h => h.ne_typeError hraises⟩

end MongoTests.Resmoke
