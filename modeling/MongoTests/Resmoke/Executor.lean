import MongoTests.Resmoke.JobDrain

/-!
# The suite executor

Embeds `resmokelib/testing/executor.py`: `TestSuiteExecutor.run` repeats the suite, starting the job
threads in every repetition (`_run_tests`), and decides at the end who tears the fixtures down and
which return code the suite gets.

* `Pc`: the position of the main thread, with every point of `_run_tests` where a
  `KeyboardInterrupt` can arrive.
* `step`: one step of the main thread or of one of the job threads it has started; the job threads
  are those of `Job.step`, on the queue and the flags of the current repetition.
* `Threads`, `Phase`: the invariants of the threads and of the main thread.
* **`return_code_sound`**: a suite that ends with return code zero has passed.
-/

namespace MongoTests.Resmoke.Executor

open MongoTests.Lib

variable {n : ℕ} {τ : Type*}

/-! ## States -/

/-- The executor and the options of its suite; `tests` is the number of tests of the suite. -/
structure Config (n : ℕ) (τ : Type*) where
  options : SuiteOptions τ
  tests : ℕ
  numRepeatTests : ℕ
  numRepeatSuites : ℕ
  numHooks : Fin n → ℕ
  checkIfFixtureRunning : Fin n → Bool

/-- The number of results that a repetition must report. -/
def Config.numTests (cfg : Config n τ) : ℕ := cfg.tests * cfg.numRepeatTests

def Config.numTimesToRepeatTests (cfg : Config n τ) : ℕ :=
  if cfg.numRepeatTests = 0 then 1 else cfg.numRepeatTests

def Config.makeTestQueue [Zero τ] [DecidableEq τ] (cfg : Config n τ) : InitialQueue τ :=
  Resmoke.makeTestQueue cfg.numTimesToRepeatTests cfg.tests cfg.options

/-- The position of the main thread. -/
inductive Pc
  /-- `run`: about to test `num_repeat_suites > 0`. -/
  | loop
  /-- `_run_tests`, before its `try`. -/
  | entered
  /-- `_run_tests`: about to start the next thread, or done with starting them. -/
  | starting
  /-- `_run_tests`: a thread has been started, `threads.append(thr)` is next. -/
  | append
  /-- `_run_tests`: in `test_queue.join`. -/
  | waiting
  /-- `_run_tests`: in the handler of the interrupt, about to set `interrupt_flag`. -/
  | caught
  /-- `_run_tests`: waiting for the threads of the list `threads` to complete. -/
  | joining (interrupted : Bool)
  /-- `run`: `_run_tests` is about to return its report. -/
  | ended (interrupted : Bool)
  /-- `run`, `finally` clause: `teardown_fixture` has been called for the first `k` jobs. -/
  | tearing (k : ℕ) (success raising : Bool)
  | done (raised : Bool)
  deriving DecidableEq, Repr

/-- What `run` sees of a repetition: the combined report, and how the fixtures were set up. -/
structure Repetition (n : ℕ) where
  setup : Fin n → Option Bool
  wasSuccessful : Bool
  results : ℕ

/-- The local variables of `run` and `_run_tests`, and the job threads of the repetition.
`setup` and `teardown` record what `setup_fixture` and `teardown_fixture` have given for each job,
`repetitions` the reports. -/
structure State (n : ℕ) (τ : Type*) where
  pc : Pc
  numRepeatSuites : ℕ
  hasSetupFlag : Bool
  hasTeardownFlag : Bool
  returnCode : ℕ
  suiteReturnCode : Option ℕ
  /-- Whether the threads of this repetition were given a `setup_flag`. -/
  threadSetupFlag : Bool
  started : ℕ
  registered : ℕ
  job : Job.State n τ
  setup : Fin n → Option Bool
  teardown : Fin n → Option Bool
  repetitions : List (Repetition n)

/-- A step of the system and what the environment contributes to it. -/
inductive Act (n : ℕ) (τ : Type*)
  /-- The main thread moves. -/
  | tick
  /-- A job thread moves. -/
  | job (i : Fin n) (o : Job.Outcome τ)
  /-- The main thread gets a `KeyboardInterrupt`. -/
  | interrupt
  /-- `_run_tests` returns its combined report. -/
  | report (wasSuccessful : Bool) (results : ℕ)
  /-- `teardown_fixture` returns to `_teardown_fixtures`, or raises there. -/
  | teardown (result : Option Bool)
  deriving DecidableEq, Repr

/-! ## Steps -/

/-- The arguments of the job threads of this repetition. -/
def State.jobConfig (s : State n τ) (cfg : Config n τ) : Job.Config n τ where
  options := cfg.options
  hasSetupFlag := s.threadSetupFlag
  hasTeardownFlag := s.hasTeardownFlag
  numHooks := cfg.numHooks
  checkIfFixtureRunning := cfg.checkIfFixtureRunning

/-- The `try` of `run` is left, by an exception or not, and the `finally` clause begins. -/
def State.leaveTry (s : State n τ) (raising : Bool) : State n τ :=
  if s.hasTeardownFlag then { s with pc := .done raising, suiteReturnCode := some s.returnCode }
  else { s with pc := .tearing 0 true raising }

/-- `record_test_end`. -/
def State.record (s : State n τ) (wasSuccessful : Bool) (results : ℕ) : State n τ :=
  { s with repetitions := s.repetitions ++ [⟨s.setup, wasSuccessful, results⟩] }

/-- The return code after a repetition: the report's overwrites that of the teardown. -/
def State.reportCode (s : State n τ) (wasSuccessful : Bool) : ℕ :=
  if wasSuccessful then
    if s.hasTeardownFlag && s.job.shared.teardownFlag then 2 else s.returnCode
  else 1

/-- `run` looks at the report of a repetition that was not interrupted. -/
def State.checkReport (cfg : Config n τ) (s : State n τ) (wasSuccessful : Bool) (results : ℕ) :
    State n τ :=
  if !wasSuccessful && cfg.options.failFast then
    State.leaveTry { s with returnCode := s.reportCode wasSuccessful } false
  else if results < cfg.numTests then
    State.leaveTry { s with returnCode := s.reportCode wasSuccessful } true
  else
    { s with
      returnCode := s.reportCode wasSuccessful
      pc := .loop
      numRepeatSuites := s.numRepeatSuites - 1 }

/-- `run` after `_run_tests` has returned and its report is recorded. -/
def State.endRepetition (cfg : Config n τ) (s : State n τ) (interrupted wasSuccessful : Bool)
    (results : ℕ) : State n τ :=
  if s.hasSetupFlag && s.job.shared.setupFlag then
    State.leaveTry { s with returnCode := 2 } false
  else if interrupted then State.leaveTry { s with hasSetupFlag := false } true
  else State.checkReport cfg { s with hasSetupFlag := false } wasSuccessful results

def atSetup : Job.Pc τ → Bool
  | .setup => true
  | _ => false

def atTeardown : Job.Pc τ → Bool
  | .teardown => true
  | _ => false

def succeeded : Job.Outcome τ → Bool
  | .succeeds => true
  | _ => false

/-- Thread `i` has moved, and its fixture may have been set up or torn down by that. -/
def State.recordJob (s : State n τ) (i : Fin n) (o : Job.Outcome τ) (job : Job.State n τ) :
    State n τ :=
  { s with
    job := job
    setup := Function.update s.setup i
      (if atSetup (s.job.jobs i).pc && s.threadSetupFlag then some (succeeded o) else s.setup i)
    teardown := Function.update s.teardown i
      (if atTeardown (s.job.jobs i).pc && s.hasTeardownFlag then some (succeeded o)
        else s.teardown i) }

section Step

variable [Zero τ] [DecidableEq τ] (cfg : Config n τ)

/-- The next repetition: a fresh queue, and a `teardown_flag` if it is the last one. -/
def State.enter (s : State n τ) : State n τ :=
  { s with
    pc := .entered
    hasTeardownFlag := s.numRepeatSuites == 1
    threadSetupFlag := s.hasSetupFlag
    started := 0
    registered := 0
    job := Job.start n cfg.makeTestQueue }

def tickStep (s : State n τ) : Option (State n τ) :=
  match s.pc with
  | .loop =>
    if s.numRepeatSuites = 0 then some (s.leaveTry false)
    else some (s.enter cfg)
  | .entered => some { s with pc := .starting }
  | .starting =>
    if s.started < n then some { s with pc := .append, started := s.started + 1 }
    else some { s with pc := .waiting }
  | .append => some { s with pc := .starting, registered := s.registered + 1 }
  | .waiting => if s.job.shared.queue.join then some { s with pc := .joining false } else none
  | .caught => some { s with
      pc := .joining true
      job := { s.job with
        shared := { s.job.shared with interruptFlag := true, userInterrupted := true } } }
  | .joining interrupted =>
    if ∀ i : Fin n, i.val < s.registered → (s.job.jobs i).pc = .returned then
      some { s with pc := .ended interrupted }
    else none
  | .tearing k success raising =>
    if k < n then none
    else
      let rc := if success then s.returnCode else 2
      some { s with pc := .done raising, returnCode := rc, suiteReturnCode := some rc }
  | _ => none

/-- A `KeyboardInterrupt` is caught while the threads are started and while the queue is joined.
After the `try` of `run`, an interrupt is an exception of `teardown_fixture`. -/
def interruptStep (s : State n τ) : Option (State n τ) :=
  match s.pc with
  | .starting | .append | .waiting => some { s with pc := .caught }
  | .tearing _ _ _ | .done _ => none
  | _ => some (s.leaveTry true)

/-- `_teardown_fixtures` goes on after a failed teardown, but not after an exception. -/
def teardownStep (s : State n τ) (result : Option Bool) : Option (State n τ) :=
  match s.pc with
  | .tearing k success raising =>
    if h : k < n then
      let teardown := Function.update s.teardown ⟨k, h⟩ (some (result.getD false))
      match result with
      | some ok => some { s with teardown, pc := .tearing (k + 1) (success && ok) raising }
      | none => some { s with teardown, pc := .done true }
    else none
  | _ => none

def step [Add τ] [LE τ] [DecidableLE τ] (s : State n τ) : Act n τ → Option (State n τ)
  | .tick => tickStep cfg s
  | .interrupt => interruptStep s
  | .report wasSuccessful results =>
    match s.pc with
    | .ended interrupted =>
      some ((s.record wasSuccessful results).endRepetition cfg interrupted wasSuccessful results)
    | _ => none
  | .teardown result => teardownStep s result
  | .job i o =>
    match s.pc with
    | .done _ => none
    | _ =>
      if i.val < s.started then
        (Job.step (s.jobConfig cfg) s.job (.job i o)).map (s.recordJob i o)
      else none

/-- The start of `run`. -/
def start : State n τ where
  pc := .loop
  numRepeatSuites := cfg.numRepeatSuites
  hasSetupFlag := true
  hasTeardownFlag := false
  returnCode := 0
  suiteReturnCode := none
  threadSetupFlag := true
  started := 0
  registered := 0
  job := Job.start n cfg.makeTestQueue
  setup _ := none
  teardown _ := none
  repetitions := []

end Step

/-! ## What a step can do -/

section Transitions

variable {cfg : Config n τ} {s s' : State n τ}

/-- Where an interrupt is caught. -/
def Pc.catches : Pc → Bool
  | .starting | .append | .waiting => true
  | _ => false

/-- Where an interrupt leaves the `try` of `run`. -/
def Pc.escapes : Pc → Bool
  | .loop | .entered | .caught | .joining _ | .ended _ => true
  | _ => false

/-- How `run` goes on after a repetition whose report `w`, `r` has been recorded. -/
inductive EndStep (cfg : Config n τ) (s : State n τ) (b w : Bool) (r : ℕ) : State n τ → Prop
  | setupFailed : EndStep cfg s b w r (State.leaveTry { s with returnCode := 2 } false)
  | interrupted : b = true →
      EndStep cfg s b w r (State.leaveTry { s with hasSetupFlag := false } true)
  | failFast : EndStep cfg s b w r
      (State.leaveTry { s with hasSetupFlag := false, returnCode := 1 } false)
  | tooFew {rc} : EndStep cfg s b w r
      (State.leaveTry { s with hasSetupFlag := false, returnCode := rc } true)
  | next {rc} : b = false → (s.hasSetupFlag = true → s.job.shared.setupFlag = false) →
      (rc = 0 → s.returnCode = 0 ∧ w = true ∧
        (s.hasTeardownFlag = true → s.job.shared.teardownFlag = false)) → cfg.numTests ≤ r →
      EndStep cfg s b w r { s with
        hasSetupFlag := false, returnCode := rc, pc := .loop
        numRepeatSuites := s.numRepeatSuites - 1 }

theorem State.reportCode_eq_zero {w : Bool} (h : s.reportCode w = 0) :
    s.returnCode = 0 ∧ w = true ∧
      (s.hasTeardownFlag = true → s.job.shared.teardownFlag = false) := by
  unfold State.reportCode at h
  split_ifs at h with hw ht
  refine ⟨h, hw, fun hf => ?_⟩
  rw [hf, Bool.true_and] at ht
  exact Bool.eq_false_iff.mpr ht

theorem EndStep.of_endRepetition (cfg : Config n τ) (s : State n τ) (b w : Bool) (r : ℕ) :
    EndStep cfg s b w r (s.endRepetition cfg b w r) := by
  unfold State.endRepetition State.checkReport
  split_ifs with hsetup hb hff hr
  · exact .setupFailed
  · exact .interrupted hb
  · rw [Bool.and_eq_true, Bool.not_eq_true'] at hff
    rw [hff.1]
    exact .failFast
  · exact .tooFew
  · refine .next (Bool.eq_false_iff.mpr hb) (fun hf => ?_) State.reportCode_eq_zero
      (Nat.le_of_not_lt hr)
    rw [hf, Bool.true_and] at hsetup
    exact Bool.eq_false_iff.mpr hsetup

variable [Zero τ] [DecidableEq τ]

/-- The transitions of the main thread, with their guards. -/
inductive MainStep (cfg : Config n τ) (s : State n τ) : Act n τ → State n τ → Prop
  | finish : s.pc = .loop → s.numRepeatSuites = 0 → MainStep cfg s .tick (s.leaveTry false)
  | enter : s.pc = .loop → s.numRepeatSuites ≠ 0 → MainStep cfg s .tick (s.enter cfg)
  | enterTry : s.pc = .entered → MainStep cfg s .tick { s with pc := .starting }
  | startThread : s.pc = .starting → s.started < n →
      MainStep cfg s .tick { s with pc := .append, started := s.started + 1 }
  | allStarted : s.pc = .starting → n ≤ s.started → MainStep cfg s .tick { s with pc := .waiting }
  | register : s.pc = .append →
      MainStep cfg s .tick { s with pc := .starting, registered := s.registered + 1 }
  | queueJoined : s.pc = .waiting → MainStep cfg s .tick { s with pc := .joining false }
  | setFlag : s.pc = .caught → MainStep cfg s .tick { s with
      pc := .joining true
      job := { s.job with
        shared := { s.job.shared with interruptFlag := true, userInterrupted := true } } }
  | threadsJoined {b} : s.pc = .joining b →
      (∀ i : Fin n, i.val < s.registered → (s.job.jobs i).pc = .returned) →
      MainStep cfg s .tick { s with pc := .ended b }
  | report {b w r s'} : s.pc = .ended b → EndStep cfg (s.record w r) b w r s' →
      MainStep cfg s (.report w r) s'
  | tear {k success raising ok} (h : k < n) : s.pc = .tearing k success raising →
      MainStep cfg s (.teardown (some ok)) { s with
        teardown := Function.update s.teardown ⟨k, h⟩ (some ok)
        pc := .tearing (k + 1) (success && ok) raising }
  | tearRaises {k success raising} (h : k < n) : s.pc = .tearing k success raising →
      MainStep cfg s (.teardown none) { s with
        teardown := Function.update s.teardown ⟨k, h⟩ (some false)
        pc := .done true }
  | tornDown {k success raising} : s.pc = .tearing k success raising → n ≤ k →
      MainStep cfg s .tick { s with
        pc := .done raising
        returnCode := if success then s.returnCode else 2
        suiteReturnCode := some (if success then s.returnCode else 2) }
  | caught : s.pc.catches = true → MainStep cfg s .interrupt { s with pc := .caught }
  | escapes : s.pc.escapes = true → MainStep cfg s .interrupt (s.leaveTry true)

theorem MainStep.of_tickStep (h : tickStep cfg s = some s') : MainStep cfg s .tick s' := by
  unfold tickStep at h
  cases hpc : s.pc with
  | loop =>
    rw [hpc] at h
    dsimp only at h
    split_ifs at h with hn <;> cases h
    · exact .finish hpc hn
    · exact .enter hpc hn
  | entered =>
    rw [hpc] at h
    cases h
    exact .enterTry hpc
  | starting =>
    rw [hpc] at h
    dsimp only at h
    split_ifs at h with hn <;> cases h
    · exact .startThread hpc hn
    · exact .allStarted hpc (Nat.le_of_not_lt hn)
  | append =>
    rw [hpc] at h
    cases h
    exact .register hpc
  | waiting =>
    rw [hpc] at h
    dsimp only at h
    split_ifs at h
    cases h
    exact .queueJoined hpc
  | caught =>
    rw [hpc] at h
    cases h
    exact .setFlag hpc
  | joining b =>
    rw [hpc] at h
    dsimp only at h
    split_ifs at h with hr
    cases h
    exact .threadsJoined hpc hr
  | tearing k success raising =>
    rw [hpc] at h
    dsimp only at h
    by_cases hk : k < n
    · rw [if_pos hk] at h
      cases h
    · rw [if_neg hk] at h
      cases h
      exact .tornDown hpc (Nat.le_of_not_lt hk)
  | ended b | done b =>
    rw [hpc] at h
    cases h

theorem MainStep.of_teardownStep {r : Option Bool} (h : teardownStep s r = some s') :
    MainStep cfg s (.teardown r) s' := by
  unfold teardownStep at h
  split at h
  · rename_i k success raising hpc
    split_ifs at h with hk
    cases r with
    | none =>
      cases h
      exact .tearRaises hk hpc
    | some ok =>
      cases h
      exact .tear hk hpc
  · cases h

variable [Add τ] [LE τ] [DecidableLE τ] {a : Act n τ}

/-- **Every step is a transition of the main thread or a step of a thread that it has started.** -/
theorem step_cases (h : step cfg s a = some s') :
    MainStep cfg s a s' ∨ ∃ i o job, a = .job i o ∧ (∀ b, s.pc ≠ .done b) ∧ i.val < s.started ∧
      Job.step (s.jobConfig cfg) s.job (.job i o) = some job ∧ s' = s.recordJob i o job := by
  cases a with
  | tick => exact .inl (.of_tickStep h)
  | interrupt =>
    refine .inl ?_
    simp only [step, interruptStep] at h
    cases hpc : s.pc with
    | starting | append | waiting =>
      rw [hpc] at h
      cases h
      exact .caught (by rw [hpc]; rfl)
    | loop | entered | caught | joining | ended =>
      rw [hpc] at h
      cases h
      exact .escapes (by rw [hpc]; rfl)
    | tearing | done =>
      rw [hpc] at h
      cases h
  | report w r =>
    refine .inl ?_
    simp only [step] at h
    split at h
    · cases h
      exact .report ‹_› (.of_endRepetition _ _ _ _ _)
    · cases h
  | teardown r => exact .inl (.of_teardownStep h)
  | job i o =>
    refine .inr ?_
    simp only [step] at h
    split at h
    · cases h
    · rename_i hpc
      split_ifs at h with hi
      obtain ⟨job, hj, rfl⟩ := Option.map_eq_some_iff.mp h
      exact ⟨i, o, job, rfl, hpc, hi, hj, rfl⟩

end Transitions

end MongoTests.Resmoke.Executor

/-! ## What a job thread does to its fixture -/

namespace MongoTests.Resmoke.Job

open Executor

section Thread

variable {n : ℕ} {τ : Type*}

variable [Add τ] [LE τ] [DecidableLE τ] {cfg : Job.Config n τ} {i : Fin n} {g g' : Shared τ}
  {k k' : ℕ} {pc pc' : Job.Pc τ} {o : Outcome τ}

theorem JobStep.ne_returned (h : JobStep cfg i g k pc o g' pc' k') : pc ≠ .returned := by
  cases h <;> simp

theorem JobStep.ne_setup (h : JobStep cfg i g k pc o g' pc' k') : pc' ≠ .setup := by
  cases h <;> simp

theorem JobStep.setupFlag_mono (h : JobStep cfg i g k pc o g' pc' k')
    (hg : g.setupFlag = true) : g'.setupFlag = true := by
  cases h with
  | setupFails => rfl
  | _ => exact hg

theorem JobStep.teardownFlag_mono (h : JobStep cfg i g k pc o g' pc' k')
    (hg : g.teardownFlag = true) : g'.teardownFlag = true := by
  cases h with
  | teardownFails => rfl
  | _ => exact hg

/-- A failed setup sets the flag. -/
theorem JobStep.setupFlag (h : JobStep cfg i g k pc o g' pc' k') (hpc : atSetup pc = true)
    (hf : cfg.hasSetupFlag = true) : succeeded o = true ∨ g'.setupFlag = true := by
  cases h with
  | skipSetup h0 => simp [h0] at hf
  | setupOk => exact .inl rfl
  | setupFails => exact .inr rfl
  | _ => cases hpc

/-- A thread returns from its teardown, since a drain never calls `task_done()` too often. -/
theorem JobStep.returned (h : JobStep cfg i g k pc o g' .returned k')
    (ho : owes pc ≤ g.queue.unfinishedTasks) : atTeardown pc = true := by
  cases h with
  | drainTooMany hq =>
    rw [Queue.taskDone_eq_none] at hq
    simp [owes, hq] at ho
  | _ => rfl

/-- A failed teardown sets the flag. -/
theorem JobStep.teardownFlag (h : JobStep cfg i g k pc o g' pc' k')
    (hpc : atTeardown pc = true) (hf : cfg.hasTeardownFlag = true) :
    succeeded o = true ∨ g'.teardownFlag = true := by
  cases h with
  | skipTeardown h0 => simp [h0] at hf
  | teardownOk => exact .inl rfl
  | teardownFails => exact .inr rfl
  | _ => cases hpc

end Thread

end MongoTests.Resmoke.Job

namespace MongoTests.Resmoke.Executor

open MongoTests.Lib

variable {n : ℕ} {τ : Type*}

/-! ## Invariants -/

/-- What has become of the fixture of thread `i` in this repetition. -/
structure Threads (s : State n τ) : Prop where
  counted : Job.Counted s.job
  idle : ∀ i : Fin n, s.started ≤ i.val → (s.job.jobs i).pc = .setup
  fresh : s.threadSetupFlag = true → ∀ i, (s.job.jobs i).pc = .setup → s.setup i = none
  setup : ∀ i, s.setup i = some true ∨ (s.threadSetupFlag = true ∧
    ((s.job.jobs i).pc = .setup ∨ s.job.shared.setupFlag = true))
  teardown : s.hasTeardownFlag = true → ∀ i, (s.job.jobs i).pc = .returned →
    s.teardown i = some true ∨ (s.teardown i = some false ∧ s.job.shared.teardownFlag = true)

/-- The repetition did what it should. -/
structure Repetition.Passed (cfg : Config n τ) (r : Repetition n) : Prop where
  setup : ∀ i, r.setup i = some true
  report : r.wasSuccessful = true
  results : cfg.numTests ≤ r.results

/-- Every repetition of the suite has been run and has passed. -/
structure Complete (cfg : Config n τ) (s : State n τ) : Prop where
  count : s.repetitions.length = cfg.numRepeatSuites
  passed : ∀ r ∈ s.repetitions, r.Passed cfg

/-- What holds between two repetitions and while one is run, unless the return code is nonzero. -/
structure SoFar (cfg : Config n τ) (s : State n τ) : Prop where
  count : s.repetitions.length + s.numRepeatSuites = cfg.numRepeatSuites
  passed : s.returnCode = 0 → ∀ r ∈ s.repetitions, r.Passed cfg

/-- A repetition is being run. -/
structure Inside (cfg : Config n τ) (s : State n τ) : Prop where
  soFar : SoFar cfg s
  flag : s.hasSetupFlag = s.threadSetupFlag
  left : 0 < s.numRepeatSuites

/-- What `run` and `_run_tests` rely on at each of their points. -/
def Phase (cfg : Config n τ) (s : State n τ) : Prop :=
  match s.pc with
  | .loop => SoFar cfg s ∧ (∀ i : Fin n, i.val < s.started → (s.job.jobs i).pc = .returned) ∧
      (∀ i, s.setup i = if s.hasSetupFlag then none else some true) ∧
      (s.hasTeardownFlag = true → s.returnCode = 0 → ∀ i, s.teardown i = some true)
  | .entered => Inside cfg s ∧ s.registered = s.started
  | .starting => Inside cfg s ∧ s.registered = s.started
  | .append => Inside cfg s ∧ s.registered + 1 = s.started
  | .waiting => Inside cfg s ∧ n ≤ s.registered
  | .joining false => Inside cfg s ∧ n ≤ s.registered
  | .ended false => Inside cfg s ∧ Job.AllReturned s.job
  | .caught | .joining true | .ended true => True
  | .tearing k success raising =>
      s.hasTeardownFlag = false ∧ (raising = false → s.returnCode = 0 → Complete cfg s) ∧
        (success = true → ∀ i : Fin n, i.val < k → s.teardown i = some true)
  | .done raised => raised = false → s.suiteReturnCode = some 0 →
      Complete cfg s ∧ ∀ i, s.teardown i = some true

section Threads

variable {cfg : Config n τ} {s : State n τ}

/-- The threads of a new repetition. -/
theorem Threads.enter [Zero τ] [DecidableEq τ]
    (h : ∀ i, s.setup i = if s.hasSetupFlag then none else some true) :
    Threads (s.enter cfg) where
  counted := Job.counted_start _
  idle _ _ := rfl
  fresh hf i _ := by
    have hf' : s.hasSetupFlag = true := hf
    show s.setup i = none
    rw [h i, if_pos hf']
  setup i := by
    by_cases hf : s.hasSetupFlag = true
    · exact .inr ⟨hf, .inl rfl⟩
    · refine .inl ?_
      show s.setup i = some true
      rw [h i, if_neg hf]
  teardown _ i hi := by cases hi

/-- The main thread touches the threads only through the list it keeps of them. -/
theorem Threads.congr {s' : State n τ} (h : Threads s) (hjob : s'.job.jobs = s.job.jobs)
    (hqueue : s'.job.shared.queue = s.job.shared.queue)
    (hsetupFlag : s'.job.shared.setupFlag = s.job.shared.setupFlag)
    (hteardownFlag : s'.job.shared.teardownFlag = s.job.shared.teardownFlag)
    (hstarted : s.started ≤ s'.started) (hflag : s'.threadSetupFlag = s.threadSetupFlag)
    (hsetup : s'.setup = s.setup)
    (hteardown : s'.hasTeardownFlag = true → s.hasTeardownFlag = true ∧ s'.teardown = s.teardown) :
    Threads s' where
  counted := by
    have := h.counted
    rw [Job.Counted] at this ⊢
    rw [hjob, hqueue]
    exact this
  idle i hi := by
    rw [hjob]
    exact h.idle i (hstarted.trans hi)
  fresh := by
    rw [hjob, hflag, hsetup]
    exact h.fresh
  setup := by
    rw [hjob, hflag, hsetup, hsetupFlag]
    exact h.setup
  teardown hf := by
    rw [hjob, hteardownFlag, (hteardown hf).2]
    exact h.teardown (hteardown hf).1

variable [Add τ] [LE τ] [DecidableLE τ] {i : Fin n} {o : Job.Outcome τ} {job : Job.State n τ}

theorem Threads.jobStep (h : Threads s) (hi : i.val < s.started)
    (hs : Job.step (s.jobConfig cfg) s.job (.job i o) = some job) :
    Threads (s.recordJob i o job) := by
  obtain ⟨i', o', g', j', ha, rfl, hj⟩ | ⟨ha, -⟩ := Job.step_cases hs
  · cases ha
    have hcount : Job.Counted (⟨g', Function.update s.job.jobs i j'⟩ : Job.State n τ) :=
      h.counted.step hs
    refine ⟨hcount, ?_, ?_, ?_, ?_⟩
    · intro t ht
      have hti : t ≠ i := by
        rintro rfl
        exact absurd hi (Nat.not_lt.mpr ht)
      show (Function.update s.job.jobs i j' t).pc = .setup
      rw [Function.update_of_ne hti]
      exact h.idle t ht
    · intro hf t ht
      by_cases hti : t = i
      · subst hti
        dsimp only [State.recordJob] at ht
        rw [Function.update_self] at ht
        exact absurd ht hj.ne_setup
      · dsimp only [State.recordJob] at ht ⊢
        rw [Function.update_of_ne hti] at ht ⊢
        exact h.fresh hf t ht
    · intro t
      dsimp only [State.recordJob]
      by_cases hti : t = i
      · subst hti
        rw [Function.update_self]
        by_cases hp : atSetup (s.job.jobs t).pc = true ∧ s.threadSetupFlag = true
        · rw [hp.1, hp.2]
          obtain ho | hg := hj.setupFlag hp.1 hp.2
          · exact .inl (congrArg some ho)
          · exact .inr ⟨rfl, .inr hg⟩
        · rw [if_neg (by rwa [Bool.and_eq_true])]
          obtain hx | ⟨hf, hpc | hx⟩ := h.setup t
          · exact .inl hx
          · exact absurd ⟨by rw [hpc]; rfl, hf⟩ hp
          · exact .inr ⟨hf, .inr (hj.setupFlag_mono hx)⟩
      · rw [Function.update_of_ne hti, Function.update_of_ne hti]
        obtain hx | ⟨hf, hx | hx⟩ := h.setup t
        · exact .inl hx
        · exact .inr ⟨hf, .inl hx⟩
        · exact .inr ⟨hf, .inr (hj.setupFlag_mono hx)⟩
    · intro hf t ht
      dsimp only [State.recordJob] at ht ⊢
      by_cases hti : t = i
      · subst hti
        rw [Function.update_self] at ht ⊢
        rw [ht] at hj
        have hp := hj.returned (h.counted.owes_le t)
        have hf' : s.hasTeardownFlag = true := hf
        rw [hp, hf']
        cases ho : succeeded o with
        | true => exact .inl rfl
        | false =>
          refine .inr ⟨rfl, ?_⟩
          have := hj.teardownFlag hp hf'
          rw [ho] at this
          exact this.resolve_left (by decide)
      · rw [Function.update_of_ne hti] at ht ⊢
        obtain hx | ⟨hx, hg⟩ := h.teardown hf t ht
        · exact .inl hx
        · exact .inr ⟨hx, hj.teardownFlag_mono hg⟩
  · cases ha

end Threads

section Main

variable {cfg : Config n τ} {s s' : State n τ} {a : Act n τ}

theorem Threads.leaveTry (h : Threads s) (b : Bool) : Threads (s.leaveTry b) := by
  unfold State.leaveTry
  split_ifs with hf
  · exact h.congr rfl rfl rfl rfl le_rfl rfl rfl fun hf => ⟨hf, rfl⟩
  · exact h.congr rfl rfl rfl rfl le_rfl rfl rfl fun hf' => absurd hf' hf

theorem Threads.endStep {b w : Bool} {r : ℕ} (h : Threads s) (hs : EndStep cfg s b w r s') :
    Threads s' := by
  cases hs with
  | next => exact h.congr rfl rfl rfl rfl le_rfl rfl rfl fun hf => ⟨hf, rfl⟩
  | _ =>
    apply Threads.leaveTry
    exact h.congr rfl rfl rfl rfl le_rfl rfl rfl fun hf => ⟨hf, rfl⟩

/-! ### Phases -/

theorem Inside.move (h : Inside cfg s) (pc : Pc) (started registered : ℕ) :
    Inside cfg { s with pc, started, registered } :=
  ⟨⟨h.soFar.count, h.soFar.passed⟩, h.flag, h.left⟩

theorem Phase.leaveTry {raising : Bool}
    (h : raising = false → s.returnCode = 0 →
      Complete cfg s ∧ (s.hasTeardownFlag = true → ∀ i, s.teardown i = some true)) :
    Phase cfg (s.leaveTry raising) := by
  unfold State.leaveTry
  split_ifs with hf
  · intro hr h0
    obtain ⟨hc, ht⟩ := h hr (Option.some.inj h0)
    exact ⟨⟨hc.count, hc.passed⟩, ht hf⟩
  · refine ⟨Bool.eq_false_iff.mpr hf, fun hr h0 => ?_, fun _ i hi => absurd hi (Nat.not_lt_zero _)⟩
    have hc := (h hr h0).1
    exact ⟨hc.count, hc.passed⟩

/-- When every thread has returned, the flags tell what happened to the fixtures. -/
theorem Threads.setup_of_allReturned (h : Threads s) (hr : Job.AllReturned s.job)
    (hf : s.threadSetupFlag = true → s.job.shared.setupFlag = false) (i : Fin n) :
    s.setup i = some true := by
  obtain hx | ⟨ht, hpc | hset⟩ := h.setup i
  · exact hx
  · rw [hr i] at hpc
    cases hpc
  · rw [hf ht] at hset
    cases hset

theorem Threads.teardown_of_allReturned (h : Threads s) (hr : Job.AllReturned s.job)
    (ht : s.hasTeardownFlag = true) (hf : s.job.shared.teardownFlag = false) (i : Fin n) :
    s.teardown i = some true := by
  obtain hx | ⟨-, hset⟩ := h.teardown ht i (hr i)
  · exact hx
  · rw [hf] at hset
    cases hset

/-- The repetition that has just ended joins those before it. -/
theorem Inside.soFar_next (h : Inside cfg s) {w : Bool} {r rc : ℕ}
    (hsetup : ∀ i, s.setup i = some true) (hrc : rc = 0 → s.returnCode = 0 ∧ w = true)
    (hr : cfg.numTests ≤ r) :
    SoFar cfg { s.record w r with
      hasSetupFlag := false, returnCode := rc, pc := .loop
      numRepeatSuites := s.numRepeatSuites - 1 } where
  count := by
    have hc := h.soFar.count
    have hl := h.left
    simp only [State.record, List.length_append, List.length_singleton]
    omega
  passed h0 r' hr' := by
    simp only [State.record, List.mem_append, List.mem_singleton] at hr'
    obtain hr' | rfl := hr'
    · exact h.soFar.passed (hrc h0).1 r' hr'
    · exact ⟨hsetup, (hrc h0).2, hr⟩

theorem Phase.endStep {b w : Bool} {r : ℕ} (h : Threads s)
    (hb : b = false → Inside cfg s ∧ Job.AllReturned s.job)
    (hs : EndStep cfg (s.record w r) b w r s') : Phase cfg s' := by
  cases hs with
  | setupFailed | failFast =>
    apply Phase.leaveTry
    intro _ h0
    cases h0
  | interrupted | tooFew =>
    apply Phase.leaveTry
    intro hr
    cases hr
  | next hb' hflag hrc hr =>
    obtain ⟨hin, hret⟩ := hb hb'
    have hsetup := h.setup_of_allReturned hret fun ht => hflag (hin.flag.trans ht)
    refine ⟨hin.soFar_next hsetup (fun h0 => ⟨(hrc h0).1, (hrc h0).2.1⟩) hr, ?_, ?_, ?_⟩
    · intro i _
      exact hret i
    · intro i
      exact hsetup i
    · intro ht h0 i
      exact h.teardown_of_allReturned hret ht ((hrc h0).2.2 ht) i

variable [Zero τ] [DecidableEq τ]

/-- **The main thread keeps the invariant of the threads.** -/
theorem Threads.mainStep (h : Threads s) (hp : Phase cfg s) (hs : MainStep cfg s a s') :
    Threads s' := by
  cases hs with
  | finish => exact h.leaveTry false
  | escapes => exact h.leaveTry true
  | enter hpc =>
    rw [Phase, hpc] at hp
    exact .enter hp.2.2.1
  | report _ he =>
    refine Threads.endStep ?_ he
    exact h.congr rfl rfl rfl rfl le_rfl rfl rfl fun hf => ⟨hf, rfl⟩
  | startThread hpc =>
    exact h.congr rfl rfl rfl rfl (Nat.le_succ _) rfl rfl fun hf => ⟨hf, rfl⟩
  | tear _ hpc | tearRaises _ hpc =>
    rw [Phase, hpc] at hp
    exact h.congr rfl rfl rfl rfl le_rfl rfl rfl fun hf => absurd hf (by simp [hp.1])
  | _ => exact h.congr rfl rfl rfl rfl le_rfl rfl rfl fun hf => ⟨hf, rfl⟩

/-- **The main thread keeps its invariant.** -/
theorem Phase.mainStep (h : Threads s) (hp : Phase cfg s) (hs : MainStep cfg s a s') :
    Phase cfg s' := by
  cases hs with
  | finish hpc hn =>
    rw [Phase, hpc] at hp
    obtain ⟨hso, -, -, ht⟩ := hp
    apply Phase.leaveTry
    intro _ h0
    have hc := hso.count
    rw [hn] at hc
    exact ⟨⟨hc, hso.passed h0⟩, fun hf => ht hf h0⟩
  | enter hpc hn =>
    rw [Phase, hpc] at hp
    exact ⟨⟨⟨hp.1.count, hp.1.passed⟩, rfl, Nat.pos_of_ne_zero hn⟩, rfl⟩
  | enterTry hpc =>
    rw [Phase, hpc] at hp
    exact ⟨hp.1.move _ _ _, hp.2⟩
  | startThread hpc hn =>
    rw [Phase, hpc] at hp
    exact ⟨hp.1.move _ _ _, congrArg (· + 1) hp.2⟩
  | allStarted hpc hn =>
    rw [Phase, hpc] at hp
    exact ⟨hp.1.move _ _ _, hn.trans_eq hp.2.symm⟩
  | register hpc =>
    rw [Phase, hpc] at hp
    exact ⟨hp.1.move _ _ _, hp.2⟩
  | queueJoined hpc =>
    rw [Phase, hpc] at hp
    exact ⟨hp.1.move _ _ _, hp.2⟩
  | setFlag hpc => trivial
  | @threadsJoined b hpc hr =>
    cases b with
    | true => trivial
    | false =>
      rw [Phase, hpc] at hp
      exact ⟨hp.1.move _ _ _, fun i => hr i (i.isLt.trans_le hp.2)⟩
  | report hpc he =>
    refine Phase.endStep h ?_ he
    rintro rfl
    rw [Phase, hpc] at hp
    exact hp
  | @tear k success raising ok hk hpc =>
    rw [Phase, hpc] at hp
    obtain ⟨hf, hc, ht⟩ := hp
    refine ⟨hf, fun hr h0 => ⟨(hc hr h0).count, (hc hr h0).passed⟩, fun hok i hi => ?_⟩
    rw [Bool.and_eq_true] at hok
    dsimp only
    by_cases hik : i = ⟨k, hk⟩
    · rw [hik, Function.update_self, hok.2]
    · rw [Function.update_of_ne hik]
      have : i.val ≠ k := fun he => hik (Fin.ext he)
      exact ht hok.1 i (by omega)
  | tearRaises hk hpc =>
    intro hr
    cases hr
  | @tornDown k success raising hpc hk =>
    rw [Phase, hpc] at hp
    obtain ⟨-, hc, ht⟩ := hp
    intro hr h0
    cases success with
    | false => cases h0
    | true =>
      have hc0 := hc hr (Option.some.inj h0)
      exact ⟨⟨hc0.count, hc0.passed⟩, fun i => ht rfl i (i.isLt.trans_le hk)⟩
  | caught hpc => trivial
  | escapes hpc =>
    apply Phase.leaveTry
    intro hr
    cases hr

end Main

section Runs

variable [Zero τ] [DecidableEq τ] [Add τ] [LE τ] [DecidableLE τ] {cfg : Config n τ}
  {s s' : State n τ} {a : Act n τ}

omit [Zero τ] [DecidableEq τ] in
/-- No thread moves between the repetitions, and in the `finally` clause no thread tears down. -/
theorem Phase.jobStep {i : Fin n} {o : Job.Outcome τ} {job : Job.State n τ} (hp : Phase cfg s)
    (hd : ∀ b, s.pc ≠ .done b) (hi : i.val < s.started)
    (hs : Job.step (s.jobConfig cfg) s.job (.job i o) = some job) :
    Phase cfg (s.recordJob i o job) := by
  have hne : (s.job.jobs i).pc ≠ .returned := by
    obtain ⟨i', o', g', j', ha, -, hj⟩ | ⟨ha, -⟩ := Job.step_cases hs
    · cases ha
      exact hj.ne_returned
    · cases ha
  have hin : Inside cfg s → Inside cfg (s.recordJob i o job) := fun h =>
    ⟨⟨h.soFar.count, h.soFar.passed⟩, h.flag, h.left⟩
  have hpc' : (s.recordJob i o job).pc = s.pc := rfl
  cases hpc : s.pc with
  | loop =>
    rw [Phase, hpc] at hp
    exact absurd (hp.2.1 i hi) hne
  | entered | starting | append | waiting =>
    rw [Phase, hpc] at hp
    rw [Phase, hpc', hpc]
    exact ⟨hin hp.1, hp.2⟩
  | caught =>
    rw [Phase, hpc', hpc]
    trivial
  | joining b =>
    rw [Phase, hpc', hpc]
    cases b with
    | true => trivial
    | false =>
      rw [Phase, hpc] at hp
      exact ⟨hin hp.1, hp.2⟩
  | ended b =>
    rw [Phase, hpc', hpc]
    cases b with
    | true => trivial
    | false =>
      rw [Phase, hpc] at hp
      exact absurd (hp.2 i) hne
  | tearing k success raising =>
    rw [Phase, hpc] at hp
    rw [Phase, hpc', hpc]
    obtain ⟨hf, hc, ht⟩ := hp
    refine ⟨hf, fun hr h0 => ⟨(hc hr h0).count, (hc hr h0).passed⟩, fun hok t htk => ?_⟩
    show Function.update s.teardown i _ t = some true
    rw [hf, Bool.and_false, if_neg Bool.false_ne_true, Function.update_eq_self]
    exact ht hok t htk
  | done b => exact absurd hpc (hd b)

omit [Add τ] [LE τ] [DecidableLE τ] in
theorem threads_start (cfg : Config n τ) : Threads (start cfg) where
  counted := Job.counted_start _
  idle _ _ := rfl
  fresh _ _ _ := rfl
  setup _ := .inr ⟨rfl, .inl rfl⟩
  teardown hf := by cases hf

omit [Add τ] [LE τ] [DecidableLE τ] in
theorem phase_start (cfg : Config n τ) : Phase cfg (start cfg) := by
  refine ⟨⟨Nat.zero_add _, ?_⟩, ?_, ?_, ?_⟩
  · intro _ r hr
    cases hr
  · intro i hi
    exact absurd hi (Nat.not_lt_zero _)
  · intro i
    rfl
  · intro hf
    cases hf

theorem threads_phase_of_reach {ok : State n τ → Act n τ → Prop}
    (h : Reach (step cfg) ok (· = start cfg) s) : Threads s ∧ Phase cfg s := by
  refine h.inv (I := fun s => Threads s ∧ Phase cfg s) ?_ ?_
  · rintro s rfl
    exact ⟨threads_start cfg, phase_start cfg⟩
  · rintro s a s' ⟨ht, hp⟩ - hs
    obtain hm | ⟨i, o, job, rfl, hd, hi, hj, rfl⟩ := step_cases hs
    · exact ⟨ht.mainStep hp hm, hp.mainStep ht hm⟩
    · exact ⟨ht.jobStep hi hj, hp.jobStep hd hi hj⟩

/-- **The return code of a suite is sound.** When `run` ends with return code zero and without an
exception, it has run every repetition; in each of them all fixtures were set up, the combined
report was successful and had a result for every test; and every fixture has been torn down. -/
theorem return_code_sound (h : Reach (step cfg) Free (· = start cfg) s)
    (hpc : s.pc = .done false) (hrc : s.suiteReturnCode = some 0) :
    s.repetitions.length = cfg.numRepeatSuites ∧
      (∀ r ∈ s.repetitions, (∀ i, r.setup i = some true) ∧ r.wasSuccessful = true ∧
        cfg.numTests ≤ r.results) ∧
      ∀ i, s.teardown i = some true := by
  have hp := (threads_phase_of_reach h).2
  rw [Phase, hpc] at hp
  obtain ⟨hc, ht⟩ := hp rfl hrc
  exact ⟨hc.count, fun r hr => ⟨(hc.passed r hr).setup, (hc.passed r hr).report,
    (hc.passed r hr).results⟩, ht⟩

end Runs

/-! ## A schedule -/

/-- A suite with `n` jobs, as many tests and no hooks that is repeated twice. -/
def twice (n : ℕ) : Config n ℕ where
  options := ⟨false, none, none, none⟩
  tests := n
  numRepeatTests := 1
  numRepeatSuites := 2
  numHooks _ := 0
  checkIfFixtureRunning _ := false

/-- `run` begins a repetition and starts one thread. -/
def startOne {n : ℕ} : List (Act n ℕ) := [.tick, .tick, .tick, .tick]

/-- Job `i` runs the last test and passes, from its hooks to its teardown. -/
def runTest {n : ℕ} (i : Fin n) : List (Act n ℕ) :=
  [.job i .tick, .job i .tick, .job i .tick, .job i .tick, .job i (.executed .healthy),
    .job i (.elapsed 1), .job i .tick, .job i .tick, .job i .tick]

/-- A job that passes both repetitions: it is set up in the first and torn down in the second. -/
theorem return_code_twice :
    ∃ s, Reach (step (twice 1)) Free (· = start (twice 1)) s ∧ s.pc = .done false ∧
      s.suiteReturnCode = some 0 ∧ s.repetitions.length = 2 ∧
      (∀ r ∈ s.repetitions, (∀ i, r.setup i = some true) ∧ r.wasSuccessful = true ∧
        1 ≤ r.results) ∧ ∀ i, s.teardown i = some true := by
  have hrun : ∃ s, Reach (step (twice 1)) Free (· = start (twice 1)) s ∧
      s.pc = .done false ∧ s.suiteReturnCode = some 0 :=
    Reach.exists_of_run (.start rfl)
      (List.flatten [startOne, [.tick, .job 0 .succeeds], runTest 0,
        [.job 0 .tick, .tick, .tick, .report true 1], startOne, [.tick, .job 0 .tick], runTest 0,
        [.job 0 .succeeds, .tick, .tick, .report true 1, .tick]]) (by decide)
  obtain ⟨s, h, hpc, hrc⟩ := hrun
  exact ⟨s, h, hpc, hrc, return_code_sound h hpc hrc⟩

end MongoTests.Resmoke.Executor
