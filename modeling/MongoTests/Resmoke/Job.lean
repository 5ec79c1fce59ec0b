import MongoTests.Lib.Machine
import MongoTests.Resmoke.TestQueue

/-!
# The job threads

Embeds `resmokelib/testing/job.py`: `n` threads run `Job.__call__` on one queue and one interrupt
flag, and the main thread may receive a `KeyboardInterrupt` while it waits for them
(`TestSuiteExecutor._run_tests`).

* `Pc`: the position of a thread, one for every atomic operation on the queue or the flag and for
  every call whose outcome the environment decides (a fixture, a hook, a test).
* `jobStep`: one step of one thread; `step`: one step of the system.
* `JobStep`, `JobStep.of_jobStep`, `step_cases`: everything one step can do, by cases.
-/

namespace MongoTests.Resmoke.Job

open MongoTests.Lib

variable {n : ℕ} {τ : Type*}

/-! ## Executing a test -/

/-- How the hooks' `before_test` or `after_test` end: the first exception, if any. -/
inductive HookResult
  | ok
  | stopExecution
  | serverFailure
  | testFailure
  | other
  deriving DecidableEq, Repr

/-- What the environment decides while `_execute_test` runs. -/
structure TestOutcome where
  before : HookResult
  testRaises : Bool
  passed : Bool
  fixtureRunning : Bool
  after : HookResult
  deriving DecidableEq, Repr

/-- Whether running the hooks raises: a `TestFailure` is swallowed unless `fail_fast` is set. -/
def hooksRaise (failFast : Bool) : HookResult → Bool
  | .ok => false
  | .stopExecution => true
  | .serverFailure => true
  | .testFailure => failFast
  | .other => true

def runHooksBeforeTests (failFast : Bool) (r : HookResult) : Bool := hooksRaise failFast r

def runHooksAfterTests (failFast : Bool) (r : HookResult) : Bool := hooksRaise failFast r

def executeTest (failFast checkIfFixtureRunning : Bool) (o : TestOutcome) : Bool :=
  runHooksBeforeTests failFast o.before || o.testRaises || (failFast && !o.passed) ||
    (checkIfFixtureRunning && !o.fixtureRunning) || runHooksAfterTests failFast o.after

/-- A test that passes, with hooks that do not fail and a fixture that keeps running. -/
def TestOutcome.healthy : TestOutcome := ⟨.ok, false, true, true, .ok⟩

@[simp] theorem executeTest_healthy (f c : Bool) : executeTest f c .healthy = false := by
  cases f <;> cases c <;> rfl

/-! ## States -/

/-- The position of a job thread in `Job.__call__`. -/
inductive Pc (τ : Type*)
  /-- About to run `setup_fixture` (when there is a `setup_flag`). -/
  | setup
  /-- `_interrupt_all_jobs`: about to set the interrupt flag. -/
  | interrupt
  /-- `_drain_queue`: about to evaluate `queue.empty()`. -/
  | drainEmpty
  /-- `_drain_queue`: about to call `queue.get_nowait()`. -/
  | drainGet
  /-- `_drain_queue`: about to call `queue.task_done()`. -/
  | drainTaskDone
  /-- `_run`: `before_suite` has returned for the first `k` hooks. -/
  | beforeSuite (k : ℕ)
  /-- `_run`, loop test: about to evaluate `queue.empty()`. -/
  | loopEmpty
  /-- `_run`, loop test: about to evaluate `interrupt_flag.is_set()`. -/
  | loopIsSet
  /-- `_run`: about to call `queue.get_nowait()`. -/
  | getNowait
  /-- `_run`: `e` is popped, in `_execute_test`. -/
  | execute (e : QueueElem τ)
  /-- `_run`, `finally` clause: about to call `job_completed` and `queue.task_done()`. -/
  | taskDone (e : QueueElem τ) (raised : Bool)
  /-- `_requeue_test`: about to evaluate `should_requeue()` and make the new test case. -/
  | requeue (e : QueueElem τ)
  /-- `_requeue_test`: about to evaluate `interrupt_flag.is_set()`. -/
  | requeueIsSet (e : QueueElem τ)
  /-- `_requeue_test`: about to call `queue.put(queue_elem)`. -/
  | put (e : QueueElem τ)
  /-- `_run`: `after_suite` has returned for the first `k` hooks. -/
  | afterSuite (k : ℕ)
  /-- About to run `teardown_fixture` (when there is a `teardown_flag`). -/
  | teardown
  | returned
  deriving DecidableEq, Repr

/-- A job thread: its position, and on how many of its hooks `after_suite` has returned. -/
structure JobState (τ : Type*) where
  pc : Pc τ
  afterSuiteRan : ℕ
  deriving DecidableEq, Repr

/-- What the threads share. `history` records the executions: which element, and how long. -/
structure Shared (τ : Type*) where
  queue : Queue (QueueElem τ)
  interruptFlag : Bool
  setupFlag : Bool
  teardownFlag : Bool
  userInterrupted : Bool
  history : List (ℕ × τ)
  deriving DecidableEq, Repr

structure State (n : ℕ) (τ : Type*) where
  shared : Shared τ
  jobs : Fin n → JobState τ

/-- The parameters of one call of `_run_tests`. -/
structure Config (n : ℕ) (τ : Type*) where
  options : SuiteOptions τ
  hasSetupFlag : Bool
  hasTeardownFlag : Bool
  numHooks : Fin n → ℕ
  checkIfFixtureRunning : Fin n → Bool

/-- What the environment contributes to one step of a thread. -/
inductive Outcome (τ : Type*)
  /-- Nothing: the step is determined. -/
  | tick
  /-- A fixture, a hook or `make_test_case` succeeds. -/
  | succeeds
  /-- A fixture fails, or a hook or `make_test_case` raises. -/
  | fails
  /-- `_execute_test` runs to its end. -/
  | executed (o : TestOutcome)
  /-- The time that the execution took. -/
  | elapsed (jobTime : τ)
  deriving DecidableEq, Repr

/-- A step of the system: one thread moves, or the user interrupts the main thread. -/
inductive Act (n : ℕ) (τ : Type*)
  | job (i : Fin n) (o : Outcome τ)
  | userInterrupt
  deriving DecidableEq, Repr

/-! ## Steps -/

section Step

variable [Add τ] [LE τ] [DecidableLE τ] (cfg : Config n τ) (i : Fin n)

/-- One step of thread `i`; `none` when the outcome does not fit the position. -/
def jobStep (g : Shared τ) (j : JobState τ) : Outcome τ → Option (Shared τ × JobState τ)
  | .tick =>
    match j.pc with
    | .setup => if cfg.hasSetupFlag then none else some (g, { j with pc := .beforeSuite 0 })
    | .interrupt => some ({ g with interruptFlag := true }, { j with pc := .drainEmpty })
    | .drainEmpty =>
      if g.queue.empty then some (g, { j with pc := .teardown })
      else some (g, { j with pc := .drainGet })
    | .drainGet =>
      match g.queue.getNowait with
      | none => some (g, { j with pc := .teardown })
      | some (_, q) => some ({ g with queue := q }, { j with pc := .drainTaskDone })
    | .drainTaskDone =>
      match g.queue.taskDone with
      | none => some (g, { j with pc := .returned })
      | some q => some ({ g with queue := q }, { j with pc := .drainEmpty })
    | .beforeSuite k =>
      if k < cfg.numHooks i then none else some (g, { j with pc := .loopEmpty })
    | .loopEmpty =>
      if g.queue.empty then some (g, { j with pc := .afterSuite 0 })
      else some (g, { j with pc := .loopIsSet })
    | .loopIsSet =>
      if g.interruptFlag then some (g, { j with pc := .afterSuite 0 })
      else some (g, { j with pc := .getNowait })
    | .getNowait =>
      match g.queue.getNowait with
      | none => some (g, { j with pc := .interrupt })
      | some (e, q) => some ({ g with queue := q }, { j with pc := .execute e })
    | .requeue e =>
      if e.shouldRequeue then none else some (g, { j with pc := .loopEmpty })
    | .requeueIsSet e =>
      if g.interruptFlag then some (g, { j with pc := .loopEmpty })
      else some (g, { j with pc := .put e })
    | .put e => some ({ g with queue := g.queue.put e }, { j with pc := .loopEmpty })
    | .afterSuite k =>
      if k < cfg.numHooks i then none else some (g, { j with pc := .teardown })
    | .teardown => if cfg.hasTeardownFlag then none else some (g, { j with pc := .returned })
    | _ => none
  | .succeeds =>
    match j.pc with
    | .setup => if cfg.hasSetupFlag then some (g, { j with pc := .beforeSuite 0 }) else none
    | .beforeSuite k =>
      if k < cfg.numHooks i then some (g, { j with pc := .beforeSuite (k + 1) }) else none
    | .requeue e => if e.shouldRequeue then some (g, { j with pc := .requeueIsSet e }) else none
    | .afterSuite k =>
      if k < cfg.numHooks i then
        some (g, { pc := .afterSuite (k + 1), afterSuiteRan := j.afterSuiteRan + 1 })
      else none
    | .teardown => if cfg.hasTeardownFlag then some (g, { j with pc := .returned }) else none
    | _ => none
  | .fails =>
    match j.pc with
    | .setup =>
      if cfg.hasSetupFlag then some ({ g with setupFlag := true }, { j with pc := .interrupt })
      else none
    | .beforeSuite k => if k < cfg.numHooks i then some (g, { j with pc := .interrupt }) else none
    | .requeue e => if e.shouldRequeue then some (g, { j with pc := .interrupt }) else none
    | .afterSuite k => if k < cfg.numHooks i then some (g, { j with pc := .interrupt }) else none
    | .teardown =>
      if cfg.hasTeardownFlag then some ({ g with teardownFlag := true }, { j with pc := .returned })
      else none
    | _ => none
  | .executed o =>
    match j.pc with
    | .execute e =>
      let raised := executeTest cfg.options.failFast (cfg.checkIfFixtureRunning i) o
      some (g, { j with pc := .taskDone e raised })
    | _ => none
  | .elapsed t =>
    match j.pc with
    | .taskDone e raised =>
      -- a `ValueError` of `task_done()` replaces the exception in flight, if any
      match g.queue.taskDone with
      | none => some ({ g with history := g.history ++ [(e.ident, t)] }, { j with pc := .interrupt })
      | some q => some ({ g with queue := q, history := g.history ++ [(e.ident, t)] },
          { j with pc := if raised then .interrupt else .requeue (e.jobCompleted t) })
    | _ => none

def step (s : State n τ) : Act n τ → Option (State n τ)
  | .job i o =>
    (jobStep cfg i s.shared (s.jobs i) o).map fun (g, j) => ⟨g, Function.update s.jobs i j⟩
  | .userInterrupt =>
    some { s with shared := { s.shared with interruptFlag := true, userInterrupted := true } }

end Step

/-- The start of `_run_tests` on the queue `q`. -/
def start (n : ℕ) (q : InitialQueue τ) : State n τ where
  shared := ⟨.ofList q.elems, false, false, false, false, []⟩
  jobs _ := ⟨.setup, 0⟩

def AllReturned (s : State n τ) : Prop := ∀ i, (s.jobs i).pc = .returned

instance [DecidableEq τ] (s : State n τ) : Decidable (AllReturned s) :=
  inferInstanceAs (Decidable (∀ i, (s.jobs i).pc = .returned))

/-! ## What a step can do -/

variable [Add τ] [LE τ] [DecidableLE τ] {cfg : Config n τ} {i : Fin n}

/-- The transitions of a thread, with their guards. -/
inductive JobStep (cfg : Config n τ) (i : Fin n) (g : Shared τ) (k : ℕ) :
    Pc τ → Outcome τ → Shared τ → Pc τ → ℕ → Prop
  | skipSetup : cfg.hasSetupFlag = false → JobStep cfg i g k .setup .tick g (.beforeSuite 0) k
  | setupOk : cfg.hasSetupFlag = true → JobStep cfg i g k .setup .succeeds g (.beforeSuite 0) k
  | setupFails : cfg.hasSetupFlag = true →
      JobStep cfg i g k .setup .fails { g with setupFlag := true } .interrupt k
  | setFlag : JobStep cfg i g k .interrupt .tick { g with interruptFlag := true } .drainEmpty k
  | drained : g.queue.items = [] → JobStep cfg i g k .drainEmpty .tick g .teardown k
  | drainMore : g.queue.items ≠ [] → JobStep cfg i g k .drainEmpty .tick g .drainGet k
  | drainRace : g.queue.getNowait = none → JobStep cfg i g k .drainGet .tick g .teardown k
  | drainPop {e q} : g.queue.getNowait = some (e, q) →
      JobStep cfg i g k .drainGet .tick { g with queue := q } .drainTaskDone k
  | drainTooMany : g.queue.taskDone = none → JobStep cfg i g k .drainTaskDone .tick g .returned k
  | drainDone {q} : g.queue.taskDone = some q →
      JobStep cfg i g k .drainTaskDone .tick { g with queue := q } .drainEmpty k
  | hookBefore {m} : m < cfg.numHooks i →
      JobStep cfg i g k (.beforeSuite m) .succeeds g (.beforeSuite (m + 1)) k
  | hookBeforeFails {m} : m < cfg.numHooks i →
      JobStep cfg i g k (.beforeSuite m) .fails g .interrupt k
  | enterLoop {m} : cfg.numHooks i ≤ m → JobStep cfg i g k (.beforeSuite m) .tick g .loopEmpty k
  | sawEmpty : g.queue.items = [] → JobStep cfg i g k .loopEmpty .tick g (.afterSuite 0) k
  | sawItems : g.queue.items ≠ [] → JobStep cfg i g k .loopEmpty .tick g .loopIsSet k
  | sawFlag : g.interruptFlag = true → JobStep cfg i g k .loopIsSet .tick g (.afterSuite 0) k
  | sawNoFlag : g.interruptFlag = false → JobStep cfg i g k .loopIsSet .tick g .getNowait k
  | popRace : g.queue.getNowait = none → JobStep cfg i g k .getNowait .tick g .interrupt k
  | pop {e q} : g.queue.getNowait = some (e, q) →
      JobStep cfg i g k .getNowait .tick { g with queue := q } (.execute e) k
  | ran {e o} : JobStep cfg i g k (.execute e) (.executed o) g
      (.taskDone e (executeTest cfg.options.failFast (cfg.checkIfFixtureRunning i) o)) k
  | doneTooMany {e r t} : g.queue.taskDone = none →
      JobStep cfg i g k (.taskDone e r) (.elapsed t)
        { g with history := g.history ++ [(e.ident, t)] } .interrupt k
  | doneRaised {e t q} : g.queue.taskDone = some q →
      JobStep cfg i g k (.taskDone e true) (.elapsed t)
        { g with queue := q, history := g.history ++ [(e.ident, t)] } .interrupt k
  | done {e t q} : g.queue.taskDone = some q →
      JobStep cfg i g k (.taskDone e false) (.elapsed t)
        { g with queue := q, history := g.history ++ [(e.ident, t)] }
        (.requeue (e.jobCompleted t)) k
  | finished {e} : e.shouldRequeue = false → JobStep cfg i g k (.requeue e) .tick g .loopEmpty k
  | again {e} : e.shouldRequeue = true →
      JobStep cfg i g k (.requeue e) .succeeds g (.requeueIsSet e) k
  | againFails {e} : e.shouldRequeue = true →
      JobStep cfg i g k (.requeue e) .fails g .interrupt k
  | dropped {e} : g.interruptFlag = true → JobStep cfg i g k (.requeueIsSet e) .tick g .loopEmpty k
  | mayPut {e} : g.interruptFlag = false → JobStep cfg i g k (.requeueIsSet e) .tick g (.put e) k
  | putBack {e} : JobStep cfg i g k (.put e) .tick { g with queue := g.queue.put e } .loopEmpty k
  | hookAfter {m} : m < cfg.numHooks i →
      JobStep cfg i g k (.afterSuite m) .succeeds g (.afterSuite (m + 1)) (k + 1)
  | hookAfterFails {m} : m < cfg.numHooks i →
      JobStep cfg i g k (.afterSuite m) .fails g .interrupt k
  | leaveRun {m} : cfg.numHooks i ≤ m → JobStep cfg i g k (.afterSuite m) .tick g .teardown k
  | skipTeardown : cfg.hasTeardownFlag = false → JobStep cfg i g k .teardown .tick g .returned k
  | teardownOk : cfg.hasTeardownFlag = true → JobStep cfg i g k .teardown .succeeds g .returned k
  | teardownFails : cfg.hasTeardownFlag = true →
      JobStep cfg i g k .teardown .fails { g with teardownFlag := true } .returned k

/-- **Every step of a thread is one of the transitions.** -/
theorem JobStep.of_jobStep {g g' : Shared τ} {j j' : JobState τ} {o : Outcome τ}
    (h : jobStep cfg i g j o = some (g', j')) :
    JobStep cfg i g j.afterSuiteRan j.pc o g' j'.pc j'.afterSuiteRan := by
  obtain ⟨pc, k⟩ := j
  -- position and outcome decide the branch of `jobStep`, and the branch decides the transition
  cases o with
  | elapsed t =>
    cases pc <;> simp only [jobStep, reduceCtorEq] at h
    rename_i e raised
    cases raised <;> split at h <;> cases h <;> constructor <;> assumption
  | _ =>
    cases pc <;> simp only [jobStep] at h <;> (try split at h) <;> (try cases h) <;>
      constructor <;> first | assumption | simp_all

/-- **Every step of the system is a transition of one thread or the user's interrupt.** -/
theorem step_cases {s s' : State n τ} {a : Act n τ} (h : step cfg s a = some s') :
    (∃ i o g' j', a = .job i o ∧ s' = ⟨g', Function.update s.jobs i j'⟩ ∧
      JobStep cfg i s.shared (s.jobs i).afterSuiteRan (s.jobs i).pc o g' j'.pc
        j'.afterSuiteRan) ∨
    (a = .userInterrupt ∧
      s' = { s with shared := { s.shared with interruptFlag := true, userInterrupted := true } }) := by
  cases a with
  | job i o =>
    obtain ⟨⟨g', j'⟩, hj, rfl⟩ := Option.map_eq_some_iff.mp h
    exact .inl ⟨i, o, g', j', rfl, rfl, .of_jobStep hj⟩
  | userInterrupt => exact .inr ⟨rfl, (Option.some.inj h).symm⟩

end MongoTests.Resmoke.Job
