import MongoTests.Lib.Machine

/-!
# The stepdown thread, the job thread and the shell

Embeds `resmokelib/testing/hooks/stepdown.py` (`_StepdownThread`, both lifecycles, and the calls of
`ContinuousStepdown`) and the part of `jstests/concurrency/fsm_libs/resmoke_runner.js` that creates
and awaits the stepdown files. A step is one lock section, one event operation, one file operation,
or the start or end of `_step_down_all`.

* `ThreadPc`, `threadStep`: `_StepdownThread.run`.
* `JobPc`, `jobStep`: `pause`, `resume` and `stop`, as the hook calls them.
* `ShellPc`, `shellStep`: `runWorkloads`.
* `ThreadStep`, `JobStep`, `ShellStep`, `step_cases`: everything one step can do, by cases.
-/

namespace MongoTests.Hooks.Stepdown

open MongoTests.Lib

/-! ## States -/

/-- `FlagBasedStepdownLifecycle` or `FileBasedStepdownLifecycle`. -/
inductive Lifecycle
  | flagBased
  | fileBased
  deriving DecidableEq, Repr

structure Config where
  lifecycle : Lifecycle
  /-- `_rs_fixtures` is not empty. -/
  hasFixtures : Bool
  deriving DecidableEq, Repr

/-- `StepdownFiles`: which of the three files exist. -/
structure StepdownFiles where
  permitted : Bool
  idleRequest : Bool
  idleAck : Bool
  deriving DecidableEq, Repr

/-- Why `run` has returned. -/
inductive Exit
  | noFixtures
  | stopped
  /-- An exception of `_step_down_all`, `_await_primaries` or the operating system. -/
  | raised
  /-- `os.remove(permitted)` did not find the file. -/
  | fileNotFound
  deriving DecidableEq, Repr

/-- The position of the stepdown thread in `run`. -/
inductive ThreadPc
  | checkFixtures
  /-- About to set `_is_idle_evt`. -/
  | setIdle
  /-- In `wait_for_stepdown_permitted`. -/
  | waitPermitted
  /-- Permission was granted; about to clear `_is_idle_evt`. -/
  | clearIdle
  /-- About to compare the time with `_last_exec`. -/
  | checkTime
  | stepDownAll
  | awaitPrimaries
  /-- About to call `poll_for_idle_request`. -/
  | poll
  /-- `send_idle_acknowledgement`: about to create `idle_ack`. -/
  | ackCreate
  /-- `send_idle_acknowledgement`: about to remove `permitted`. -/
  | ackRemove
  /-- In `wait_for_stepdown_interval`. -/
  | waitInterval
  | terminated (e : Exit)
  deriving DecidableEq, Repr

/-- The position of the job thread. -/
inductive JobPc
  /-- Not in a method of the stepdown thread. -/
  | free
  /-- `_check_thread`, before `pause`. -/
  | check
  /-- `mark_test_finished` with flags. -/
  | markFinished
  /-- `mark_test_finished` with files: the three removals. -/
  | removePermitted
  | removeIdleRequest
  | removeIdleAck
  /-- `pause`: in `_is_idle_evt.wait()`. -/
  | waitIdle
  /-- `pause`: in `_await_primaries`. -/
  | awaitPrimaries
  /-- `pause`: in `_do_wait_for_mongos_retarget`. -/
  | retarget
  /-- `resume`: about to call `mark_test_started`; `stopping` when `stop` called it. -/
  | markStarted (stopping : Bool)
  /-- `stop`: about to stop the lifecycle. -/
  | stopLifecycle
  /-- `stop`: in `join`. -/
  | join
  | stopped
  /-- An exception has left the hook. -/
  | failed
  deriving DecidableEq, Repr

/-- How far the calls of the job thread have come. -/
inductive Phase
  /-- No `pause` has returned yet. -/
  | initial
  /-- `pause` has returned, and no `resume` has begun since. -/
  | paused
  | resumed
  | tested
  /-- `stop` has called `resume`. -/
  | stopping
  deriving DecidableEq, Repr

/-- The position of the shell in `runWorkloads`. -/
inductive ShellPc
  | idle
  /-- Running the `setup` functions, up to the creation of `permitted`. -/
  | setup
  | prepare
  | working
  /-- About to create `idle_request`. -/
  | requestIdle
  | waitAck
  | teardown
  deriving DecidableEq, Repr

/-- The system. `quiet` records that a shell has observed `idle_ack` and that no shell has created
`permitted` since. -/
structure State where
  thread : ThreadPc
  isIdleEvt : Bool
  shouldStop : Bool
  testStarted : Bool
  files : StepdownFiles
  job : JobPc
  phase : Phase
  shell : ShellPc
  quiet : Bool
  deriving DecidableEq, Repr

/-- `before_suite`: the thread is started, whatever files there are. -/
def start (files : StepdownFiles) : State where
  thread := .checkFixtures
  isIdleEvt := true
  shouldStop := false
  testStarted := false
  files := files
  job := .free
  phase := .initial
  shell := .idle
  quiet := false

/-- What the environment contributes to a step of the thread. -/
inductive ThreadAct
  | tick
  /-- The stepdown interval has passed. -/
  | due
  | notDue
  | raises
  deriving DecidableEq, Repr

/-- A step of the job thread: a call, a step of the current call, or an exception in it. -/
inductive JobAct
  | callPause
  | callResume
  | callStop
  | tick
  | raises
  deriving DecidableEq, Repr

inductive ShellAct
  | start
  | tick
  /-- An exception, or the time-out of `assert.soonNoExcept`. -/
  | fails
  | crash
  deriving DecidableEq, Repr

inductive Act
  | thread (o : ThreadAct)
  | job (o : JobAct)
  | shell (o : ShellAct)
  deriving DecidableEq, Repr

/-! ## Steps -/

variable (cfg : Config)

/-- The condition that `wait_for_stepdown_permitted` waits for. -/
def permission (s : State) : Bool :=
  match cfg.lifecycle with
  | .flagBased => s.testStarted
  | .fileBased => s.files.permitted

def pollForIdleRequest (s : State) : Bool :=
  match cfg.lifecycle with
  | .flagBased => !s.testStarted
  | .fileBased => s.files.idleRequest

/-- Where `send_idle_acknowledgement` starts; it is a no-op with flags. -/
def sendIdleAcknowledgement : ThreadPc :=
  match cfg.lifecycle with
  | .flagBased => .setIdle
  | .fileBased => .ackCreate

/-- Where `mark_test_finished` starts. -/
def markTestFinished : JobPc :=
  match cfg.lifecycle with
  | .flagBased => .markFinished
  | .fileBased => .removePermitted

/-- `mark_test_started`, a no-op with files. -/
def markTestStarted (s : State) : State :=
  match cfg.lifecycle with
  | .flagBased => { s with testStarted := true }
  | .fileBased => s

def resumeReturns (stopping : Bool) : JobPc := if stopping then .join else .free

/-- One step of `_StepdownThread.run`. -/
def threadStep (s : State) : ThreadAct → Option State
  | .tick =>
    match s.thread with
    | .checkFixtures =>
      some { s with thread := if cfg.hasFixtures then .setIdle else .terminated .noFixtures }
    | .setIdle => some { s with thread := .waitPermitted, isIdleEvt := true }
    | .waitPermitted =>
      if s.shouldStop then some { s with thread := .terminated .stopped }
      else if permission cfg s then some { s with thread := .clearIdle }
      else some s
    | .clearIdle => some { s with thread := .checkTime, isIdleEvt := false }
    | .stepDownAll => some { s with thread := .awaitPrimaries }
    | .awaitPrimaries => some { s with thread := .poll }
    | .poll =>
      if pollForIdleRequest cfg s then some { s with thread := sendIdleAcknowledgement cfg }
      else some { s with thread := .waitInterval }
    | .ackCreate =>
      some { s with thread := .ackRemove, files := { s.files with idleAck := true } }
    | .ackRemove =>
      if s.files.permitted then
        some { s with thread := .setIdle, files := { s.files with permitted := false } }
      else some { s with thread := .terminated .fileNotFound }
    | .waitInterval => some { s with thread := .setIdle }
    | _ => none
  | .due => if s.thread = .checkTime then some { s with thread := .stepDownAll } else none
  | .notDue => if s.thread = .checkTime then some { s with thread := .poll } else none
  | .raises =>
    if s.thread ∈ [.stepDownAll, .awaitPrimaries, .ackCreate, .ackRemove] then
      some { s with thread := .terminated .raised }
    else none

/-- Whether `is_alive()` is false. -/
def ThreadPc.dead : ThreadPc → Bool
  | .terminated _ => true
  | _ => false

/-- One step of the job thread. While a shell runs, the job thread is waiting for it. -/
def jobStep (s : State) : JobAct → Option State
  | .callPause =>
    if s.job = .free ∧ s.shell = .idle then some { s with job := .check } else none
  | .callResume =>
    if s.job = .free ∧ s.shell = .idle ∧ s.phase = .paused then
      some { s with job := .markStarted false, phase := .resumed }
    else none
  | .callStop =>
    if s.job = .free ∧ s.shell = .idle then some { s with job := .stopLifecycle } else none
  | .tick =>
    match s.job with
    | .check =>
      if s.thread.dead then some { s with job := .failed }
      else some { s with job := markTestFinished cfg }
    | .markFinished => some { s with job := .waitIdle, testStarted := false }
    | .removePermitted =>
      some { s with job := .removeIdleRequest, files := { s.files with permitted := false } }
    | .removeIdleRequest =>
      some { s with job := .removeIdleAck, files := { s.files with idleRequest := false } }
    | .removeIdleAck =>
      some { s with job := .waitIdle, files := { s.files with idleAck := false } }
    | .waitIdle => if s.isIdleEvt then some { s with job := .awaitPrimaries } else none
    | .awaitPrimaries => some { s with job := .retarget }
    | .retarget => some { s with job := .free, phase := .paused }
    | .markStarted stopping =>
      some { markTestStarted cfg s with job := resumeReturns stopping }
    | .stopLifecycle =>
      some { s with job := .markStarted true, shouldStop := true, phase := .stopping }
    | .join => if s.thread.dead then some { s with job := .stopped } else none
    | _ => none
  | .raises =>
    if s.job ∈ [.removePermitted, .removeIdleRequest, .removeIdleAck, .awaitPrimaries, .retarget]
    then some { s with job := .failed }
    else none

/-- One step of the shell that runs a test; only suites with files have one that matters here. -/
def shellStep (s : State) : ShellAct → Option State
  | .start =>
    if cfg.lifecycle = .fileBased ∧ s.job = .free ∧ s.phase = .resumed ∧ s.shell = .idle then
      some { s with shell := .setup, phase := .tested }
    else none
  | .tick =>
    match s.shell with
    | .idle => none
    | .setup =>
      some { s with shell := .prepare, files := { s.files with permitted := true }, quiet := false }
    | .prepare => some { s with shell := .working }
    | .working => some { s with shell := .requestIdle }
    | .requestIdle =>
      some { s with shell := .waitAck, files := { s.files with idleRequest := true } }
    | .waitAck =>
      if s.files.idleAck then some { s with shell := .teardown, quiet := true } else some s
    | .teardown => some { s with shell := .idle }
  | .fails =>
    if s.shell ∈ [.setup, .prepare, .requestIdle, .waitAck] then some { s with shell := .teardown }
    else none
  | .crash => if s.shell ≠ .idle then some { s with shell := .idle } else none

def step (s : State) : Act → Option State
  | .thread o => threadStep cfg s o
  | .job o => jobStep cfg s o
  | .shell o => shellStep cfg s o

/-! ## What a step can do -/

inductive ThreadStep (s : State) : ThreadAct → State → Prop
  | hasFixtures : s.thread = .checkFixtures → cfg.hasFixtures = true →
      ThreadStep s .tick { s with thread := .setIdle }
  | noFixtures : s.thread = .checkFixtures → cfg.hasFixtures = false →
      ThreadStep s .tick { s with thread := .terminated .noFixtures }
  | setIdle : s.thread = .setIdle →
      ThreadStep s .tick { s with thread := .waitPermitted, isIdleEvt := true }
  | stop : s.thread = .waitPermitted → s.shouldStop = true →
      ThreadStep s .tick { s with thread := .terminated .stopped }
  | permit : s.thread = .waitPermitted → permission cfg s = true →
      ThreadStep s .tick { s with thread := .clearIdle }
  | wait : s.thread = .waitPermitted → permission cfg s = false → ThreadStep s .tick s
  | clearIdle : s.thread = .clearIdle →
      ThreadStep s .tick { s with thread := .checkTime, isIdleEvt := false }
  | due : s.thread = .checkTime → ThreadStep s .due { s with thread := .stepDownAll }
  | notDue : s.thread = .checkTime → ThreadStep s .notDue { s with thread := .poll }
  | steppedDown : s.thread = .stepDownAll →
      ThreadStep s .tick { s with thread := .awaitPrimaries }
  | primaries : s.thread = .awaitPrimaries → ThreadStep s .tick { s with thread := .poll }
  | idleRequest : s.thread = .poll → pollForIdleRequest cfg s = true →
      ThreadStep s .tick { s with thread := sendIdleAcknowledgement cfg }
  | noIdleRequest : s.thread = .poll → pollForIdleRequest cfg s = false →
      ThreadStep s .tick { s with thread := .waitInterval }
  | ackCreate : s.thread = .ackCreate →
      ThreadStep s .tick { s with thread := .ackRemove, files := { s.files with idleAck := true } }
  | ackRemove : s.thread = .ackRemove → s.files.permitted = true →
      ThreadStep s .tick { s with thread := .setIdle, files := { s.files with permitted := false } }
  | ackMissing : s.thread = .ackRemove → s.files.permitted = false →
      ThreadStep s .tick { s with thread := .terminated .fileNotFound }
  | interval : s.thread = .waitInterval → ThreadStep s .tick { s with thread := .setIdle }
  | raises : s.thread ∈ [.stepDownAll, .awaitPrimaries, .ackCreate, .ackRemove] →
      ThreadStep s .raises { s with thread := .terminated .raised }

inductive JobStep (s : State) : JobAct → State → Prop
  | callPause : s.job = .free → s.shell = .idle → JobStep s .callPause { s with job := .check }
  | callResume : s.job = .free → s.shell = .idle → s.phase = .paused →
      JobStep s .callResume { s with job := .markStarted false, phase := .resumed }
  | callStop : s.job = .free → s.shell = .idle →
      JobStep s .callStop { s with job := .stopLifecycle }
  | checkFails : s.job = .check → s.thread.dead = true →
      JobStep s .tick { s with job := .failed }
  | check : s.job = .check → s.thread.dead = false →
      JobStep s .tick { s with job := markTestFinished cfg }
  | markFinished : s.job = .markFinished →
      JobStep s .tick { s with job := .waitIdle, testStarted := false }
  | removePermitted : s.job = .removePermitted →
      JobStep s .tick
        { s with job := .removeIdleRequest, files := { s.files with permitted := false } }
  | removeIdleRequest : s.job = .removeIdleRequest →
      JobStep s .tick
        { s with job := .removeIdleAck, files := { s.files with idleRequest := false } }
  | removeIdleAck : s.job = .removeIdleAck →
      JobStep s .tick { s with job := .waitIdle, files := { s.files with idleAck := false } }
  | waitIdle : s.job = .waitIdle → s.isIdleEvt = true →
      JobStep s .tick { s with job := .awaitPrimaries }
  | primaries : s.job = .awaitPrimaries → JobStep s .tick { s with job := .retarget }
  | paused : s.job = .retarget → JobStep s .tick { s with job := .free, phase := .paused }
  | markStarted (b : Bool) : s.job = .markStarted b →
      JobStep s .tick { markTestStarted cfg s with job := resumeReturns b }
  | stopLifecycle : s.job = .stopLifecycle →
      JobStep s .tick
        { s with job := .markStarted true, shouldStop := true, phase := .stopping }
  | join : s.job = .join → s.thread.dead = true → JobStep s .tick { s with job := .stopped }
  | raises : s.job ∈ [.removePermitted, .removeIdleRequest, .removeIdleAck, .awaitPrimaries,
      .retarget] → JobStep s .raises { s with job := .failed }

inductive ShellStep (s : State) : ShellAct → State → Prop
  | start : cfg.lifecycle = .fileBased → s.job = .free → s.phase = .resumed → s.shell = .idle →
      ShellStep s .start { s with shell := .setup, phase := .tested }
  | setup : s.shell = .setup →
      ShellStep s .tick
        { s with shell := .prepare, files := { s.files with permitted := true }, quiet := false }
  | prepare : s.shell = .prepare → ShellStep s .tick { s with shell := .working }
  | working : s.shell = .working → ShellStep s .tick { s with shell := .requestIdle }
  | requestIdle : s.shell = .requestIdle →
      ShellStep s .tick { s with shell := .waitAck, files := { s.files with idleRequest := true } }
  | sawAck : s.shell = .waitAck → s.files.idleAck = true →
      ShellStep s .tick { s with shell := .teardown, quiet := true }
  | noAck : s.shell = .waitAck → s.files.idleAck = false → ShellStep s .tick s
  | teardown : s.shell = .teardown → ShellStep s .tick { s with shell := .idle }
  | fails : s.shell ∈ [.setup, .prepare, .requestIdle, .waitAck] →
      ShellStep s .fails { s with shell := .teardown }
  | crash : s.shell ≠ .idle → ShellStep s .crash { s with shell := .idle }

variable {cfg} {s s' : State}

theorem ThreadStep.of_tick (h : threadStep cfg s .tick = some s') : ThreadStep cfg s .tick s' := by
  cases hpc : s.thread <;> simp only [threadStep, hpc] at h
  case checkFixtures =>
    cases h
    cases hf : cfg.hasFixtures
    · exact .noFixtures hpc hf
    · exact .hasFixtures hpc hf
  case setIdle => exact Option.some.inj h ▸ .setIdle hpc
  case waitPermitted =>
    split_ifs at h with hs hp
    · exact Option.some.inj h ▸ .stop hpc hs
    · exact Option.some.inj h ▸ .permit hpc hp
    · exact Option.some.inj h ▸ .wait hpc (Bool.eq_false_iff.mpr hp)
  case clearIdle => exact Option.some.inj h ▸ .clearIdle hpc
  case checkTime => cases h
  case stepDownAll => exact Option.some.inj h ▸ .steppedDown hpc
  case awaitPrimaries => exact Option.some.inj h ▸ .primaries hpc
  case poll =>
    split_ifs at h with hp
    · exact Option.some.inj h ▸ .idleRequest hpc hp
    · exact Option.some.inj h ▸ .noIdleRequest hpc (Bool.eq_false_iff.mpr hp)
  case ackCreate => exact Option.some.inj h ▸ .ackCreate hpc
  case ackRemove =>
    split_ifs at h with hp
    · exact Option.some.inj h ▸ .ackRemove hpc hp
    · exact Option.some.inj h ▸ .ackMissing hpc (Bool.eq_false_iff.mpr hp)
  case waitInterval => exact Option.some.inj h ▸ .interval hpc
  case terminated => cases h

theorem ThreadStep.of_threadStep {o : ThreadAct} (h : threadStep cfg s o = some s') :
    ThreadStep cfg s o s' := by
  cases o with
  | tick => exact .of_tick h
  | _ =>
    simp only [threadStep] at h
    split_ifs at h with hpc
    cases h
    constructor
    exact hpc

theorem JobStep.of_tick (h : jobStep cfg s .tick = some s') : JobStep cfg s .tick s' := by
  cases hpc : s.job <;> simp only [jobStep, hpc] at h
  case check =>
    split_ifs at h with hd
    · exact Option.some.inj h ▸ .checkFails hpc hd
    · exact Option.some.inj h ▸ .check hpc (Bool.eq_false_iff.mpr hd)
  case markFinished => exact Option.some.inj h ▸ .markFinished hpc
  case removePermitted => exact Option.some.inj h ▸ .removePermitted hpc
  case removeIdleRequest => exact Option.some.inj h ▸ .removeIdleRequest hpc
  case removeIdleAck => exact Option.some.inj h ▸ .removeIdleAck hpc
  case waitIdle =>
    split_ifs at h with hi
    exact Option.some.inj h ▸ .waitIdle hpc hi
  case awaitPrimaries => exact Option.some.inj h ▸ .primaries hpc
  case retarget => exact Option.some.inj h ▸ .paused hpc
  case markStarted b => exact Option.some.inj h ▸ .markStarted b hpc
  case stopLifecycle => exact Option.some.inj h ▸ .stopLifecycle hpc
  case join =>
    split_ifs at h with hd
    exact Option.some.inj h ▸ .join hpc hd
  all_goals cases h

theorem JobStep.of_jobStep {o : JobAct} (h : jobStep cfg s o = some s') : JobStep cfg s o s' := by
  cases o with
  | tick => exact .of_tick h
  | _ =>
    simp only [jobStep] at h
    split_ifs at h
    cases h
    constructor <;> simp_all

theorem ShellStep.of_shellStep {o : ShellAct} (h : shellStep cfg s o = some s') :
    ShellStep cfg s o s' := by
  cases o with
  | tick =>
    cases hpc : s.shell <;> simp only [shellStep, hpc] at h
    case idle => cases h
    case setup => exact Option.some.inj h ▸ .setup hpc
    case prepare => exact Option.some.inj h ▸ .prepare hpc
    case working => exact Option.some.inj h ▸ .working hpc
    case requestIdle => exact Option.some.inj h ▸ .requestIdle hpc
    case waitAck =>
      split_ifs at h with ha
      · exact Option.some.inj h ▸ .sawAck hpc ha
      · exact Option.some.inj h ▸ .noAck hpc (Bool.eq_false_iff.mpr ha)
    case teardown => exact Option.some.inj h ▸ .teardown hpc
  | _ =>
    simp only [shellStep] at h
    split_ifs at h
    cases h
    constructor <;> simp_all

/-- **Every step of the system is a transition of one of the three parties.** -/
theorem step_cases {a : Act} (h : step cfg s a = some s') :
    (∃ o, a = .thread o ∧ ThreadStep cfg s o s') ∨ (∃ o, a = .job o ∧ JobStep cfg s o s') ∨
      (∃ o, a = .shell o ∧ ShellStep cfg s o s') := by
  cases a with
  | thread o => exact .inl ⟨o, rfl, .of_threadStep h⟩
  | job o => exact .inr (.inl ⟨o, rfl, .of_jobStep h⟩)
  | shell o => exact .inr (.inr ⟨o, rfl, .of_shellStep h⟩)

end MongoTests.Hooks.Stepdown
