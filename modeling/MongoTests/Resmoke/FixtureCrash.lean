import MongoTests.Resmoke.JobReport

/-!
# Crashed members of a replica set

After a test `Job._execute_test` asks the fixture whether it is running. This module adds the replica
set of `replicaset.py` to the jobs that report, and the exception that ends `_execute_test`.

* `ReplicaSetFixture.isRunning`; `members`: the nodes and the initial sync node.
* `executeTestRaises`: the exception, with `executeTestRaises_isSome` for `Job.executeTest`.
* `Noticed`: the test is a failure with return code 2, and the job stops because of the fixture.
* **`crash_noticed_iff`**: when a crashed member, and nothing else, is noticed.
-/

namespace MongoTests.Resmoke.JobReport

open MongoTests.Lib Report

/-! ## The fixture -/

/-- A process that was started; `poll` is `None` while it runs. -/
structure Process where
  poll : Option ℤ
  deriving DecidableEq, Repr

/-- A `MongoDFixture`, which has no process before `setup` and after `teardown`. -/
structure MongoDFixture where
  mongod : Option Process
  deriving DecidableEq, Repr

def MongoDFixture.isRunning (f : MongoDFixture) : Bool := f.mongod.any fun p => p.poll.isNone

structure ReplicaSetFixture where
  nodes : List MongoDFixture
  initialSyncNode : Option MongoDFixture
  deriving DecidableEq, Repr

def ReplicaSetFixture.isRunning (f : ReplicaSetFixture) : Bool :=
  let running := f.nodes.all MongoDFixture.isRunning
  match f.initialSyncNode with
  | none => running
  | some node => node.isRunning || running

def ReplicaSetFixture.members (f : ReplicaSetFixture) : List MongoDFixture :=
  f.nodes ++ f.initialSyncNode.toList

/-- `_check_if_fixture_running`, where `isStepdown` tells the instances of `ContinuousStepdown`. -/
def checkIfFixtureRunning {Hook : Type*} (isStepdown : Hook → Bool) (hooks : List Hook) : Bool :=
  !hooks.any isStepdown

section Fixture

variable {f : ReplicaSetFixture}

theorem allRunning_iff :
    (∀ m ∈ f.members, m.isRunning = true) ↔
      (∀ m ∈ f.nodes, m.isRunning = true) ∧ ∀ m ∈ f.initialSyncNode, m.isRunning = true := by
  simp [ReplicaSetFixture.members, or_imp, forall_and]

/-- **What `is_running` means:** the initial sync node stands in for the others. -/
theorem isRunning_iff :
    f.isRunning = true ↔
      (∀ m ∈ f.nodes, m.isRunning = true) ∨ ∃ m ∈ f.initialSyncNode, m.isRunning = true := by
  unfold ReplicaSetFixture.isRunning
  cases f.initialSyncNode with
  | none => simp
  | some node => simp [or_comm]

/-- A replica set that is not running has a member that is not. -/
theorem isRunning_of_allRunning (h : ∀ m ∈ f.members, m.isRunning = true) : f.isRunning = true :=
  isRunning_iff.mpr (.inl (allRunning_iff.mp h).1)

/-- A member has crashed, and `is_running` sees it. -/
theorem isRunning_eq_false_iff (h : ¬ ∀ m ∈ f.members, m.isRunning = true) :
    f.isRunning = false ↔
      ∀ node ∈ f.initialSyncNode, (node.isRunning = true ↔ ∀ m ∈ f.nodes, m.isRunning = true) := by
  rw [allRunning_iff] at h
  rw [← Bool.not_eq_true, isRunning_iff]
  constructor
  · intro hnot node hnode
    rw [not_or, not_exists] at hnot
    exact iff_of_false (fun hrunning => hnot.2 node ⟨hnode, hrunning⟩) hnot.1
  · rintro hiff (hnodes | ⟨node, hnode, hrunning⟩)
    · exact h ⟨hnodes, fun node hnode => (hiff node hnode).mpr hnodes⟩
    · have hnodes := (hiff node hnode).mp hrunning
      exact h ⟨hnodes, fun node hnode => (hiff node hnode).mpr hnodes⟩

end Fixture

/-! ## The exception -/

variable {Id : Type*}

/-- Why a job stops. -/
inductive StopReason
  | hook
  | beforeTest
  | testFailed
  | fixtureNotRunning
  | afterTest
  deriving DecidableEq, Repr

/-- The text of the exception; that of a hook is its own. -/
def StopReason.text (fixture shortDescription : String) : StopReason → Option String
  | .hook => none
  | .beforeTest => some "A hook's before_test failed"
  | .testFailed => some (shortDescription ++ " failed")
  | .fixtureNotRunning => some (fixture ++ " not running after " ++ shortDescription)
  | .afterTest => some "A hook's after_test failed"

inductive Raised
  | stopExecution (reason : StopReason)
  | other
  deriving DecidableEq, Repr

/-- `_run_hooks_before_tests` and `_run_hooks_after_tests`. -/
def hooksRaised (failFast : Bool) (reason : StopReason) : Job.HookResult → Option Raised
  | .ok => none
  | .stopExecution => some (.stopExecution .hook)
  | .serverFailure => some (.stopExecution reason)
  | .testFailure => if failFast then some (.stopExecution reason) else none
  | .other => some .other

/-- What `_execute_test` raises, when `p` says whether the test passed. -/
def executeTestRaises (failFast checkIfFixtureRunning p : Bool) (x : Execution Id) : Option Raised :=
  if x.configureRaises then some .other
  else
    match hooksRaised failFast .beforeTest x.before with
    | some e => some e
    | none =>
      if x.testRaises then some .other
      else if failFast && !p then some (.stopExecution .testFailed)
      else if checkIfFixtureRunning && !x.fixtureRunning then
        some (.stopExecution .fixtureNotRunning)
      else hooksRaised failFast .afterTest x.after

theorem hooksRaised_isSome (failFast : Bool) (reason : StopReason) (o : Job.HookResult) :
    (hooksRaised failFast reason o).isSome = Job.hooksRaise failFast o := by
  cases o <;> cases failFast <;> rfl

/-- **The exception refines the model of the jobs**, where `_execute_test` raises or does not. -/
theorem executeTestRaises_isSome (failFast checked p : Bool) (x : Execution Id) :
    (executeTestRaises failFast checked p x).isSome =
      Job.executeTest failFast checked (x.outcome p) := by
  have hbefore := hooksRaised_isSome failFast .beforeTest x.before
  have hafter := hooksRaised_isSome failFast .afterTest x.after
  unfold executeTestRaises Job.executeTest Execution.outcome Job.runHooksBeforeTests
    Job.runHooksAfterTests
  dsimp only
  by_cases hconfigure : x.configureRaises = true
  · rw [if_pos hconfigure, if_pos hconfigure]
    rfl
  · rw [if_neg hconfigure, if_neg hconfigure, ← hbefore, ← hafter]
    cases hooksRaised failFast .beforeTest x.before with
    | some e => rfl
    | none =>
      dsimp only
      split_ifs with htest hfail hrunning
      · simp [htest]
      · simp [hfail]
      · simp [hrunning]
      · simp [htest, hfail, hrunning]

/-- The test was called, and it has run to its end. -/
structure RunsToEnd (failFast : Bool) (x : Execution Id) : Prop where
  configure : x.configureRaises = false
  before : hooksRaised failFast .beforeTest x.before = none
  test : x.testRaises = false

/-- The last outcome of the test is a success. -/
def Execution.passes (x : Execution Id) : Prop := ∃ code, x.results.getLast? = some (.success, code)

/-- The execution ends with this fixture. -/
def Execution.on (x : Execution Id) (f : ReplicaSetFixture) : Execution Id :=
  { x with fixtureRunning := f.isRunning }

theorem executeTestRaises_of_runsToEnd {failFast checked p : Bool} {x : Execution Id}
    (h : RunsToEnd failFast x) :
    executeTestRaises failFast checked p x = some (.stopExecution .fixtureNotRunning) ↔
      checked = true ∧ x.fixtureRunning = false ∧ (failFast = true → p = true) := by
  have hafter : hooksRaised failFast .afterTest x.after ≠
      some (.stopExecution .fixtureNotRunning) := by
    cases x.after <;> cases failFast <;> decide
  rw [executeTestRaises, if_neg (Bool.eq_false_iff.mp h.configure), h.before]
  dsimp only
  rw [if_neg (Bool.eq_false_iff.mp h.test)]
  cases failFast <;> cases p <;> cases checked <;> cases x.fixtureRunning <;> simp [hafter]

/-! ## The report -/

section Report

variable [DecidableEq Id] {rfs : String} {r r' : TestReport Id} {x : Execution Id}

def TestResult.status : TestResult → Status
  | .success => .pass
  | .failure => .fail
  | .error => .error

/-- The entry of the test has the outcome that was added last. -/
theorem call_addResult (rfs : String) {t : TestInfo Id} (h : findTestInfo x.test r.testInfos = some t)
    (c : TestResult × Option ℤ) :
    ∃ r' t', call rfs r (addResult x c) = some r' ∧
      findTestInfo x.test r'.testInfos = some t' ∧ t'.status = some c.1.status := by
  -- The three calls differ in the counter, the status and the return code.
  have hset : ∀ (q : TestReport Id) (status : Status) (e : TestInfo Id → String) (code : Option ℤ),
      q.testInfos = r.testInfos → ∃ r' t', q.setOutcome x.test status e code = some r' ∧
        findTestInfo x.test r'.testInfos = some t' ∧ t'.status = some status := by
    intro q status e code hq
    rw [← hq] at h
    obtain ⟨infos, hu, hf⟩ := updateTestInfo_of_found h (f := fun t => { t with
      status := some status
      evergreenStatus := some (e t)
      returnCode := code }) fun _ => rfl
    exact ⟨_, _, Option.map_eq_some_iff.mpr ⟨infos, hu, rfl⟩, hf, rfl⟩
  obtain ⟨_ | _ | _, code⟩ := c
  · obtain ⟨r', t', hr, ht⟩ := hset { r with numSucceeded := r.numSucceeded + 1 } .pass
      (fun _ => "pass") code rfl
    exact ⟨r', t', Option.map_eq_some_iff.mpr ⟨r', hr, rfl⟩, ht⟩
  · obtain ⟨r', t', hr, ht⟩ := hset { r with numFailed := r.numFailed + 1 } .fail
      (failureStatus rfs) code rfl
    exact ⟨r', t', Option.map_eq_some_iff.mpr ⟨r', hr, rfl⟩, ht⟩
  · obtain ⟨r', t', hr, ht⟩ := hset { r with numErrored := r.numErrored + 1 } .error
      (fun _ => "fail") code rfl
    exact ⟨r', t', Option.map_eq_some_iff.mpr ⟨r', hr, rfl⟩, ht⟩

/-- The outcomes of a test that was started, and its end. -/
theorem calls_results (rfs : String) {t : TestInfo Id} (h : findTestInfo x.test r.testInfos = some t)
    (cs : List (TestResult × Option ℤ)) :
    ∃ r' t', calls rfs r (cs.map (addResult x) ++ [.stopTest (x.testCase none)]) = some r' ∧
      findTestInfo x.test r'.testInfos = some t' ∧ t'.ended = true ∧
      t'.status = (cs.getLast?.map fun c => c.1.status).or t.status := by
  induction cs generalizing r t with
  | nil =>
    obtain ⟨infos, hu, hf⟩ := updateTestInfo_of_found h (f := fun t => { t with ended := true })
      fun _ => rfl
    refine ⟨{ r with testInfos := infos }, _, ?_, hf, rfl, rfl⟩
    refine Option.bind_eq_some_iff.mpr ⟨_, ?_, rfl⟩
    exact Option.map_eq_some_iff.mpr ⟨_, Option.map_eq_some_iff.mpr ⟨infos, hu, rfl⟩, rfl⟩
  | cons c cs ih =>
    obtain ⟨q, t₁, hq, ht₁, hstatus₁⟩ := call_addResult rfs h c
    obtain ⟨r', t', hr, ht', hended, hstatus⟩ := ih ht₁
    refine ⟨r', t', Option.bind_eq_some_iff.mpr ⟨q, hq, hr⟩, ht', hended, ?_⟩
    rw [hstatus, hstatus₁, List.getLast?_cons]
    cases cs.getLast? <;> rfl

/-- A test that was called. -/
theorem calls_callTest (rfs : String) (r : TestReport Id) (h : x.testRaises = false) :
    ∃ r' t', calls rfs r (callTest x) = some r' ∧ findTestInfo x.test r'.testInfos = some t' ∧
      t'.ended = true ∧ (passed r' x.test = true ↔ x.passes) := by
  have hstart : findTestInfo x.test (r.startTest (x.testCase none)).testInfos =
      some ⟨x.test, false, false, none, none, none⟩ := by
    simp [findTestInfo, TestReport.startTest, Execution.testCase]
  obtain ⟨r', t', hr, ht', hended, hstatus⟩ := calls_results rfs hstart x.results
  refine ⟨r', t', ?_, ht', hended, ?_⟩
  · rw [callTest, if_neg (Bool.eq_false_iff.mp h)]
    exact hr
  · rw [passed, ht', Option.any_some, decide_eq_true_eq, hstatus, Option.or_none, Execution.passes]
    cases x.results.getLast? with
    | none => simp
    | some c =>
      obtain ⟨_ | _ | _, code⟩ := c <;> simp [TestResult.status]

/-- The test is recorded as a failure with return code 2. -/
def Crashed (r : TestReport Id) (id : Id) : Prop :=
  ∃ t, findTestInfo id r.testInfos = some t ∧ t.status = some .fail ∧ t.returnCode = some 2

theorem crashed_setFailure (rfs : String) {t : TestInfo Id} (h : findTestInfo x.test r.testInfos = some t)
    (hended : t.ended = true) :
    ∃ r', calls rfs r [.setFailure (x.testCase none) 2] = some r' ∧ Crashed r' x.test := by
  obtain ⟨infos, hu, hf⟩ := updateTestInfo_of_found h (f := fun t => { t with
    status := some .fail
    evergreenStatus := some (failureStatus rfs t)
    returnCode := some 2 }) fun _ => rfl
  have hcall : TestReport.setFailure rfs r (x.testCase none) 2 =
      some { r with testInfos := infos } := by
    rw [TestReport.setFailure, TestReport.changeOutcome, Execution.testCase, h, Option.any_some,
      if_pos hended]
    exact Option.map_eq_some_iff.mpr ⟨infos, hu, rfl⟩
  refine ⟨recompute { r with testInfos := infos }, ?_, _, hf, rfl, rfl⟩
  exact Option.bind_eq_some_iff.mpr ⟨_, Option.map_eq_some_iff.mpr ⟨_, hcall, rfl⟩, rfl⟩

/-- The code after `test(self.report)`. -/
theorem runTest_spec (rfs : String) (failFast checked : Bool) (r : TestReport Id)
    (h : x.testRaises = false) :
    ∃ r' p, runTest rfs failFast checked r x = some (r', p) ∧ (p = true ↔ x.passes) ∧
      (checked = true → x.fixtureRunning = false → (failFast = true → p = true) →
        Crashed r' x.test) := by
  obtain ⟨q, t, hq, ht, hended, hpassed⟩ := calls_callTest rfs r h
  have hsome := runTest_isSome rfs failFast checked r x
  obtain ⟨⟨r', p⟩, hrun⟩ := Option.isSome_iff_exists.mp hsome
  refine ⟨r', p, hrun, ?_⟩
  rw [runTest, hq, Option.bind_some] at hrun
  dsimp only at hrun
  rw [h, Bool.false_or] at hrun
  split_ifs at hrun with hfail hcrash
  · cases hrun
    refine ⟨hpassed, fun _ _ hp => ?_⟩
    rw [Bool.and_eq_true, Bool.not_eq_true'] at hfail
    rw [hp hfail.1] at hfail
    cases hfail.2
  · obtain ⟨q', hq', heq⟩ := Option.map_eq_some_iff.mp hrun
    cases heq
    obtain ⟨_, hset, hcrashed⟩ := crashed_setFailure rfs ht hended
    rw [hset] at hq'
    cases hq'
    exact ⟨hpassed, fun _ _ _ => hcrashed⟩
  · obtain ⟨q', -, heq⟩ := Option.map_eq_some_iff.mp hrun
    cases heq
    refine ⟨hpassed, fun hchecked hrunning _ => absurd ?_ hcrash⟩
    rw [hchecked, hrunning]
    rfl

/-- An execution that runs to its end ends with this code. -/
theorem exists_runTest (rfs : String) (failFast checked : Bool) (r : TestReport Id)
    (h : RunsToEnd failFast x) :
    ∃ q, executeTest rfs failFast checked r x = runTest rfs failFast checked q x := by
  have hsome := executeTest_isSome rfs failFast checked r x
  have hbefore := h.before
  rw [executeTest, if_neg (Bool.eq_false_iff.mp h.configure)] at hsome ⊢
  cases hx : x.before with
  | ok => exact ⟨r, rfl⟩
  | testFailure =>
    rw [hx, hooksRaised] at hbefore
    split_ifs at hbefore with hfail
    rw [hx] at hsome
    dsimp only at hsome ⊢
    cases hcalls : calls rfs r (failTest x 1) with
    | none =>
      rw [hcalls] at hsome
      cases hsome
    | some q => exact ⟨q, by rw [Option.bind_some, if_neg hfail]⟩
  | stopExecution | serverFailure | other =>
    rw [hx] at hbefore
    cases hbefore

end Report

/-! ## Crashes -/

section Noticed

variable [DecidableEq Id]

/-- The crash of the fixture is recorded, and it stops the job. -/
def Noticed (r : TestReport Id) (id : Id) (raised : Option Raised) : Prop :=
  Crashed r id ∧ raised = some (.stopExecution .fixtureNotRunning)

/-- **When a crash is noticed.** At the end of every test of a job without `ContinuousStepdown`, a
crash is recorded and stops the job exactly when a member of the replica set is not running, in the
following cases and no others: all members are running; or `fail_fast` has not stopped the job before,
and the initial sync node, if there is one, runs exactly when all nodes do. -/
theorem crash_noticed_iff {Hook : Type*} (isStepdown : Hook → Bool) (hooks : List Hook)
    (hhooks : ∀ hook ∈ hooks, isStepdown hook = false) (f : ReplicaSetFixture) (rfs : String)
    (failFast : Bool) (r : TestReport Id) (x : Execution Id) (hend : RunsToEnd failFast x) :
    ∃ r' p, executeTest rfs failFast (checkIfFixtureRunning isStepdown hooks) r (x.on f) =
        some (r', p) ∧
      ((Noticed r' x.test
            (executeTestRaises failFast (checkIfFixtureRunning isStepdown hooks) p (x.on f)) ↔
          ∃ m ∈ f.members, m.isRunning = false) ↔
        (∀ m ∈ f.members, m.isRunning = true) ∨
          (failFast = true → x.passes) ∧
            ∀ node ∈ f.initialSyncNode,
              (node.isRunning = true ↔ ∀ m ∈ f.nodes, m.isRunning = true)) := by
  have hchecked : checkIfFixtureRunning isStepdown hooks = true := by
    simpa [checkIfFixtureRunning] using hhooks
  have hend' : RunsToEnd failFast (x.on f) := ⟨hend.configure, hend.before, hend.test⟩
  rw [hchecked]
  obtain ⟨q, hq⟩ := exists_runTest rfs failFast true r hend'
  obtain ⟨r', p, hrun, hp, hcrashed⟩ := runTest_spec rfs failFast true q hend'.test
  refine ⟨r', p, hq.trans hrun, ?_⟩
  have hnoticed : Noticed r' x.test (executeTestRaises failFast true p (x.on f)) ↔
      f.isRunning = false ∧ (failFast = true → x.passes) := by
    rw [Noticed, executeTestRaises_of_runsToEnd hend', hp]
    constructor
    · exact fun h => h.2.2
    · exact fun h => ⟨hcrashed rfl h.1 fun hf => hp.mpr (h.2 hf), rfl, h⟩
  have hdown : (∃ m ∈ f.members, m.isRunning = false) ↔ ¬ ∀ m ∈ f.members, m.isRunning = true := by
    simp
  rw [hnoticed, hdown]
  by_cases hall : ∀ m ∈ f.members, m.isRunning = true
  · rw [isRunning_of_allRunning hall]
    exact iff_of_true (iff_of_false (fun h => by cases h.1) (not_not_intro hall)) (.inl hall)
  · rw [isRunning_eq_false_iff hall, iff_true_right hall, or_iff_right hall, and_comm]

/-- A node that runs, and one that has crashed. -/
def running : MongoDFixture := ⟨some ⟨none⟩⟩

def crashed : MongoDFixture := ⟨some ⟨some (-6)⟩⟩

/-- **A crash that is not noticed.** A node crashes in a test that passes, and the initial sync node
runs: the test stays a success, and the job goes on. -/
theorem crash_hidden_by_initial_sync_node :
    let f : ReplicaSetFixture := ⟨[running, crashed], some running⟩
    let checked := checkIfFixtureRunning (fun hook : String => hook = "ContinuousStepdown") []
    (∃ m ∈ f.members, m.isRunning = false) ∧
      (executeTest "fail" true checked .reset ((passing 0).on f)).map
          (fun o => (o.2, o.1.testInfos.map fun t => (t.status, t.returnCode))) =
        some (true, [(some .pass, some 0)]) ∧
      executeTestRaises true checked true ((passing 0).on f) = none := by
  decide

/-- Without an initial sync node it is noticed. -/
theorem crash_noticed_of_two_nodes :
    let f : ReplicaSetFixture := ⟨[running, crashed], none⟩
    let checked := checkIfFixtureRunning (fun hook : String => hook = "ContinuousStepdown") []
    ∃ r p, executeTest "fail" true checked .reset ((passing 0).on f) = some (r, p) ∧
      Noticed r 0 (executeTestRaises true checked p ((passing 0).on f)) := by
  intro f checked
  obtain ⟨r, p, hexecute, hiff⟩ := crash_noticed_iff (fun hook => hook = "ContinuousStepdown") []
    (fun _ hhook => absurd hhook List.not_mem_nil) f "fail" true .reset (passing 0)
    ⟨rfl, rfl, rfl⟩
  refine ⟨r, p, hexecute, (hiff.mpr (.inr ⟨fun _ => ⟨some 0, rfl⟩, ?_⟩)).mpr ?_⟩
  · exact fun _ hnode => by cases hnode
  · exact ⟨crashed, by decide, rfl⟩

end Noticed

end MongoTests.Resmoke.JobReport
