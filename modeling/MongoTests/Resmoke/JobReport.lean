import MongoTests.Resmoke.Executor
import MongoTests.Resmoke.Report

/-!
# What the jobs report

Embeds the calls that `Job._execute_test` makes on the job's `TestReport`, on top of the job threads
of `Job.step`, and the count of skipped tests in `Suite._summarize_report`.

* `executeTest`: the report after a test and its hooks, by the exception that ends them.
* `step`: the job threads with their reports; hooks, fixtures and background threads report their
  own tests, which are dynamic.
* `entries`: the tests of a report that are not dynamic; `numSkipped`: the suite's count.
* **`one_entry_per_execution`**: a test that was executed has one entry, or none when it was stopped
  before it began.
* `stopped_test_has_no_entry`: a hook that stops the execution.
-/

namespace MongoTests.Resmoke.JobReport

open MongoTests.Lib Report

variable {n : ℕ} {τ Id : Type*}

/-! ## Executing a test -/

/-- An outcome that `unittest` adds to the report while a test runs. -/
inductive TestResult
  | success
  | failure
  | error
  deriving DecidableEq, Repr

/-- A call of `_execute_test`: the test case, and what the environment decides. -/
structure Execution (Id : Type*) where
  test : Id
  configureRaises : Bool
  before : Job.HookResult
  /-- `test(self.report)` raises: the logger of the test could not be made. -/
  testRaises : Bool
  /-- The outcomes that are added, with the return code of the test. -/
  results : List (TestResult × Option ℤ)
  fixtureRunning : Bool
  after : Job.HookResult
  deriving DecidableEq, Repr

/-- The test case, which is not dynamic. -/
def Execution.testCase (x : Execution Id) (returnCode : Option ℤ) : Test Id :=
  ⟨x.test, false, returnCode⟩

/-- `_fail_test`. -/
def failTest (x : Execution Id) (returnCode : ℤ) : List (Report.Act Id) :=
  [.startTest (x.testCase none), .addFailure (x.testCase (some returnCode)),
    .stopTest (x.testCase (some returnCode))]

def addResult (x : Execution Id) : TestResult × Option ℤ → Report.Act Id
  | (.success, returnCode) => .addSuccess (x.testCase returnCode)
  | (.failure, returnCode) => .addFailure (x.testCase returnCode)
  | (.error, returnCode) => .addError (x.testCase returnCode)

/-- `test(self.report)`. -/
def callTest (x : Execution Id) : List (Report.Act Id) :=
  .startTest (x.testCase none) ::
    if x.testRaises then [] else x.results.map (addResult x) ++ [.stopTest (x.testCase none)]

/-- What `_run_hooks_after_tests` reports. -/
def hooksAfter (x : Execution Id) : List (Report.Act Id) :=
  match x.after with
  | .ok | .stopExecution => []
  | .serverFailure => [.setFailure (x.testCase none) 2]
  | .testFailure => [.setFailure (x.testCase none) 1]
  | .other => [.setError (x.testCase none)]

/-- Recompute the counters. -/
def recompute (r : TestReport Id) : TestReport Id :=
  [Counter.succeeded, .failed, .errored, .interrupted].foldl
    (fun r c => r.assign (r.count c.status) c) r

section Calls

variable [DecidableEq Id] (reportFailureStatus : String)

/-- A call of the report from its beginning to its end. -/
def call (r : TestReport Id) (a : Report.Act Id) : Option (TestReport Id) :=
  (a.call reportFailureStatus r).map fun r => if a.pc = .idle then r else recompute r

def calls (r : TestReport Id) (as : List (Report.Act Id)) : Option (TestReport Id) :=
  as.foldlM (call reportFailureStatus) r

/-- The status that `find_test_info` finds is `pass`. -/
def passed (r : TestReport Id) (id : Id) : Bool :=
  (findTestInfo id r.testInfos).any fun t => t.status = some .pass

/-- `_execute_test` after the hooks' `before_test`: the report, and whether the test passed. -/
def runTest (failFast checkIfFixtureRunning : Bool) (r : TestReport Id) (x : Execution Id) :
    Option (TestReport Id × Bool) :=
  (calls reportFailureStatus r (callTest x)).bind fun r =>
    let p := passed r x.test
    if x.testRaises || (failFast && !p) then some (r, p)
    else if checkIfFixtureRunning && !x.fixtureRunning then
      (calls reportFailureStatus r [.setFailure (x.testCase none) 2]).map (·, p)
    else (calls reportFailureStatus r (hooksAfter x)).map (·, p)

/-- `_execute_test`: the report, and whether the test passed. -/
def executeTest (failFast checkIfFixtureRunning : Bool) (r : TestReport Id) (x : Execution Id) :
    Option (TestReport Id × Bool) :=
  if x.configureRaises then some (r, false)
  else match x.before with
    | .ok => runTest reportFailureStatus failFast checkIfFixtureRunning r x
    | .stopExecution => some (r, false)
    | .serverFailure => (calls reportFailureStatus r (failTest x 2)).map (·, false)
    | .testFailure => (calls reportFailureStatus r (failTest x 1)).bind fun r =>
      if failFast then some (r, false)
      else runTest reportFailureStatus failFast checkIfFixtureRunning r x
    | .other => (calls reportFailureStatus r [.startTest (x.testCase none),
        .addError (x.testCase none), .stopTest (x.testCase none)]).map (·, false)

end Calls

/-! ## The jobs and their reports -/

/-- The executor's parameters, and those of one repetition. -/
structure Config (n : ℕ) (τ : Type*) extends Executor.Config n τ where
  hasSetupFlag : Bool
  hasTeardownFlag : Bool
  reportFailureStatus : String

def Config.job (cfg : Config n τ) : Job.Config n τ where
  options := cfg.options
  hasSetupFlag := cfg.hasSetupFlag
  hasTeardownFlag := cfg.hasTeardownFlag
  numHooks := cfg.numHooks
  checkIfFixtureRunning := cfg.checkIfFixtureRunning

/-- The job threads and their reports; `executed` records the calls of `_execute_test`. -/
structure State (n : ℕ) (τ Id : Type*) where
  job : Job.State n τ
  reports : Fin n → TestReport Id
  executed : Fin n → List (Execution Id)

inductive Act (n : ℕ) (τ Id : Type*)
  /-- A step of the jobs that is not an execution. -/
  | job (a : Job.Act n τ)
  /-- Job `i` executes a test. -/
  | execute (i : Fin n) (x : Execution Id)
  /-- A fixture, a hook or its background thread calls the report of job `i`. -/
  | report (i : Fin n) (a : Report.Act Id)

/-- The tests that a call starts, and whether they are dynamic. -/
def started : Report.Act Id → List (Id × Bool)
  | .startTest test => [(test.id, test.dynamic)]
  | _ => []

def isExecution : Job.Act n τ → Bool
  | .job _ (.executed _) => true
  | _ => false

section Step

variable [Add τ] [LE τ] [DecidableLE τ] [DecidableEq Id] (cfg : Config n τ)

/-- An execution that raises before its hooks raises as if by one of them. -/
def Execution.outcome (x : Execution Id) (p : Bool) : Job.TestOutcome :=
  ⟨if x.configureRaises then .other else x.before, x.testRaises, p, x.fixtureRunning, x.after⟩

def step (s : State n τ Id) : Act n τ Id → Option (State n τ Id)
  | .job a =>
    if isExecution a then none else (Job.step cfg.job s.job a).map fun job => { s with job }
  | .execute i x =>
    (executeTest cfg.reportFailureStatus cfg.options.failFast (cfg.checkIfFixtureRunning i)
      (s.reports i) x).bind fun (r, p) =>
      (Job.step cfg.job s.job (.job i (.executed (x.outcome p)))).map fun job =>
        { job := job
          reports := Function.update s.reports i r
          executed := Function.update s.executed i (s.executed i ++ [x]) }
  | .report i a =>
    if (started a).all (·.2) then
      (call cfg.reportFailureStatus (s.reports i) a).map fun r =>
        { s with reports := Function.update s.reports i r }
    else none

variable [Zero τ] [DecidableEq τ] in
def start : State n τ Id where
  job := Job.start n cfg.makeTestQueue
  reports _ := .reset
  executed _ := []

/-- `uuid.uuid4()` gives every test case an id of its own. -/
def Fresh (s : State n τ Id) : Act n τ Id → Prop
  | .execute _ x => ∀ j, ∀ y ∈ s.executed j, y.test ≠ x.test
  | _ => True

instance (s : State n τ Id) (a : Act n τ Id) : Decidable (Fresh s a) :=
  match a with
  | .execute _ x => inferInstanceAs (Decidable (∀ j, ∀ y ∈ s.executed j, y.test ≠ x.test))
  | .job _ | .report _ _ => inferInstanceAs (Decidable True)

end Step

/-! ## Entries and skipped tests -/

/-- The tests of a report in the order of their entries, and whether they are dynamic. -/
def keys (r : TestReport Id) : List (Id × Bool) := r.testInfos.map fun t => (t.testId, t.dynamic)

/-- The tests of the entries that are not dynamic. -/
def entries (r : TestReport Id) : List Id := ((keys r).filter (!·.2)).map (·.1)

/-- `combine`: a test without an outcome has timed out. -/
def TestInfo.combined (t : TestInfo Id) : TestInfo Id :=
  if t.status.isNone || t.returnCode.isNone then
    { t with
      status := some .timeout
      evergreenStatus := some "fail"
      returnCode := some (-2)
      ended := true }
  else { t with ended := true }

def combine (reports : List (TestReport Id)) : TestReport Id :=
  recompute {
    testInfos := reports.flatMap fun r => r.testInfos.map TestInfo.combined
    numDynamic := (reports.map (·.numDynamic)).sum
    numSucceeded := 0
    numFailed := 0
    numErrored := 0
    numInterrupted := 0 }

/-- The truth value of `time_repeat_tests_secs`. -/
def timeRepeats [Zero τ] [DecidableEq τ] (o : SuiteOptions τ) : Bool :=
  o.timeRepeatTestsSecs.any (· ≠ 0)

/-- `num_skipped` in `_summarize_report`. -/
def numSkipped [Zero τ] [DecidableEq τ] (cfg : Config n τ) (r : TestReport Id) : ℤ :=
  let numFailed := r.numFailed + r.numInterrupted
  let numRun := r.numSucceeded + r.numErrored + numFailed
  if timeRepeats cfg.options then 0 else (cfg.numTests + r.numDynamic : ℤ) - numRun

/-- The report of the suite while its jobs run, or after. -/
def State.report (s : State n τ Id) : TestReport Id := combine (List.ofFn s.reports)

/-- `_num_jobs_to_start`. -/
def numJobsToStart (numJobs numTests : ℕ) : ℕ := if numTests < numJobs then numTests else numJobs

/-! ## What a call adds -/

/-- `r'` has the entries of `r` and then those of the tests `ks`. -/
def Adds (r r' : TestReport Id) (ks : List (Id × Bool)) : Prop :=
  keys r' = keys r ++ ks ∧ r'.numDynamic = r.numDynamic + ks.countP (·.2)

theorem Adds.refl (r : TestReport Id) : Adds r r [] := ⟨(List.append_nil _).symm, rfl⟩

theorem Adds.trans {r q r' : TestReport Id} {ks ks' : List (Id × Bool)} (h : Adds r q ks)
    (h' : Adds q r' ks') : Adds r r' (ks ++ ks') := by
  refine ⟨?_, ?_⟩
  · rw [h'.1, h.1, List.append_assoc]
  · rw [h'.2, h.2, List.countP_append, Nat.add_assoc]

section Calls

variable [DecidableEq Id] {rfs : String} {r r' : TestReport Id}

/-- Changing an entry in place keeps the tests of the report. -/
theorem map_updateTestInfo {id : Id} {f : TestInfo Id → TestInfo Id}
    {infos infos' : List (TestInfo Id)} (h : updateTestInfo id f infos = some infos')
    (hid : ∀ t, (f t).testId = t.testId) (hd : ∀ t, (f t).dynamic = t.dynamic) :
    infos'.map (fun t => (t.testId, t.dynamic)) = infos.map fun t => (t.testId, t.dynamic) := by
  obtain ⟨before, t, after, rfl, rfl, -⟩ := updateTestInfo_split h
  simp only [List.map_append, List.map_cons, hid, hd]

theorem adds_setOutcome {id : Id} {status : Status} {e : TestInfo Id → String} {code : Option ℤ}
    (h : r.setOutcome id status e code = some r') : Adds r r' [] := by
  obtain ⟨infos, hu, rfl⟩ := Option.map_eq_some_iff.mp h
  refine ⟨?_, rfl⟩
  rw [List.append_nil]
  exact map_updateTestInfo hu (fun _ => rfl) fun _ => rfl

theorem adds_changeOutcome {id : Id} {status : Status} {e : TestInfo Id → String}
    {code : Option ℤ} (h : r.changeOutcome id status e code = some r') : Adds r r' [] := by
  unfold TestReport.changeOutcome at h
  split_ifs at h
  exact adds_setOutcome h

/-- **Only `startTest` adds an entry.** -/
theorem adds_call {a : Report.Act Id} (h : call rfs r a = some r') : Adds r r' (started a) := by
  obtain ⟨q, hq, rfl⟩ := Option.map_eq_some_iff.mp h
  have hrec : Adds q (if a.pc = .idle then q else recompute q) [] := by
    split_ifs
    · exact .refl q
    · exact .refl q
  rw [← List.append_nil (started a)]
  refine Adds.trans ?_ hrec
  cases a with
  | startTest test =>
    cases hq
    refine ⟨by simp [keys, TestReport.startTest, started], ?_⟩
    cases hd : test.dynamic <;> simp [TestReport.startTest, started, hd]
  | stopTest test =>
    obtain ⟨infos, hu, rfl⟩ := Option.map_eq_some_iff.mp hq
    have hmap := map_updateTestInfo hu (fun _ => rfl) fun _ => rfl
    exact ⟨hmap.trans (List.append_nil _).symm, rfl⟩
  | addError test => exact adds_setOutcome (r := { r with numErrored := r.numErrored + 1 }) hq
  | addFailure test => exact adds_setOutcome (r := { r with numFailed := r.numFailed + 1 }) hq
  | addSuccess test =>
    exact adds_setOutcome (r := { r with numSucceeded := r.numSucceeded + 1 }) hq
  | setError test => exact adds_changeOutcome hq
  | setFailure test code => exact adds_changeOutcome hq
  | next => cases hq

theorem adds_calls {as : List (Report.Act Id)} (h : calls rfs r as = some r') :
    Adds r r' (as.flatMap started) := by
  induction as generalizing r with
  | nil =>
    cases h
    exact .refl _
  | cons a as ih =>
    obtain ⟨q, hq, hrest⟩ := Option.bind_eq_some_iff.mp h
    exact (adds_call hq).trans (ih hrest)

omit [DecidableEq Id] in
theorem started_failTest (x : Execution Id) (code : ℤ) :
    (failTest x code).flatMap started = [(x.test, false)] := rfl

omit [DecidableEq Id] in
theorem started_callTest (x : Execution Id) :
    (callTest x).flatMap started = [(x.test, false)] := by
  unfold callTest
  split_ifs
  · rfl
  · have hadd : ∀ c, started (addResult x c) = [] := by
      rintro ⟨_ | _ | _, code⟩ <;> rfl
    have hresults : (x.results.map (addResult x)).flatMap started = [] := by
      simp [List.flatMap_map, hadd]
    rw [List.flatMap_cons, List.flatMap_append, hresults]
    rfl

omit [DecidableEq Id] in
theorem started_hooksAfter (x : Execution Id) : (hooksAfter x).flatMap started = [] := by
  unfold hooksAfter
  split <;> rfl

/-- The entries that an execution makes. -/
def recorded (failFast : Bool) (x : Execution Id) : List Id :=
  if x.configureRaises then []
  else match x.before with
    | .stopExecution => []
    | .testFailure => if failFast then [x.test] else [x.test, x.test]
    | .ok | .serverFailure | .other => [x.test]

variable {failFast checked p : Bool} {x : Execution Id}

theorem adds_runTest (h : runTest rfs failFast checked r x = some (r', p)) :
    Adds r r' [(x.test, false)] := by
  obtain ⟨q, hq, hrest⟩ := Option.bind_eq_some_iff.mp h
  have hcall := adds_calls hq
  rw [started_callTest] at hcall
  rw [← List.append_nil [(x.test, false)]]
  refine hcall.trans ?_
  dsimp only at hrest
  split_ifs at hrest
  · cases hrest
    exact .refl _
  · obtain ⟨q', hq', heq⟩ := Option.map_eq_some_iff.mp hrest
    cases heq
    exact adds_calls hq'
  · obtain ⟨q', hq', heq⟩ := Option.map_eq_some_iff.mp hrest
    cases heq
    have hafter := adds_calls hq'
    rwa [started_hooksAfter] at hafter

/-- **The entries of an execution**, by the exception of the hooks. -/
theorem adds_executeTest (h : executeTest rfs failFast checked r x = some (r', p)) :
    Adds r r' ((recorded failFast x).map (·, false)) := by
  unfold executeTest at h
  unfold recorded
  by_cases hc : x.configureRaises = true
  · rw [if_pos hc] at h
    cases h
    rw [if_pos hc]
    exact .refl _
  · rw [if_neg hc] at h ⊢
    cases hb : x.before with
    | ok =>
      rw [hb] at h
      exact adds_runTest h
    | stopExecution =>
      rw [hb] at h
      cases h
      exact .refl _
    | serverFailure | other =>
      rw [hb] at h
      obtain ⟨q, hq, heq⟩ := Option.map_eq_some_iff.mp h
      cases heq
      exact adds_calls hq
    | testFailure =>
      rw [hb] at h
      obtain ⟨q, hq, hrest⟩ := Option.bind_eq_some_iff.mp h
      have hfail := adds_calls hq
      rw [started_failTest] at hfail
      cases failFast with
      | true =>
        cases hrest
        exact hfail
      | false =>
        exact hfail.trans (adds_runTest hrest)

end Calls

/-! ## No call of an execution raises -/

section Found

variable [DecidableEq Id] {r : TestReport Id} {x : Execution Id} (rfs : String)

/-- `find_test_info` finds an entry. -/
def Found (r : TestReport Id) (id : Id) : Prop := ∃ t, findTestInfo id r.testInfos = some t

/-- `find_test_info` finds an entry, and its test has been stopped. -/
def Stopped (r : TestReport Id) (id : Id) : Prop :=
  ∃ t, findTestInfo id r.testInfos = some t ∧ t.ended = true

/-- The entry that is found is changed, and found again. -/
theorem updateTestInfo_of_found {id : Id} {f : TestInfo Id → TestInfo Id}
    {infos : List (TestInfo Id)} {t : TestInfo Id} (h : findTestInfo id infos = some t)
    (hid : ∀ t, (f t).testId = t.testId) :
    ∃ infos', updateTestInfo id f infos = some infos' ∧ findTestInfo id infos' = some (f t) := by
  cases hu : updateTestInfo id f infos with
  | none =>
    rw [findTestInfo] at h
    have hmem : t ∈ infos := List.mem_reverse.mp (List.mem_of_find?_eq_some h)
    have hfound := List.find?_some h
    exact absurd (of_decide_eq_true hfound) (ne_of_updateTestInfo_eq_none hu t hmem)
  | some infos' =>
    refine ⟨infos', rfl, ?_⟩
    obtain ⟨before, u, after, rfl, rfl, hu, hafter⟩ := updateTestInfo_split hu
    rw [findTestInfo_split before hu hafter] at h
    cases h
    exact findTestInfo_split before ((hid t).trans hu) hafter

theorem Found.setOutcome {id : Id} (h : Found r id) (status : Status) (e : TestInfo Id → String)
    (code : Option ℤ) : ∃ r', r.setOutcome id status e code = some r' ∧ Found r' id := by
  obtain ⟨t, ht⟩ := h
  obtain ⟨infos, hu, hf⟩ := updateTestInfo_of_found ht (f := fun t => { t with
    status := some status
    evergreenStatus := some (e t)
    returnCode := code }) fun _ => rfl
  exact ⟨_, Option.map_eq_some_iff.mpr ⟨infos, hu, rfl⟩, _, hf⟩

theorem found_startTest (r : TestReport Id) (test : Test Id) : Found (r.startTest test) test.id :=
  ⟨⟨test.id, test.dynamic, false, none, none, none⟩, by simp [findTestInfo, TestReport.startTest]⟩

theorem Found.addResult (h : Found r x.test) (c : TestResult × Option ℤ) :
    ∃ r', call rfs r (addResult x c) = some r' ∧ Found r' x.test := by
  obtain ⟨_ | _ | _, code⟩ := c
  · obtain ⟨r', hr, hf⟩ := Found.setOutcome (r := { r with numSucceeded := r.numSucceeded + 1 }) h
      .pass (fun _ => "pass") code
    exact ⟨r', Option.map_eq_some_iff.mpr ⟨r', hr, rfl⟩, hf⟩
  · obtain ⟨r', hr, hf⟩ := Found.setOutcome (r := { r with numFailed := r.numFailed + 1 }) h
      .fail (failureStatus rfs) code
    exact ⟨r', Option.map_eq_some_iff.mpr ⟨r', hr, rfl⟩, hf⟩
  · obtain ⟨r', hr, hf⟩ := Found.setOutcome (r := { r with numErrored := r.numErrored + 1 }) h
      .error (fun _ => "fail") code
    exact ⟨r', Option.map_eq_some_iff.mpr ⟨r', hr, rfl⟩, hf⟩

theorem Found.stopTest (h : Found r x.test) (code : Option ℤ) :
    ∃ r', call rfs r (.stopTest (x.testCase code)) = some r' ∧ Stopped r' x.test := by
  obtain ⟨t, ht⟩ := h
  obtain ⟨infos, hu, hf⟩ := updateTestInfo_of_found ht (f := fun t => { t with ended := true })
    fun _ => rfl
  exact ⟨{ r with testInfos := infos }, Option.map_eq_some_iff.mpr
    ⟨_, Option.map_eq_some_iff.mpr ⟨infos, hu, rfl⟩, rfl⟩, _, hf, rfl⟩

/-- A test that is started, given some outcomes and stopped. -/
theorem calls_of_test (cs : List (TestResult × Option ℤ)) (code : Option ℤ) :
    ∃ r', calls rfs r (.startTest (x.testCase none) ::
      (cs.map (JobReport.addResult x) ++ [.stopTest (x.testCase code)])) = some r' ∧
        Stopped r' x.test := by
  have hresults : ∀ q, Found q x.test →
      ∃ r', calls rfs q (cs.map (JobReport.addResult x) ++ [.stopTest (x.testCase code)]) = some r' ∧
        Stopped r' x.test := by
    induction cs with
    | nil =>
      intro q hq
      obtain ⟨r', hr, hs⟩ := hq.stopTest rfs code
      exact ⟨r', Option.bind_eq_some_iff.mpr ⟨r', hr, rfl⟩, hs⟩
    | cons c cs ih =>
      intro q hq
      obtain ⟨q', hq', hf⟩ := hq.addResult rfs c
      obtain ⟨r', hr, hs⟩ := ih q' hf
      exact ⟨r', Option.bind_eq_some_iff.mpr ⟨q', hq', hr⟩, hs⟩
  exact hresults _ (found_startTest r (x.testCase none))

theorem Stopped.changeOutcome {id : Id} (h : Stopped r id) (status : Status)
    (e : TestInfo Id → String) (code : Option ℤ) :
    ∃ r', r.changeOutcome id status e code = some r' := by
  obtain ⟨t, ht, he⟩ := h
  obtain ⟨r', hr, -⟩ := Found.setOutcome ⟨t, ht⟩ status e code
  refine ⟨r', ?_⟩
  rw [TestReport.changeOutcome, ht, Option.any_some, if_pos he, hr]

theorem Stopped.setFailure (h : Stopped r x.test) (code : ℤ) :
    ∃ r', calls rfs r [.setFailure (x.testCase none) code] = some r' := by
  obtain ⟨r', hr⟩ := h.changeOutcome .fail (failureStatus rfs) (some code)
  exact ⟨recompute r', Option.bind_eq_some_iff.mpr
    ⟨_, Option.map_eq_some_iff.mpr ⟨r', hr, rfl⟩, rfl⟩⟩

theorem Stopped.hooksAfter (h : Stopped r x.test) :
    ∃ r', calls rfs r (hooksAfter x) = some r' := by
  unfold JobReport.hooksAfter
  cases x.after with
  | ok | stopExecution => exact ⟨r, rfl⟩
  | serverFailure => exact h.setFailure rfs 2
  | testFailure => exact h.setFailure rfs 1
  | other =>
    obtain ⟨r', hr⟩ := h.changeOutcome .error (fun _ => "fail") (some 2)
    exact ⟨recompute r', Option.bind_eq_some_iff.mpr
      ⟨_, Option.map_eq_some_iff.mpr ⟨r', hr, rfl⟩, rfl⟩⟩

theorem runTest_isSome (failFast checked : Bool) (r : TestReport Id)
    (x : Execution Id) : (runTest rfs failFast checked r x).isSome := by
  unfold runTest callTest
  cases hraises : x.testRaises with
  | true => rfl
  | false =>
    obtain ⟨q, hq, hs⟩ := calls_of_test rfs (r := r) (x := x) x.results none
    rw [if_neg Bool.false_ne_true, hq, Option.bind_some]
    dsimp only
    split_ifs
    · rfl
    · obtain ⟨r', hr⟩ := hs.setFailure rfs 2
      rw [hr]
      rfl
    · obtain ⟨r', hr⟩ := hs.hooksAfter rfs
      rw [hr]
      rfl

/-- **No call that `_execute_test` makes on the report raises.** -/
theorem executeTest_isSome (failFast checked : Bool) (r : TestReport Id)
    (x : Execution Id) : (executeTest rfs failFast checked r x).isSome := by
  have hfail : ∀ (c : TestResult × Option ℤ) (code : Option ℤ), ∃ r', calls rfs r
      [.startTest (x.testCase none), addResult x c, .stopTest (x.testCase code)] = some r' := by
    intro c code
    obtain ⟨r', hr, -⟩ := calls_of_test rfs (r := r) (x := x) [c] code
    exact ⟨r', hr⟩
  unfold executeTest
  by_cases hc : x.configureRaises = true
  · rw [if_pos hc]
    rfl
  · rw [if_neg hc]
    cases x.before with
    | ok => exact runTest_isSome rfs failFast checked r x
    | stopExecution => rfl
    | serverFailure =>
      obtain ⟨r', hr⟩ := hfail (.failure, some 2) (some 2)
      exact Option.isSome_map.trans (Option.isSome_iff_exists.mpr ⟨r', hr⟩)
    | other =>
      obtain ⟨r', hr⟩ := hfail (.error, none) none
      exact Option.isSome_map.trans (Option.isSome_iff_exists.mpr ⟨r', hr⟩)
    | testFailure =>
      obtain ⟨r', hr⟩ := hfail (.failure, some 1) (some 1)
      have hcalls : calls rfs r (failTest x 1) = some r' := hr
      dsimp only
      rw [hcalls, Option.bind_some]
      split_ifs
      · rfl
      · exact runTest_isSome rfs failFast checked r' x

end Found

/-! ## Entries of a job -/

section Tracked

variable {failFast : Bool} {r r' : TestReport Id} {xs : List (Execution Id)} {x : Execution Id}

/-- The report of a job that has executed `xs`. -/
structure Tracked (failFast : Bool) (r : TestReport Id) (xs : List (Execution Id)) : Prop where
  entries : entries r = xs.flatMap (recorded failFast)
  dynamic : r.numDynamic = (keys r).countP (·.2)
  distinct : (xs.map (·.test)).Nodup

theorem Adds.entries {ks : List (Id × Bool)} (h : Adds r r' ks) :
    JobReport.entries r' = JobReport.entries r ++ (ks.filter (!·.2)).map (·.1) := by
  unfold JobReport.entries
  rw [h.1, List.filter_append, List.map_append]

theorem Adds.dynamic {ks : List (Id × Bool)} (h : Adds r r' ks)
    (hr : r.numDynamic = (keys r).countP (·.2)) : r'.numDynamic = (keys r').countP (·.2) := by
  rw [h.2, h.1, List.countP_append, hr]

/-- An execution adds its entries. -/
theorem Tracked.execute (h : Tracked failFast r xs)
    (ha : Adds r r' ((recorded failFast x).map (·, false))) (hx : ∀ y ∈ xs, y.test ≠ x.test) :
    Tracked failFast r' (xs ++ [x]) where
  entries := by
    rw [ha.entries, h.entries, List.flatMap_append]
    simp [List.filter_map, Function.comp_def]
  dynamic := ha.dynamic h.dynamic
  distinct := by
    rw [List.map_append, List.nodup_append]
    refine ⟨h.distinct, List.nodup_singleton _, ?_⟩
    intro a ha b hb
    obtain ⟨y, hy, rfl⟩ := List.mem_map.mp ha
    rw [List.map_singleton, List.mem_singleton] at hb
    rw [hb]
    exact hx y hy

/-- A dynamic test adds no entry that counts. -/
theorem Tracked.report (h : Tracked failFast r xs) {ks : List (Id × Bool)} (ha : Adds r r' ks)
    (hks : ks.all (·.2) = true) : Tracked failFast r' xs where
  entries := by
    have hnil : ks.filter (!·.2) = [] := by
      rw [List.filter_eq_nil_iff]
      intro k hk
      rw [List.all_eq_true] at hks
      simp [hks k hk]
    rw [ha.entries, hnil, List.map_nil, List.append_nil, h.entries]
  dynamic := ha.dynamic h.dynamic
  distinct := h.distinct

theorem eq_of_mem_recorded {a : Id} (h : a ∈ recorded failFast x) : a = x.test := by
  unfold recorded at h
  split_ifs at h
  all_goals
    cases hb : x.before <;> simp_all

theorem recorded_of_stopped (h : x.configureRaises = true ∨ x.before = .stopExecution) :
    recorded failFast x = [] := by
  unfold recorded
  obtain hc | hb := h
  · rw [if_pos hc]
  · rw [hb]
    split_ifs <;> rfl

theorem length_recorded (hc : x.configureRaises = false) (hs : x.before ≠ .stopExecution)
    (hf : x.before = .testFailure → failFast = true) : (recorded failFast x).length = 1 := by
  unfold recorded
  rw [hc, if_neg Bool.false_ne_true]
  cases hb : x.before with
  | ok | serverFailure | other => rfl
  | stopExecution => exact absurd hb hs
  | testFailure =>
    rw [hf hb]
    rfl

theorem length_flatMap_recorded (h : ∀ x ∈ xs, x.before = .testFailure → failFast = true) :
    (xs.flatMap (recorded failFast)).length ≤ xs.length := by
  induction xs with
  | nil => exact le_rfl
  | cons x xs ih =>
    obtain ⟨hx, hxs⟩ := List.forall_mem_cons.mp h
    have hle : (recorded failFast x).length ≤ 1 := by
      by_cases hs : x.configureRaises = true ∨ x.before = .stopExecution
      · rw [recorded_of_stopped hs]
        exact Nat.zero_le _
      · rw [not_or, Bool.not_eq_true] at hs
        rw [length_recorded hs.1 hs.2 hx]
    have := ih hxs
    rw [List.flatMap_cons, List.length_append, List.length_cons]
    omega

variable [DecidableEq Id]

/-- Among executions of distinct tests, a test has the entries of its own execution. -/
theorem count_recorded (hd : (xs.map (·.test)).Nodup) (hx : x ∈ xs) :
    (xs.flatMap (recorded failFast)).count x.test = (recorded failFast x).length := by
  have hself : ∀ y : Execution Id, (recorded failFast y).count y.test =
      (recorded failFast y).length := by
    intro y
    rw [List.count_eq_length]
    intro a ha
    exact (eq_of_mem_recorded ha).symm
  have hother : ∀ y z : Execution Id, y.test ≠ z.test → (recorded failFast y).count z.test = 0 := by
    intro y z hyz
    rw [List.count_eq_zero]
    intro ha
    exact hyz (eq_of_mem_recorded ha).symm
  induction xs with
  | nil => cases hx
  | cons y ys ih =>
    rw [List.map_cons, List.nodup_cons] at hd
    rw [List.flatMap_cons, List.count_append]
    have hys : ∀ z ∈ ys, z.test ≠ y.test := by
      intro z hz he
      exact hd.1 (List.mem_map.mpr ⟨z, hz, he⟩)
    obtain rfl | hx := List.mem_cons.mp hx
    · have hzero : (ys.flatMap (recorded failFast)).count x.test = 0 := by
        rw [List.count_eq_zero]
        intro ha
        obtain ⟨z, hz, ha⟩ := List.mem_flatMap.mp ha
        exact hys z hz (eq_of_mem_recorded ha).symm
      rw [hself, hzero, Nat.add_zero]
    · rw [hother y x (hys x hx).symm, Nat.zero_add]
      exact ih hd.2 hx

end Tracked

/-! ## Skipped tests -/

section Skipped

/-- In a combined report every test has an outcome. -/
theorem numRun_of_status {infos : List (TestInfo Id)} (h : ∀ t ∈ infos, t.status ≠ none) :
    infos.countP (fun t => t.status = some .pass) + infos.countP (fun t => t.status = some .error) +
      (infos.countP (fun t => t.status = some .fail) +
        infos.countP (fun t => t.status = some .timeout)) = infos.length := by
  induction infos with
  | nil => rfl
  | cons t ts ih =>
    obtain ⟨ht, hts⟩ := List.forall_mem_cons.mp h
    have := ih hts
    simp only [List.countP_cons, List.length_cons]
    cases hs : t.status with
    | none => exact absurd hs ht
    | some status => cases status <;> simp <;> omega

theorem status_combined (t : TestInfo Id) : (TestInfo.combined t).status ≠ none := by
  unfold TestInfo.combined
  split_ifs with h
  · exact Option.some_ne_none _
  · intro hn
    dsimp only at hn
    simp [hn] at h

/-- The entries of a report are dynamic or count as tests of the suite. -/
theorem length_keys (r : TestReport Id) :
    (keys r).length = (keys r).countP (·.2) + (entries r).length := by
  unfold entries
  rw [List.length_map, ← List.countP_eq_length_filter, List.length_eq_countP_add_countP (·.2)]
  simp

/-- What a combined report counts: its dynamic tests, and one run for every entry. -/
theorem numRun_combine (reports : List (TestReport Id)) :
    (combine reports).numSucceeded + (combine reports).numErrored +
        ((combine reports).numFailed + (combine reports).numInterrupted) =
      (reports.map fun r => (keys r).length).sum := by
  have hstatus : ∀ t ∈ reports.flatMap (fun r => r.testInfos.map TestInfo.combined),
      t.status ≠ none := by
    intro t ht
    obtain ⟨r, -, ht⟩ := List.mem_flatMap.mp ht
    obtain ⟨u, -, rfl⟩ := List.mem_map.mp ht
    exact status_combined u
  refine (numRun_of_status hstatus).trans ?_
  simp [List.length_flatMap, keys]

variable [Zero τ] [DecidableEq τ] {cfg : Config n τ} {s : State n τ Id}

/-- **The skipped tests are those of the suite that have no entry.** -/
theorem numSkipped_report (ht : timeRepeats cfg.options = false)
    (hd : ∀ i, (s.reports i).numDynamic = (keys (s.reports i)).countP (·.2)) :
    numSkipped cfg s.report = (cfg.numTests : ℤ) - ∑ i, (entries (s.reports i)).length := by
  have hrun := numRun_combine (List.ofFn s.reports)
  have hdyn : s.report.numDynamic = ∑ i, (keys (s.reports i)).countP (·.2) := by
    show ((List.ofFn s.reports).map (·.numDynamic)).sum = _
    rw [List.map_ofFn, List.sum_ofFn]
    exact Finset.sum_congr rfl fun i _ => hd i
  rw [List.map_ofFn, List.sum_ofFn] at hrun
  simp only [Function.comp_apply, length_keys, Finset.sum_add_distrib] at hrun
  rw [numSkipped, ht, if_neg Bool.false_ne_true, hdyn]
  unfold State.report
  omega

end Skipped

/-! ## Executions -/

/-- A thread with an element that is not repeated. -/
def Unrepeated : Job.Pc τ → Prop
  | .execute e | .taskDone e _ | .requeue e => e.repeats = none
  | .requeueIsSet _ | .put _ => False
  | _ => True

/-- A thread that has popped an element and not executed it. -/
def waits : Job.Pc τ → ℕ
  | .execute _ => 1
  | _ => 0

def executes : Job.Outcome τ → ℕ
  | .executed _ => 1
  | _ => 0

section Once

variable [Add τ] [LE τ] [DecidableLE τ] {cfg : Job.Config n τ} {i : Fin n} {g g' : Job.Shared τ}
  {k k' : ℕ} {pc pc' : Job.Pc τ} {o : Job.Outcome τ}

/-- Without repetition an element is executed once: it is not put back. -/
theorem once_of_jobStep (h : Job.JobStep cfg i g k pc o g' pc' k')
    (hq : ∀ e ∈ g.queue.items, e.repeats = none) (hp : Unrepeated pc) :
    (∀ e ∈ g'.queue.items, e.repeats = none) ∧ Unrepeated pc' ∧
      g'.queue.items.length + waits pc' + executes o ≤ g.queue.items.length + waits pc := by
  have hnot : ∀ e : QueueElem τ, e.repeats = none → e.shouldRequeue = false := by
    intro e he
    rw [QueueElem.shouldRequeue, he]
  cases h with
  | drainPop he =>
    obtain ⟨hi, -⟩ := Queue.getNowait_eq_some.mp he
    rw [hi] at hq ⊢
    refine ⟨(List.forall_mem_cons.mp hq).2, trivial, ?_⟩
    simp [waits, executes]
  | pop he =>
    obtain ⟨hi, -⟩ := Queue.getNowait_eq_some.mp he
    rw [hi] at hq ⊢
    obtain ⟨h1, h2⟩ := List.forall_mem_cons.mp hq
    refine ⟨h2, h1, ?_⟩
    simp [waits, executes]
  | drainDone he | doneRaised he =>
    obtain ⟨hi, -⟩ := Queue.taskDone_eq_some.mp he
    dsimp only
    rw [hi]
    exact ⟨hq, trivial, le_rfl⟩
  | done he =>
    obtain ⟨hi, -⟩ := Queue.taskDone_eq_some.mp he
    dsimp only
    rw [hi]
    refine ⟨hq, ?_, le_rfl⟩
    show Option.map _ _ = none
    rw [show QueueElem.repeats _ = none from hp, Option.map_none]
  | ran => exact ⟨hq, hp, le_rfl⟩
  | again he => exact absurd he (by simp [hnot _ hp])
  | againFails he => exact absurd he (by simp [hnot _ hp])
  | dropped | mayPut | putBack => exact hp.elim
  | _ => exact ⟨hq, trivial, le_rfl⟩

/-- The tests of a suite that does not repeat them by time. -/
structure Bounded (N : ℕ) (s : State n τ Id) : Prop where
  queue : ∀ e ∈ s.job.shared.queue.items, e.repeats = none
  pc : ∀ i, Unrepeated (s.job.jobs i).pc
  count : s.job.shared.queue.items.length + ∑ i, waits (s.job.jobs i).pc +
    ∑ i, (s.executed i).length ≤ N

/-- What a step of a thread leaves to be executed. -/
theorem Bounded.jobStep {N : ℕ} {s : State n τ Id} {job : Job.State n τ} (h : Bounded N s)
    (hs : Job.step cfg s.job (.job i o) = some job) :
    (∀ e ∈ job.shared.queue.items, e.repeats = none) ∧ (∀ j, Unrepeated (job.jobs j).pc) ∧
      job.shared.queue.items.length + ∑ j, waits (job.jobs j).pc + executes o ≤
        s.job.shared.queue.items.length + ∑ j, waits (s.job.jobs j).pc := by
  obtain ⟨i', o', g', j', ha, rfl, hj⟩ | ⟨ha, -⟩ := Job.step_cases hs
  · cases ha
    obtain ⟨hq, hp, hc⟩ := once_of_jobStep hj h.queue (h.pc i)
    refine ⟨hq, fun t => ?_, ?_⟩
    · dsimp only
      by_cases hti : t = i
      · rw [hti, Function.update_self]
        exact hp
      · rw [Function.update_of_ne hti]
        exact h.pc t
    · have hsum := sum_threads_update s.job.jobs (fun j => waits j.pc) i j'
      dsimp only
      omega
  · cases ha

end Once

section Runs

variable [Add τ] [LE τ] [DecidableLE τ] [DecidableEq Id] {cfg : Config n τ} {s s' : State n τ Id}
  {a : Act n τ Id}

theorem Bounded.step {N : ℕ} (h : Bounded N s) (hs : step cfg s a = some s') : Bounded N s' := by
  cases a with
  | job a =>
    rw [JobReport.step] at hs
    split_ifs at hs
    obtain ⟨job, hj, rfl⟩ := Option.map_eq_some_iff.mp hs
    cases a with
    | job i o =>
      obtain ⟨hq, hp, hc⟩ := h.jobStep hj
      have hcount := h.count
      refine ⟨hq, hp, ?_⟩
      dsimp only
      omega
    | userInterrupt =>
      cases hj
      exact ⟨h.queue, h.pc, h.count⟩
  | execute i x =>
    obtain ⟨⟨r, p⟩, -, hrest⟩ := Option.bind_eq_some_iff.mp hs
    obtain ⟨job, hj, rfl⟩ := Option.map_eq_some_iff.mp hrest
    obtain ⟨hq, hp, hc⟩ := h.jobStep hj
    have hcount := h.count
    have hsum := sum_threads_update s.executed List.length i (s.executed i ++ [x])
    rw [List.length_append, List.length_singleton] at hsum
    simp only [executes] at hc
    refine ⟨hq, hp, ?_⟩
    dsimp only
    omega
  | report i a =>
    rw [JobReport.step] at hs
    split_ifs at hs
    obtain ⟨r, -, rfl⟩ := Option.map_eq_some_iff.mp hs
    exact ⟨h.queue, h.pc, h.count⟩

/-- Every report tells what its job has executed. -/
def AllTracked (cfg : Config n τ) (s : State n τ Id) : Prop :=
  ∀ i, Tracked cfg.options.failFast (s.reports i) (s.executed i)

theorem AllTracked.step (h : AllTracked cfg s) (hok : Fresh s a) (hs : step cfg s a = some s') :
    AllTracked cfg s' := by
  cases a with
  | job a =>
    rw [JobReport.step] at hs
    split_ifs at hs
    obtain ⟨job, -, rfl⟩ := Option.map_eq_some_iff.mp hs
    exact h
  | execute i x =>
    obtain ⟨⟨r, p⟩, hr, hrest⟩ := Option.bind_eq_some_iff.mp hs
    obtain ⟨job, -, rfl⟩ := Option.map_eq_some_iff.mp hrest
    intro t
    dsimp only
    by_cases hti : t = i
    · rw [hti, Function.update_self, Function.update_self]
      exact (h i).execute (adds_executeTest hr) (hok i)
    · rw [Function.update_of_ne hti, Function.update_of_ne hti]
      exact h t
  | report i a =>
    rw [JobReport.step] at hs
    split_ifs at hs with ha
    obtain ⟨r, hr, rfl⟩ := Option.map_eq_some_iff.mp hs
    intro t
    dsimp only
    by_cases hti : t = i
    · rw [hti, Function.update_self]
      exact (h i).report (adds_call hr) ha
    · rw [Function.update_of_ne hti]
      exact h t

variable [Zero τ] [DecidableEq τ]

omit [Add τ] [LE τ] [DecidableLE τ] [DecidableEq Id] in
theorem bounded_start (ht : timeRepeats cfg.options = false) :
    Bounded cfg.makeTestQueue.elems.length (start cfg : State n τ Id) where
  queue e he := by
    obtain ⟨k, -, rfl⟩ := List.mem_map.mp he
    unfold timeRepeats at ht
    unfold queueElemFactory
    split
    · rfl
    · rename_i secs hsecs
      rw [hsecs, Option.any_some, decide_eq_false_iff_not, not_not] at ht
      rw [if_pos ht]
  pc _ := trivial
  count := by simp [start, Job.start, Queue.ofList, waits]

omit [Add τ] [LE τ] [DecidableLE τ] [DecidableEq Id] in
theorem allTracked_start (cfg : Config n τ) : AllTracked cfg (start cfg : State n τ Id) :=
  fun _ => ⟨rfl, rfl, List.nodup_nil⟩

theorem allTracked_of_reach (h : Reach (step cfg) Fresh (· = start cfg) s) : AllTracked cfg s := by
  refine h.inv ?_ fun s a s' ht hok hs => ht.step hok hs
  rintro s rfl
  exact allTracked_start cfg

/-- As many tests are executed as the queue held. -/
theorem executed_le_of_reach (ht : timeRepeats cfg.options = false)
    (h : Reach (step cfg) Fresh (· = start cfg) s) :
    ∑ i, (s.executed i).length ≤ cfg.numTimesToRepeatTests * cfg.tests := by
  have hb : Bounded cfg.makeTestQueue.elems.length s := by
    refine h.inv ?_ fun s a s' hb _ hs => hb.step hs
    rintro s rfl
    exact bounded_start ht
  have hlen : cfg.makeTestQueue.elems.length = cfg.numTimesToRepeatTests * cfg.tests := by
    simp [Executor.Config.makeTestQueue, makeTestQueue]
  have hcount := hb.count
  omega

omit [Add τ] [LE τ] [DecidableLE τ] [DecidableEq Id] [Zero τ] [DecidableEq τ] in
/-- There is a job for no more tests than the suite has. -/
theorem sum_le_numTests {numJobs m : ℕ} {f : Fin n → ℕ}
    (hn : n = numJobsToStart numJobs cfg.numTests) (hm : ∑ i, f i ≤ m * cfg.tests)
    (hrep : cfg.numRepeatTests ≠ 0 → m = cfg.numRepeatTests) : ∑ i, f i ≤ cfg.numTests := by
  by_cases h0 : cfg.numRepeatTests = 0
  · have hzero : cfg.numTests = 0 := by rw [Executor.Config.numTests, h0, Nat.mul_zero]
    have : n = 0 := by
      rw [hn, hzero, numJobsToStart]
      split_ifs <;> omega
    subst this
    rw [Finset.univ_eq_empty, Finset.sum_empty]
    exact Nat.zero_le _
  · rw [Executor.Config.numTests, Nat.mul_comm, ← hrep h0]
    exact hm

/-- **An executed test has one entry**, unless its execution was stopped before the test began:
then it has none. A failure that a hook reports and the suite goes on from is left aside. The tests
that the suite counts as skipped are then never fewer than zero. -/
theorem one_entry_per_execution {numJobs : ℕ} (hn : n = numJobsToStart numJobs cfg.numTests)
    (h : Reach (step cfg) Fresh (· = start cfg) s) :
    (∀ i, ∀ x ∈ s.executed i,
      (x.configureRaises = true ∨ x.before = .stopExecution →
        (entries (s.reports i)).count x.test = 0) ∧
      (x.configureRaises = false → x.before ≠ .stopExecution →
        (x.before = .testFailure → cfg.options.failFast = true) →
        (entries (s.reports i)).count x.test = 1)) ∧
    ((∀ i, ∀ x ∈ s.executed i, x.before = .testFailure → cfg.options.failFast = true) →
      0 ≤ numSkipped cfg s.report) := by
  have htr := allTracked_of_reach h
  refine ⟨fun i x hx => ?_, fun hff => ?_⟩
  · rw [(htr i).entries, count_recorded (htr i).distinct hx]
    refine ⟨fun hs => ?_, length_recorded⟩
    rw [recorded_of_stopped hs, List.length_nil]
  · by_cases ht : timeRepeats cfg.options = true
    · rw [numSkipped, if_pos ht]
    · rw [Bool.not_eq_true] at ht
      rw [numSkipped_report ht fun i => (htr i).dynamic]
      have hentries : ∑ i, (entries (s.reports i)).length ≤ ∑ i, (s.executed i).length := by
        refine Finset.sum_le_sum fun i _ => ?_
        rw [(htr i).entries]
        exact length_flatMap_recorded (hff i)
      have htests : ∑ i, (s.executed i).length ≤ cfg.numTests := by
        refine sum_le_numTests hn (executed_le_of_reach ht h) fun h0 => ?_
        rw [Executor.Config.numTimesToRepeatTests, if_neg h0]
      omega

end Runs

/-! ## Two schedules -/

/-- A suite of two tests for one job with one hook, which stops at the first failure. -/
def oneJob : Config 1 ℕ where
  options := ⟨true, none, none, none⟩
  tests := 2
  numRepeatTests := 1
  numRepeatSuites := 1
  numHooks _ := 1
  checkIfFixtureRunning _ := false
  hasSetupFlag := false
  hasTeardownFlag := false
  reportFailureStatus := "fail"

/-- Job `i` begins and pops the first test. -/
def popFirst (i : Fin n) : List (Act n ℕ ℕ) :=
  [.job (.job i .tick), .job (.job i .succeeds), .job (.job i .tick), .job (.job i .tick),
    .job (.job i .tick), .job (.job i .tick)]

/-- A test that passes. -/
def passing (test : ℕ) : Execution ℕ := ⟨test, false, .ok, false, [(.success, some 0)], true, .ok⟩

/-- Job `i` has run a test and pops the next one. -/
def popNext (i : Fin n) : List (Act n ℕ ℕ) :=
  [.job (.job i (.elapsed 1)), .job (.job i .tick), .job (.job i .tick), .job (.job i .tick),
    .job (.job i .tick)]

/-- A test that passes, a test of the hook, and a test that the hook fails. -/
theorem one_entry_of_two :
    ∃ s : State 1 ℕ ℕ, Reach (step oneJob) Fresh (· = start oneJob) s ∧ (s.executed 0).length = 2 ∧
      (∀ x ∈ s.executed 0, (entries (s.reports 0)).count x.test = 1) ∧
      0 ≤ numSkipped oneJob s.report := by
  have hrun : ∃ s : State 1 ℕ ℕ, Reach (step oneJob) Fresh (· = start oneJob) s ∧
      (s.executed 0).length = 2 ∧
      ∀ x ∈ s.executed 0, x.configureRaises = false ∧ x.before ≠ .stopExecution :=
    Reach.exists_of_run (.start rfl)
      (List.flatten [popFirst 0, [.execute 0 (passing 0)], popNext 0,
        [.report 0 (.startTest ⟨7, true, none⟩),
          .execute 0 { passing 1 with before := .testFailure }]]) (by decide)
  obtain ⟨s, h, hlen, hx⟩ := hrun
  have hone := one_entry_per_execution (show 1 = numJobsToStart 1 oneJob.numTests by decide) h
  refine ⟨s, h, hlen, fun x hxs => ?_, hone.2 fun _ _ _ _ => rfl⟩
  exact (hone.1 0 x hxs).2 (hx x hxs).1 (hx x hxs).2 fun _ => rfl

/-- **A test without an entry.** A hook's `before_test` stops the execution: the test was popped and
handed to `_execute_test`, which reports nothing of it. -/
theorem stopped_test_has_no_entry :
    ∃ s : State 1 ℕ ℕ, Reach (step oneJob) Fresh (· = start oneJob) s ∧
      ∃ x ∈ s.executed 0, x.before = .stopExecution ∧
        (entries (s.reports 0)).count x.test = 0 := by
  exact Reach.exists_of_run (.start rfl)
    (List.flatten [popFirst 0, [.execute 0 { passing 0 with before := .stopExecution }]])
    (by decide)

end MongoTests.Resmoke.JobReport
