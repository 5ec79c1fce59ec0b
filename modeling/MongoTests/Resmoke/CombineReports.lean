import MongoTests.Lib.Checked
import MongoTests.Resmoke.Report

/-!
# Combined reports

`combine`, `as_dict` and `from_dict` of `TestReport`, and `combine_reports.py`, which reads report
files and combines them. The threads that fill a report are those of `Resmoke.Report`.

* `TestInfo`, `TestReport`: the entries with their names, times and logs; a status is a text,
  because `from_dict` takes it from a file.
* `combine`, `asDict`, `fromDict`; `reportExit`, `main`.
* `Recorded`: an entry of a run that was copied by any number of calls of `combine`; `TracedReport`:
  a report of such entries, with the option under which each of them ran.
* **`combined_verdict`**: the exit code and the results of the combined files.
-/

namespace MongoTests.Resmoke.CombineReports

open MongoTests.Lib

variable {T : Type}

/-! ## Reports -/

/-- `_TestInfo`. An entry gets its start time before it is added to a report. -/
structure TestInfo (T : Type) where
  testFile : String
  dynamic : Bool
  startTime : T
  endTime : Option T := none
  status : Option String := none
  evergreenStatus : Option String := none
  returnCode : Option ℤ := none
  urlEndpoint : Option String := none
  deriving DecidableEq, Repr

structure TestReport (T : Type) where
  testInfos : List (TestInfo T)
  numDynamic : ℕ
  numSucceeded : ℕ := 0
  numFailed : ℕ := 0
  numErrored : ℕ := 0
  numInterrupted : ℕ := 0
  deriving DecidableEq, Repr

/-- The number of entries with a status, as `get_successful` and its siblings find them. -/
def TestReport.count (r : TestReport T) (status : String) : ℕ :=
  r.testInfos.countP fun t => t.status = some status

/-- Recompute the number of successes, failures and errors. -/
def TestReport.recompute (r : TestReport T) : TestReport T :=
  { r with
    numSucceeded := r.count "pass"
    numFailed := r.count "fail"
    numErrored := r.count "error"
    numInterrupted := r.count "timeout" }

/-- The copy that `combine` makes of an entry. A test without an outcome has timed out. -/
def TestInfo.repair (now : T) (t : TestInfo T) : TestInfo T :=
  let t := if t.status.isNone || t.returnCode.isNone then
    { t with status := some "timeout", evergreenStatus := some "fail", returnCode := some (-2) }
    else t
  if t.endTime.isNone then { t with endTime := some now } else t

/-- `combine`, at the time `now`. -/
def combine (now : T) (reports : List (TestReport T)) : TestReport T :=
  TestReport.recompute {
    testInfos := reports.flatMap fun r => r.testInfos.map (·.repair now)
    numDynamic := (reports.map (·.numDynamic)).sum }

/-! ## Files -/

/-- A result in a report file. `None` is `null`; without a log there are no urls. -/
structure Result (T : Type) where
  testFile : String
  status : Option String
  exitCode : Option ℤ
  start : T
  endTime : T
  elapsed : T
  url : Option String
  urlRaw : Option String
  deriving DecidableEq, Repr

structure ReportDict (T : Type) where
  results : List (Result T)
  failures : ℕ
  deriving DecidableEq, Repr

/-- A test that has not ended has no elapsed time, a `TypeError`. -/
def TestInfo.result [Sub T] (t : TestInfo T) : Option (Result T) :=
  t.endTime.map fun endTime => {
    testFile := t.testFile
    status := t.evergreenStatus
    exitCode := t.returnCode
    start := t.startTime
    endTime
    elapsed := endTime - t.startTime
    url := t.urlEndpoint
    urlRaw := t.urlEndpoint.map (· ++ "?raw=1") }

def TestReport.asDict [Sub T] (r : TestReport T) : Option (ReportDict T) :=
  (r.testInfos.mapM TestInfo.result).map fun results =>
    ⟨results, r.numFailed + r.numErrored + r.numInterrupted⟩

/-- By convention, dynamic tests have a colon in their names. -/
def Result.testInfo (x : Result T) : TestInfo T where
  testFile := x.testFile
  dynamic := x.testFile.toList.contains ':'
  startTime := x.start
  endTime := some x.endTime
  status := x.status
  evergreenStatus := x.status
  returnCode := x.exitCode
  urlEndpoint := x.url

def fromDict (d : ReportDict T) : TestReport T :=
  TestReport.recompute {
    testInfos := d.results.map Result.testInfo
    numDynamic := (d.results.map Result.testInfo).countP (·.dynamic) }

/-! ## `combine_reports.py` -/

def reportExit (r : TestReport T) : ℕ :=
  if r.testInfos.any fun t => t.status ∈ [some "fail", some "timeout"] then 31 else 0

inductive Raised
  /-- `sys.exit` with a message. -/
  | exit (message : String)
  | valueError (message : String)
  | typeError
  deriving DecidableEq, Repr

def checkError (inputCount : ℕ) (outputExists : Bool) : Except Raised Unit :=
  if inputCount = 0 ∧ outputExists = false then
    .error (.valueError "None of the input file(s) or output file exists")
  else if inputCount ≠ 0 ∧ outputExists = true then
    .error (.valueError "Both input file and output files exist")
  else .ok ()

/-- `main`, for the files of the arguments, of which some may be missing: the report that it writes,
if it does, and the exit code. -/
def main [Sub T] (now : T) (exitOption outfileExists : Bool) (files : List (Option (ReportDict T))) :
    Except Raised (Option (ReportDict T) × ℕ) :=
  if files = [] then .error (.exit "No report files were specified")
  else do
    let combined := combine now ((files.filterMap id).map fromDict)
    match combined.asDict with
    | none => .error .typeError
    | some dict => do
      checkError (files.filterMap id).length outfileExists
      pure (if outfileExists then none else some dict,
        if exitOption then reportExit combined else 0)

/-! ## Where entries come from -/

/-- The values of `--reportFailureStatus`. -/
inductive FailureStatus
  | fail
  | silentfail
  deriving DecidableEq, Repr

def FailureStatus.text : FailureStatus → String
  | .fail => "fail"
  | .silentfail => "silentfail"

def statusText : Report.Status → String
  | .pass => "pass"
  | .fail => "fail"
  | .error => "error"
  | .timeout => "timeout"

/-- The entry is `e`, with a name, times and a log. -/
structure TestInfo.Records {Id : Type} (t : TestInfo T) (e : Report.TestInfo Id) : Prop where
  dynamic : t.dynamic = e.dynamic
  ended : t.endTime.isSome = e.ended
  status : t.status = e.status.map statusText
  evergreenStatus : t.evergreenStatus = e.evergreenStatus
  returnCode : t.returnCode = e.returnCode

/-- An entry of a report that some threads have filled under an option, in any order, or a copy of
such an entry. -/
inductive Recorded (option : FailureStatus) : TestInfo T → Prop
  | run {ι Id : Type} [DecidableEq ι] [DecidableEq Id] {s : Report.State ι Id}
      {e : Report.TestInfo Id} {t : TestInfo T} :
      Reach (Report.step option.text) Free (· = Report.initial) s → e ∈ s.report.testInfos →
      t.Records e → Recorded option t
  | copy {t : TestInfo T} (now : T) : Recorded option t → Recorded option (t.repair now)

/-- A report with the options of its entries. -/
structure TracedReport (T : Type) where
  report : TestReport T
  options : List FailureStatus
  recorded : List.Forall₂ Recorded options report.testInfos

theorem recorded_combine (now : T) (parts : List (TracedReport T)) :
    List.Forall₂ Recorded (parts.flatMap (·.options))
      (combine now (parts.map (·.report))).testInfos := by
  induction parts with
  | nil => exact .nil
  | cons part parts ih =>
    refine List.rel_append ?_ ih
    rw [List.forall₂_map_right_iff]
    exact part.recorded.imp fun _ _ h => h.copy now

/-- `combine`, with the options. -/
def TracedReport.combine (now : T) (parts : List (TracedReport T)) : TracedReport T where
  report := CombineReports.combine now (parts.map (·.report))
  options := parts.flatMap (·.options)
  recorded := recorded_combine now parts

theorem recorded_of_run {ι Id : Type} [DecidableEq ι] [DecidableEq Id] {option : FailureStatus}
    {s : Report.State ι Id} (hs : Reach (Report.step option.text) Free (· = Report.initial) s)
    {infos : List (TestInfo T)} {entries : List (Report.TestInfo Id)}
    (h : List.Forall₂ TestInfo.Records infos entries)
    (hentries : ∀ e ∈ entries, e ∈ s.report.testInfos) :
    List.Forall₂ Recorded (List.replicate infos.length option) infos := by
  induction h with
  | nil => exact .nil
  | cons hrecords _ ih =>
    obtain ⟨hentry, hentries⟩ := List.forall_mem_cons.mp hentries
    exact .cons (.run hs hentry hrecords) (ih hentries)

/-- The report of a job, filled by its threads. -/
def TracedReport.ofRun {ι Id : Type} [DecidableEq ι] [DecidableEq Id] (option : FailureStatus)
    {s : Report.State ι Id} (hs : Reach (Report.step option.text) Free (· = Report.initial) s)
    (report : TestReport T) (h : List.Forall₂ TestInfo.Records report.testInfos s.report.testInfos) :
    TracedReport T where
  report := report
  options := List.replicate report.testInfos.length option
  recorded := recorded_of_run hs h fun _ he => he

/-! ## Outcomes -/

/-- The two statuses of an entry fit together. -/
def Outcome {Id : Type} (option : FailureStatus) (e : Report.TestInfo Id) : Prop :=
  e.status = none ∨ (e.status = some .pass ∧ e.evergreenStatus = some "pass") ∨
  (e.status = some .error ∧ e.evergreenStatus = some "fail") ∨
  (e.status = some .fail ∧ e.evergreenStatus = some (Report.failureStatus option.text e))

section Runs

variable {ι Id : Type} [DecidableEq ι] [DecidableEq Id] {option : FailureStatus}
  {r r' : Report.TestReport Id}

theorem outcome_update {id : Id} {f : Report.TestInfo Id → Report.TestInfo Id}
    {infos infos' : List (Report.TestInfo Id)} (h : ∀ e ∈ infos, Outcome option e)
    (hf : ∀ e, Outcome option e → Outcome option (f e))
    (hr : Report.updateTestInfo id f infos = some infos') : ∀ e ∈ infos', Outcome option e := by
  obtain ⟨before, e, after, rfl, rfl, -⟩ := Report.updateTestInfo_split hr
  simp only [List.forall_mem_append, List.forall_mem_cons] at h ⊢
  exact ⟨h.1, hf e h.2.1, h.2.2⟩

theorem outcome_setOutcome {id : Id} {status : Report.Status} {f : Report.TestInfo Id → String}
    {code : Option ℤ} (h : ∀ e ∈ r.testInfos, Outcome option e)
    (hf : ∀ e : Report.TestInfo Id, Outcome option { e with
      status := some status, evergreenStatus := some (f e), returnCode := code })
    (hr : r.setOutcome id status f code = some r') : ∀ e ∈ r'.testInfos, Outcome option e := by
  obtain ⟨infos, hu, rfl⟩ := Option.map_eq_some_iff.mp hr
  exact outcome_update h (fun e _ => hf e) hu

theorem outcome_changeOutcome {id : Id} {status : Report.Status} {f : Report.TestInfo Id → String}
    {code : Option ℤ} (h : ∀ e ∈ r.testInfos, Outcome option e)
    (hf : ∀ e : Report.TestInfo Id, Outcome option { e with
      status := some status, evergreenStatus := some (f e), returnCode := code })
    (hr : r.changeOutcome id status f code = some r') : ∀ e ∈ r'.testInfos, Outcome option e := by
  unfold Report.TestReport.changeOutcome at hr
  split_ifs at hr
  exact outcome_setOutcome h hf hr

theorem outcome_call {a : Report.Act Id} (h : ∀ e ∈ r.testInfos, Outcome option e)
    (hr : a.call option.text r = some r') : ∀ e ∈ r'.testInfos, Outcome option e := by
  have hpass : ∀ (e : Report.TestInfo Id) code, Outcome option { e with
      status := some .pass, evergreenStatus := some "pass", returnCode := code } :=
    fun e code => .inr (.inl ⟨rfl, rfl⟩)
  have herror : ∀ (e : Report.TestInfo Id) code, Outcome option { e with
      status := some .error, evergreenStatus := some "fail", returnCode := code } :=
    fun e code => .inr (.inr (.inl ⟨rfl, rfl⟩))
  have hfail : ∀ (e : Report.TestInfo Id) code, Outcome option { e with
      status := some .fail, evergreenStatus := some (Report.failureStatus option.text e)
      returnCode := code } :=
    fun e code => .inr (.inr (.inr ⟨rfl, rfl⟩))
  cases a with
  | startTest test =>
    cases hr
    simp only [Report.TestReport.startTest, List.forall_mem_append, List.forall_mem_singleton]
    exact ⟨h, .inl rfl⟩
  | stopTest test =>
    obtain ⟨infos, hu, rfl⟩ := Option.map_eq_some_iff.mp hr
    refine outcome_update h ?_ hu
    exact fun e he => he
  | addError test =>
    exact outcome_setOutcome (r := { r with numErrored := r.numErrored + 1 }) h
      (fun e => herror e _) hr
  | addFailure test =>
    exact outcome_setOutcome (r := { r with numFailed := r.numFailed + 1 }) h
      (fun e => hfail e _) hr
  | addSuccess test =>
    exact outcome_setOutcome (r := { r with numSucceeded := r.numSucceeded + 1 }) h
      (fun e => hpass e _) hr
  | setError test => exact outcome_changeOutcome h (fun e => herror e _) hr
  | setFailure test code => exact outcome_changeOutcome h (fun e => hfail e _) hr
  | next => cases hr

/-- What the calls and the assignments of counters keep holds of the report in every run. -/
theorem report_of_reach {I : Report.TestReport Id → Prop} (hreset : I .reset)
    (hcall : ∀ (a : Report.Act Id) r r', I r → a.call option.text r = some r' → I r')
    (hassign : ∀ n c r, I r → I (r.assign n c)) {s : Report.State ι Id}
    (h : Reach (Report.step option.text) Free (· = Report.initial) s) : I s.report := by
  refine Reach.inv (I := fun s => I s.report) ?_ ?_ h
  · rintro s rfl
    exact hreset
  · rintro s ⟨i, a⟩ s' hs - hstep
    rw [Report.step] at hstep
    split at hstep
    · obtain ⟨r, hr, rfl⟩ := Option.map_eq_some_iff.mp hstep
      exact hcall a _ _ hs hr
    · split at hstep <;> cases hstep
      exact hs
    · split at hstep <;> cases hstep
      exact hassign _ _ _ hs

/-- In every run, the two statuses of all entries fit together. -/
theorem outcome_of_reach {s : Report.State ι Id}
    (h : Reach (Report.step option.text) Free (· = Report.initial) s) :
    ∀ e ∈ s.report.testInfos, Outcome option e := by
  refine report_of_reach (I := fun r => ∀ e ∈ r.testInfos, Outcome option e) ?_ ?_ ?_ h
  · intro e he
    exact absurd he List.not_mem_nil
  · exact fun a r r' hr hcall => outcome_call hr hcall
  · intro n c r hr
    rwa [Report.testInfos_assign]

end Runs

/-- The test errored, was interrupted, is a dynamic test that failed, or failed without being
silenced by the option. -/
def Fails (option : FailureStatus) (t : TestInfo T) : Prop :=
  t.status = some "error" ∨ t.status = some "timeout" ∨
  (t.status = some "fail" ∧ (t.dynamic = true ∨ option = .fail))

/-- What the entries of a report file rely on: an entry with an outcome fails exactly when it is
written as a failure, and nothing is written as a timeout. -/
structure Verdict (option : FailureStatus) (t : TestInfo T) : Prop where
  fails : t.evergreenStatus = some "fail" ↔ Fails option t
  evergreen : t.evergreenStatus.isSome
  noTimeout : t.evergreenStatus ≠ some "timeout"

/-- An entry that has its outcome and its end. -/
def TestInfo.Finished (t : TestInfo T) : Prop :=
  t.status.isSome ∧ t.returnCode.isSome ∧ t.endTime.isSome

theorem finished_repair (now : T) (t : TestInfo T) : (t.repair now).Finished := by
  unfold TestInfo.repair TestInfo.Finished
  dsimp only
  split_ifs with h hend hend <;> simp_all [Option.isSome_iff_ne_none]

/-- There is nothing to repair. -/
theorem TestInfo.Finished.repair_eq {t : TestInfo T} (h : t.Finished) (now : T) :
    t.repair now = t := by
  obtain ⟨hstatus, hcode, hend⟩ := h
  rw [Option.isSome_iff_ne_none] at hstatus hcode hend
  simp [TestInfo.repair, hstatus, hcode, hend]

/-- A copy of an entry keeps its outcome, or the test was interrupted. -/
theorem repair_outcome (now : T) (t : TestInfo T) :
    (t.repair now).dynamic = t.dynamic ∧
    (((t.repair now).status = some "timeout" ∧ (t.repair now).evergreenStatus = some "fail") ∨
      (t.status.isSome ∧ (t.repair now).status = t.status ∧
        (t.repair now).evergreenStatus = t.evergreenStatus)) := by
  unfold TestInfo.repair
  dsimp only
  split_ifs with h hend hend
  · exact ⟨rfl, .inl ⟨rfl, rfl⟩⟩
  · exact ⟨rfl, .inl ⟨rfl, rfl⟩⟩
  · simp only [Bool.or_eq_true, not_or, Bool.not_eq_true, Option.isNone_eq_false_iff] at h
    exact ⟨rfl, .inr ⟨h.1, rfl, rfl⟩⟩
  · simp only [Bool.or_eq_true, not_or, Bool.not_eq_true, Option.isNone_eq_false_iff] at h
    exact ⟨rfl, .inr ⟨h.1, rfl, rfl⟩⟩

/-- **The status in a file is the verdict**, for every entry with an outcome. -/
theorem Recorded.verdict {option : FailureStatus} {t : TestInfo T} (h : Recorded option t)
    (hstatus : t.status.isSome) : Verdict option t := by
  induction h with
  | @run ι Id _ _ s e t hs he hrecords =>
    obtain ⟨hdynamic, -, hst, hev, -⟩ := hrecords
    obtain hnone | ⟨hpass, hgreen⟩ | ⟨herror, hgreen⟩ | ⟨hfail, hgreen⟩ := outcome_of_reach hs e he
    · rw [hst, hnone] at hstatus
      cases hstatus
    · rw [hpass] at hst
      rw [hgreen] at hev
      constructor <;> simp [Fails, hst, hev, statusText]
    · rw [herror] at hst
      rw [hgreen] at hev
      constructor <;> simp [Fails, hst, hev, statusText]
    · rw [hfail] at hst
      rw [hgreen] at hev
      -- A failure is silenced by the option, unless the test is dynamic.
      cases hd : e.dynamic <;> cases option <;>
        constructor <;>
        simp [Fails, hst, hev, statusText, hdynamic, hd, Report.failureStatus, FailureStatus.text]
  | @copy t now _ ih =>
    obtain ⟨hdynamic, ⟨hst, hev⟩ | ⟨hsome, hst, hev⟩⟩ := repair_outcome now t
    · constructor <;> simp [Fails, hst, hev]
    · obtain ⟨hfails, hsome, hno⟩ := ih hsome
      constructor
      · rw [hev, hfails, Fails, Fails, hst, hdynamic]
      · rwa [hev]
      · rwa [hev]

/-! ## Reading what was written -/

section Files

variable [Sub T]

/-- A result is read and written again unchanged. -/
theorem result_testInfo {t : TestInfo T} {x : Result T} (h : t.result = some x) :
    x.testInfo.result = some x := by
  obtain ⟨endTime, -, rfl⟩ := Option.map_eq_some_iff.mp h
  rfl

theorem status_of_result {t : TestInfo T} {x : Result T} (h : t.result = some x) :
    x.status = t.evergreenStatus ∧ x.exitCode = t.returnCode := by
  obtain ⟨endTime, -, rfl⟩ := Option.map_eq_some_iff.mp h
  exact ⟨rfl, rfl⟩

theorem result_isSome {t : TestInfo T} (h : t.Finished) : t.result.isSome := by
  simpa [TestInfo.result] using h.2.2

theorem asDict_isSome {r : TestReport T} (h : ∀ t ∈ r.testInfos, t.Finished) :
    r.asDict.isSome := by
  obtain ⟨results, hresults⟩ := exists_mapM_eq_some fun t ht => result_isSome (h t ht)
  simp [TestReport.asDict, hresults]

theorem asDict_eq_some {r : TestReport T} {d : ReportDict T} (h : r.asDict = some d) :
    r.testInfos.map TestInfo.result = d.results.map some := by
  obtain ⟨results, hresults, rfl⟩ := Option.map_eq_some_iff.mp h
  exact mapM_eq_some.mp hresults

/-- The results of all files are those of all entries. -/
theorem results_of_asDict {reports : List (TestReport T)} {dicts : List (ReportDict T)}
    (h : reports.mapM TestReport.asDict = some dicts) :
    (reports.flatMap (·.testInfos)).map TestInfo.result = (dicts.flatMap (·.results)).map some := by
  rw [mapM_eq_some] at h
  induction reports generalizing dicts with
  | nil =>
    cases dicts with
    | nil => rfl
    | cons d dicts => cases h
  | cons r reports ih =>
    cases dicts with
    | nil => cases h
    | cons d dicts =>
      obtain ⟨hd, h⟩ := List.cons.inj h
      rw [List.flatMap_cons, List.flatMap_cons, List.map_append, List.map_append,
        asDict_eq_some hd, ih h]

theorem mem_results {reports : List (TestReport T)} {dicts : List (ReportDict T)}
    (h : reports.mapM TestReport.asDict = some dicts) {x : Result T} :
    x ∈ dicts.flatMap (·.results) ↔ ∃ t ∈ reports.flatMap (·.testInfos), t.result = some x := by
  rw [← List.mem_map, results_of_asDict h, List.mem_map]
  simp

omit [Sub T] in
theorem testInfos_combine_fromDict (now : T) (dicts : List (ReportDict T)) :
    (combine now (dicts.map fromDict)).testInfos =
      (dicts.flatMap (·.results)).map fun x => x.testInfo.repair now := by
  simp [combine, TestReport.recompute, fromDict, List.flatMap_map, List.map_flatMap,
    Function.comp_def]

theorem main_eq_ok {now : T} {files : List (Option (ReportDict T))} {combined : ReportDict T}
    (hne : files.filterMap id ≠ [])
    (h : (combine now ((files.filterMap id).map fromDict)).asDict = some combined) :
    main now true false files =
      .ok (some combined, reportExit (combine now ((files.filterMap id).map fromDict))) := by
  have hfiles : files ≠ [] := by
    rintro rfl
    exact hne rfl
  have hcheck : checkError (files.filterMap id).length false = .ok () := by
    rw [checkError, if_neg fun h => hne (List.length_eq_zero_iff.mp h.1), if_neg (by simp)]
  rw [main, if_neg hfiles]
  dsimp only
  rw [h, hcheck]
  rfl

end Files

/-! ## The verdict -/

/-- All entries are finished and have the status of their verdict. -/
def TracedReport.Judged (r : TracedReport T) : Prop :=
  ∀ p ∈ r.options.zip r.report.testInfos, p.2.Finished ∧ Verdict p.1 p.2

theorem judged_combine (now : T) (parts : List (TracedReport T)) :
    (TracedReport.combine now parts).Judged := by
  intro p hp
  have hfinished : p.2.Finished := by
    have hmem := (List.of_mem_zip hp).2
    simp only [TracedReport.combine, combine, TestReport.recompute, List.mem_flatMap,
      List.mem_map] at hmem
    obtain ⟨_, _, t, _, ht⟩ := hmem
    rw [← ht]
    exact finished_repair now t
  have hrecorded := List.forall₂_zip (TracedReport.combine now parts).recorded hp
  exact ⟨hfinished, hrecorded.verdict hfinished.1⟩

/-- Each entry has its option. -/
theorem TracedReport.exists_option (r : TracedReport T) {t : TestInfo T}
    (ht : t ∈ r.report.testInfos) : ∃ option, (option, t) ∈ r.options.zip r.report.testInfos := by
  obtain ⟨i, hi, rfl⟩ := List.mem_iff_getElem.mp ht
  have hlen := r.recorded.length_eq
  refine ⟨r.options[i], List.mem_iff_getElem.mpr ⟨i, ?_, List.getElem_zip⟩⟩
  rw [List.length_zip]
  omega

theorem reportExit_eq (r : TestReport T) : reportExit r = 31 ↔
    ∃ t ∈ r.testInfos, t.status = some "fail" ∨ t.status = some "timeout" := by
  unfold reportExit
  split_ifs with h
  · simpa using h
  · simpa using h

section Verdict

variable [Sub T] {reports : List (TracedReport T)} {dicts : List (ReportDict T)}

/-- The entries behind the results. -/
theorem mem_results_iff (h : (reports.map (·.report)).mapM TestReport.asDict = some dicts)
    {x : Result T} : x ∈ dicts.flatMap (·.results) ↔
      ∃ r ∈ reports, ∃ p ∈ r.options.zip r.report.testInfos, p.2.result = some x := by
  rw [mem_results h]
  constructor
  · rintro ⟨t, ht, hx⟩
    obtain ⟨_, hmem, ht⟩ := List.mem_flatMap.mp ht
    obtain ⟨r, hr, rfl⟩ := List.mem_map.mp hmem
    obtain ⟨option, hp⟩ := r.exists_option ht
    exact ⟨r, hr, (option, t), hp, hx⟩
  · rintro ⟨r, hr, p, hp, hx⟩
    exact ⟨p.2, List.mem_flatMap.mpr ⟨r.report, List.mem_map_of_mem hr, (List.of_mem_zip hp).2⟩, hx⟩

/-- Combining again repairs nothing. -/
theorem testInfos_of_judged (hj : ∀ r ∈ reports, r.Judged) (now : T)
    (h : (reports.map (·.report)).mapM TestReport.asDict = some dicts) :
    (combine now (dicts.map fromDict)).testInfos =
      (dicts.flatMap (·.results)).map Result.testInfo := by
  rw [testInfos_combine_fromDict]
  refine List.map_congr_left fun x hx => TestInfo.Finished.repair_eq ?_ now
  obtain ⟨r, hr, p, hp, hx⟩ := (mem_results_iff h).mp hx
  obtain ⟨hstatus, hcode⟩ := status_of_result hx
  obtain ⟨hfinished, hverdict⟩ := hj r hr p hp
  refine ⟨?_, ?_, rfl⟩
  · rw [Result.testInfo, hstatus]
    exact hverdict.evergreen
  · rw [Result.testInfo, hcode]
    exact hfinished.2.1

theorem asDict_of_judged (hj : ∀ r ∈ reports, r.Judged) (now : T)
    (h : (reports.map (·.report)).mapM TestReport.asDict = some dicts) :
    ∃ combined, (combine now (dicts.map fromDict)).asDict = some combined ∧
      combined.results = dicts.flatMap (·.results) := by
  have hmap : (combine now (dicts.map fromDict)).testInfos.mapM TestInfo.result =
      some (dicts.flatMap (·.results)) := by
    rw [mapM_eq_some, testInfos_of_judged hj now h, List.map_map]
    refine List.map_congr_left fun x hx => ?_
    obtain ⟨r, hr, p, hp, hx⟩ := (mem_results_iff h).mp hx
    exact result_testInfo hx
  rw [TestReport.asDict, hmap]
  exact ⟨_, rfl, rfl⟩

theorem reportExit_of_judged (hj : ∀ r ∈ reports, r.Judged) (now : T)
    (h : (reports.map (·.report)).mapM TestReport.asDict = some dicts) :
    reportExit (combine now (dicts.map fromDict)) = 31 ↔
      ∃ r ∈ reports, ∃ p ∈ r.options.zip r.report.testInfos, Fails p.1 p.2 := by
  rw [reportExit_eq, testInfos_of_judged hj now h]
  constructor
  · rintro ⟨t, ht, hstatus⟩
    obtain ⟨x, hx, rfl⟩ := List.mem_map.mp ht
    obtain ⟨r, hr, p, hp, hx⟩ := (mem_results_iff h).mp hx
    obtain ⟨-, hverdict⟩ := hj r hr p hp
    rw [Result.testInfo, (status_of_result hx).1] at hstatus
    exact ⟨r, hr, p, hp, hverdict.fails.mp (hstatus.resolve_right hverdict.noTimeout)⟩
  · rintro ⟨r, hr, p, hp, hfails⟩
    obtain ⟨hfinished, hverdict⟩ := hj r hr p hp
    obtain ⟨x, hx⟩ := Option.isSome_iff_exists.mp (result_isSome hfinished)
    refine ⟨x.testInfo, List.mem_map_of_mem ((mem_results_iff h).mpr ⟨r, hr, p, hp, hx⟩), .inl ?_⟩
    rw [Result.testInfo, (status_of_result hx).1]
    exact hverdict.fails.mpr hfails

/-- **The combined verdict.** Reports that `combine` has produced, from the reports of any runs and
from combined ones, are written and read back, and combined. The exit code is 31 if and only if a test
of one of them errored, was interrupted, is a dynamic test that failed, or failed without being
silenced. The results are those of the files, one file after the other, and `main` writes them. -/
theorem combined_verdict (now : T) (groups : List (T × List (TracedReport T))) :
    let reports := groups.map fun g => TracedReport.combine g.1 g.2
    ∃ dicts combined, (reports.map (·.report)).mapM TestReport.asDict = some dicts ∧
      (reportExit (combine now (dicts.map fromDict)) = 31 ↔
        ∃ r ∈ reports, ∃ p ∈ r.options.zip r.report.testInfos, Fails p.1 p.2) ∧
      (combine now (dicts.map fromDict)).asDict = some combined ∧
      combined.results = dicts.flatMap (·.results) ∧
      ∀ files : List (Option (ReportDict T)), files.filterMap id = dicts → dicts ≠ [] →
        main now true false files =
          .ok (some combined, reportExit (combine now (dicts.map fromDict))) := by
  intro reports
  have hj : ∀ r ∈ reports, r.Judged := by
    intro r hr
    obtain ⟨g, -, rfl⟩ := List.mem_map.mp hr
    exact judged_combine g.1 g.2
  obtain ⟨dicts, hdicts⟩ : ∃ dicts,
      (reports.map (·.report)).mapM TestReport.asDict = some dicts := by
    refine exists_mapM_eq_some fun _ hmem => ?_
    obtain ⟨r, hr, rfl⟩ := List.mem_map.mp hmem
    refine asDict_isSome fun t ht => ?_
    obtain ⟨option, hp⟩ := r.exists_option ht
    exact (hj r hr (option, t) hp).1
  obtain ⟨combined, hcombined, hresults⟩ := asDict_of_judged hj now hdicts
  refine ⟨dicts, combined, hdicts, reportExit_of_judged hj now hdicts, hcombined, hresults, ?_⟩
  rintro files rfl hne
  exact main_eq_ok hne hcombined

end Verdict

/-- An entry of a test whose failure is silenced. -/
def silencedTest : TestInfo ℤ where
  testFile := "jstests/core/find1.js"
  dynamic := false
  startTime := 3
  endTime := some 5
  status := some "fail"
  evergreenStatus := some "silentfail"
  returnCode := some 1

/-- A test of a suite whose failures are silenced fails, and the exit code is not 31. -/
theorem combined_verdict_silenced :
    ∃ (r : TracedReport ℤ) (dicts : List (ReportDict ℤ)),
      r.options = [.silentfail] ∧ r.report.testInfos.map (·.status) = [some "fail"] ∧
      [(TracedReport.combine 8 [r]).report].mapM TestReport.asDict = some dicts ∧
      reportExit (combine 9 (dicts.map fromDict)) ≠ 31 := by
  have hrun : ∃ s : Report.State (Fin 1) ℕ,
      Reach (Report.step "silentfail") Free (· = Report.initial) s ∧
      s.report.testInfos = [⟨0, false, true, some .fail, some "silentfail", some 1⟩] :=
    Reach.exists_of_run (.start rfl) [(0, .startTest Report.jsTest),
      (0, .addFailure Report.jsTest), (0, .stopTest Report.jsTest)] (by decide)
  obtain ⟨s, hs, hinfos⟩ := hrun
  have hrecords : List.Forall₂ TestInfo.Records [silencedTest] s.report.testInfos := by
    rw [hinfos]
    exact .cons ⟨rfl, rfl, rfl, rfl, rfl⟩ .nil
  let r : TracedReport ℤ := .ofRun .silentfail hs ⟨[silencedTest], 0, 0, 1, 0, 0⟩ hrecords
  obtain ⟨dicts, -, hdicts, hexit, -⟩ := combined_verdict 9 [(8, [r])]
  have hsilenced : ¬ Fails .silentfail (silencedTest.repair 8) := by
    unfold Fails
    decide
  refine ⟨r, dicts, rfl, rfl, hdicts, ?_⟩
  rw [Ne, hexit]
  rintro ⟨c, hc, p, hp, hfails⟩
  rw [List.mem_singleton.mp hc] at hp
  rw [List.mem_singleton.mp hp] at hfails
  exact hsilenced hfails

end MongoTests.Resmoke.CombineReports
