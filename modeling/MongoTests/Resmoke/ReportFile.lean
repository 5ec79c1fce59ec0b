import MongoTests.Resmoke.Combine

/-!
# Report files

`as_dict` and `from_dict` of `TestReport`: the combined report is written to a file by
`resmokelib/reportfile.py`, and read back when files are combined. The failures are written from the
statuses of the entries and read from their Evergreen statuses; dynamic tests are recognised by
a colon in their names.

* `Produced`: the reports that the program makes: filled by threads, combined, or read from a file.
* `Sound`, `sound_of_produced`: their entries; `numDynamic_of_produced`: their dynamic tests.
* **`round_trip_iff`**: when a combined report is the same after it is written and read.
  `round_trip_fixture_silenced`: a run after which it is not.
-/

namespace MongoTests.Resmoke.CombineReports

open MongoTests.Lib

variable {T : Type}

/-! ## The reports of the program -/

/-- A report that threads have filled, a combined report, or one read from a file. -/
inductive Produced [Sub T] : TestReport T → Prop
  | run {ι Id : Type} [DecidableEq ι] [DecidableEq Id] {option : FailureStatus}
      {s : Report.State ι Id} {r : TestReport T} :
      Reach (Report.step option.text) Free (· = Report.initial) s →
      List.Forall₂ TestInfo.Records r.testInfos s.report.testInfos →
      r.numDynamic = s.report.numDynamic → Produced r
  | combine (now : T) {reports : List (TestReport T)} :
      (∀ r ∈ reports, Produced r) → Produced (combine now reports)
  | read {r : TestReport T} {d : ReportDict T} : Produced r → r.asDict = some d →
      Produced (fromDict d)

/-! ## Dynamic tests -/

section Dynamic

variable {ι Id : Type} [DecidableEq ι] [DecidableEq Id] {option : FailureStatus}
  {r r' : Report.TestReport Id}

/-- The counter of the dynamic tests is right. -/
def DynamicRight (r : Report.TestReport Id) : Prop :=
  r.numDynamic = r.testInfos.countP (·.dynamic)

theorem countP_update {id : Id} {f : Report.TestInfo Id → Report.TestInfo Id}
    {infos infos' : List (Report.TestInfo Id)}
    (hr : Report.updateTestInfo id f infos = some infos') (hf : ∀ e, (f e).dynamic = e.dynamic) :
    infos'.countP (·.dynamic) = infos.countP (·.dynamic) := by
  obtain ⟨before, e, after, rfl, rfl, -⟩ := Report.updateTestInfo_split hr
  simp only [List.countP_append, List.countP_cons, hf]

theorem dynamicRight_setOutcome {id : Id} {status : Report.Status}
    {f : Report.TestInfo Id → String} {code : Option ℤ} (h : DynamicRight r)
    (hr : r.setOutcome id status f code = some r') : DynamicRight r' := by
  obtain ⟨infos, hu, rfl⟩ := Option.map_eq_some_iff.mp hr
  have hcount := countP_update hu fun _ => rfl
  exact h.trans hcount.symm

theorem dynamicRight_changeOutcome {id : Id} {status : Report.Status}
    {f : Report.TestInfo Id → String} {code : Option ℤ} (h : DynamicRight r)
    (hr : r.changeOutcome id status f code = some r') : DynamicRight r' := by
  unfold Report.TestReport.changeOutcome at hr
  split_ifs at hr
  exact dynamicRight_setOutcome h hr

theorem dynamicRight_call {a : Report.Act Id} (h : DynamicRight r)
    (hr : a.call option.text r = some r') : DynamicRight r' := by
  cases a with
  | startTest test =>
    cases hr
    unfold DynamicRight Report.TestReport.startTest
    cases hdyn : test.dynamic <;> simp [List.countP_append, show r.numDynamic = _ from h]
  | stopTest test =>
    obtain ⟨infos, hu, rfl⟩ := Option.map_eq_some_iff.mp hr
    have hcount := countP_update hu fun _ => rfl
    exact h.trans hcount.symm
  | addError test =>
    exact dynamicRight_setOutcome (r := { r with numErrored := r.numErrored + 1 }) h hr
  | addFailure test =>
    exact dynamicRight_setOutcome (r := { r with numFailed := r.numFailed + 1 }) h hr
  | addSuccess test =>
    exact dynamicRight_setOutcome (r := { r with numSucceeded := r.numSucceeded + 1 }) h hr
  | setError test => exact dynamicRight_changeOutcome h hr
  | setFailure test code => exact dynamicRight_changeOutcome h hr
  | next => cases hr

theorem dynamicRight_of_reach {s : Report.State ι Id}
    (h : Reach (Report.step option.text) Free (· = Report.initial) s) :
    DynamicRight s.report := by
  refine report_of_reach (I := DynamicRight) rfl ?_ ?_ h
  · exact fun a r r' hr hcall => dynamicRight_call hr hcall
  · intro n c r hr
    cases c <;> exact hr

end Dynamic

theorem countP_of_records {Id : Type} {infos : List (TestInfo T)}
    {entries : List (Report.TestInfo Id)} (h : List.Forall₂ TestInfo.Records infos entries) :
    entries.countP (·.dynamic) = infos.countP (·.dynamic) := by
  induction h with
  | nil => rfl
  | cons hr _ ih => simp only [List.countP_cons, hr.dynamic, ih]

@[simp] theorem dynamic_repair (now : T) (t : TestInfo T) : (t.repair now).dynamic = t.dynamic :=
  (repaired_repair now t).dynamic

theorem numDynamic_of_produced [Sub T] {r : TestReport T} (h : Produced r) :
    r.numDynamic = r.testInfos.countP (·.dynamic) := by
  induction h with
  | @run _ _ _ _ _ _ r hs hrecords hdyn =>
    rw [hdyn, ← countP_of_records hrecords]
    exact dynamicRight_of_reach hs
  | @combine now reports _ ih =>
    show (reports.map (·.numDynamic)).sum = (reports.flatMap _).countP _
    rw [List.countP_flatMap]
    congr 1
    refine List.map_congr_left fun r hr => ?_
    simp [ih r hr, List.countP_map, Function.comp_def]
  | read => rfl

/-! ## Failures -/

/-- The statuses that count as failures. -/
def failures : List (Option String) := [some "fail", some "error", some "timeout"]

/-- A failure that is not written as one. -/
def Silenced (t : TestInfo T) : Prop :=
  t.status = some "fail" ∧ t.evergreenStatus = some "silentfail"

instance (t : TestInfo T) : Decidable (Silenced t) := by unfold Silenced; infer_instance

/-- An entry with an outcome is written as a failure if it is one and is not silenced. -/
def Sound (t : TestInfo T) : Prop :=
  t.status.isSome → (t.evergreenStatus ∈ failures ↔ t.status ∈ failures ∧ ¬ Silenced t)

theorem sound_of_outcome {Id : Type} {option : FailureStatus} {e : Report.TestInfo Id}
    {t : TestInfo T} (h : t.Records e) (ho : Outcome option e) : Sound t := by
  intro hsome
  have hstatus := h.status
  have hever := h.evergreenStatus
  rcases ho with hs | ⟨hs, he⟩ | ⟨hs, he⟩ | ⟨hs, he⟩
  · rw [hstatus, hs] at hsome
    cases hsome
  · simp [Silenced, failures, hstatus, hever, hs, he, statusText]
  · simp [Silenced, failures, hstatus, hever, hs, he, statusText]
  · have hcases : Report.failureStatus option.text e = "fail" ∨
        Report.failureStatus option.text e = "silentfail" := by
      unfold Report.failureStatus
      cases option <;> split_ifs <;> simp [FailureStatus.text]
    rcases hcases with hf | hf <;>
      simp [Silenced, failures, hstatus, hever, hs, he, hf, statusText]

theorem sound_of_records {Id : Type} {option : FailureStatus} {infos : List (TestInfo T)}
    {entries : List (Report.TestInfo Id)} (h : List.Forall₂ TestInfo.Records infos entries)
    (ho : ∀ e ∈ entries, Outcome option e) : ∀ t ∈ infos, Sound t := by
  induction h with
  | nil => exact fun t ht => absurd ht List.not_mem_nil
  | cons hr _ ih =>
    obtain ⟨he, ho⟩ := List.forall_mem_cons.mp ho
    exact List.forall_mem_cons.mpr ⟨sound_of_outcome hr he, ih ho⟩

theorem Sound.repair {t : TestInfo T} (h : Sound t) (now : T) : Sound (t.repair now) := by
  obtain ⟨-, ⟨hst, hev⟩ | ⟨hsome, hst, hev⟩⟩ := repair_outcome now t
  · intro _
    simp [Silenced, failures, hst, hev]
  · intro _
    have := h hsome
    unfold Silenced at this ⊢
    rwa [hst, hev]

/-- An entry that was read has one status. -/
theorem sound_testInfo (x : Result T) : Sound x.testInfo := by
  intro _
  unfold Silenced Result.testInfo failures
  dsimp only
  constructor
  · intro h
    refine ⟨h, ?_⟩
    rintro ⟨hf, hs⟩
    rw [hf] at hs
    exact absurd hs (by decide)
  · exact fun h => h.1

theorem sound_of_produced [Sub T] {r : TestReport T} (h : Produced r) :
    ∀ t ∈ r.testInfos, Sound t := by
  induction h with
  | @run _ _ _ _ _ _ r hs hrecords _ =>
    exact sound_of_records hrecords (outcome_of_reach hs)
  | @combine now reports _ ih =>
    intro t ht
    obtain ⟨r, hr, ht⟩ := List.mem_flatMap.mp ht
    obtain ⟨u, hu, rfl⟩ := List.mem_map.mp ht
    exact (ih r hr u hu).repair now
  | read =>
    intro t ht
    obtain ⟨x, -, rfl⟩ := List.mem_map.mp ht
    exact sound_testInfo x

/-! ## Written and read -/

section RoundTrip

variable [Sub T]

/-- The report is the same after it was written and read, in its results, the number of failures and
the number of dynamic tests. -/
def RoundTrip (r : TestReport T) : Prop :=
  ∃ d d', r.asDict = some d ∧ (fromDict d).asDict = some d' ∧ d'.results = d.results ∧
    d'.failures = d.failures ∧ (fromDict d).numDynamic = r.numDynamic

/-- By its name, the test is dynamic. -/
def TestInfo.named (t : TestInfo T) : Bool := t.testFile.toList.contains ':'

omit [Sub T] in
theorem failures_recompute (r : TestReport T) :
    r.recompute.numFailed + r.recompute.numErrored + r.recompute.numInterrupted =
      r.testInfos.countP fun t => t.status ∈ failures := by
  show r.count "fail" + r.count "error" + r.count "timeout" = _
  unfold TestReport.count failures
  rw [countP_mem_cons (by decide), countP_mem_cons (by decide), countP_mem_cons (by decide)]
  simp
  omega

omit [Sub T] in
/-- The failures are those that are written, and the silenced ones. -/
theorem countP_failures {infos : List (TestInfo T)}
    (h : ∀ t ∈ infos, t.status.isSome ∧ Sound t) :
    infos.countP (fun t => t.status ∈ failures) =
      infos.countP (fun t => t.evergreenStatus ∈ failures) +
        infos.countP (fun t => Silenced t) := by
  induction infos with
  | nil => rfl
  | cons t infos ih =>
    obtain ⟨⟨hsome, hsound⟩, h⟩ := List.forall_mem_cons.mp h
    have ih := ih h
    have hiff := hsound hsome
    simp only [List.countP_cons, decide_eq_true_iff] at ih ⊢
    by_cases hs : Silenced t
    · have hfails : t.status ∈ failures := by simp [failures, hs.1]
      have hnot : t.evergreenStatus ∉ failures := fun he => (hiff.mp he).2 hs
      simp only [hs, hfails, hnot, if_true, if_false]
      omega
    · have hsame : t.evergreenStatus ∈ failures ↔ t.status ∈ failures := by simpa [hs] using hiff
      simp only [hs, hsame, if_false]
      omega

omit [Sub T] in
theorem countP_dynamic (infos : List (TestInfo T)) :
    infos.countP TestInfo.named = infos.countP (·.dynamic) ↔
      infos.countP (fun t => t.dynamic && !t.named) =
        infos.countP (fun t => !t.dynamic && t.named) := by
  have hsum : infos.countP TestInfo.named + infos.countP (fun t => t.dynamic && !t.named) =
      infos.countP (·.dynamic) + infos.countP (fun t => !t.dynamic && t.named) := by
    induction infos with
    | nil => rfl
    | cons t infos ih =>
      simp only [List.countP_cons] at ih ⊢
      cases t.dynamic <;> cases t.named <;> simp <;> omega
  omega

/-- What is read is counted like what was written. -/
theorem countP_results {infos : List (TestInfo T)} {results : List (Result T)}
    (h : infos.map TestInfo.result = results.map some) {p q : TestInfo T → Bool}
    (hpq : ∀ t x, t.result = some x → p x.testInfo = q t) :
    (results.map Result.testInfo).countP p = infos.countP q := by
  induction infos generalizing results with
  | nil =>
    cases results with
    | nil => rfl
    | cons x results => cases h
  | cons t infos ih =>
    cases results with
    | nil => cases h
    | cons x results =>
      obtain ⟨hx, h⟩ := List.cons.inj h
      rw [List.map_cons, List.countP_cons, List.countP_cons, ih h, hpq t x hx]

/-- The results are written again as they were read. -/
theorem asDict_fromDict {r : TestReport T} {d : ReportDict T} (h : r.asDict = some d) :
    (fromDict d).asDict =
        some ⟨d.results, r.testInfos.countP fun t => t.evergreenStatus ∈ failures⟩ ∧
      (fromDict d).numDynamic = r.testInfos.countP TestInfo.named := by
  have hresults := asDict_eq_some h
  have hmap : (fromDict d).testInfos.mapM TestInfo.result = some d.results := by
    rw [mapM_eq_some]
    show (d.results.map Result.testInfo).map TestInfo.result = _
    rw [List.map_map]
    refine List.map_congr_left fun x hx => ?_
    have hmem : some x ∈ r.testInfos.map TestInfo.result := hresults ▸ List.mem_map_of_mem hx
    obtain ⟨t, -, ht⟩ := List.mem_map.mp hmem
    exact result_testInfo ht
  have hfailures : (fromDict d).numFailed + (fromDict d).numErrored + (fromDict d).numInterrupted =
      r.testInfos.countP fun t => t.evergreenStatus ∈ failures := by
    refine (failures_recompute _).trans (countP_results hresults fun t x hx => ?_)
    rw [Result.testInfo, (status_of_result hx).1]
  refine ⟨?_, countP_results hresults fun t x hx => ?_⟩
  · rw [TestReport.asDict, hmap, Option.map_some, hfailures]
  · obtain ⟨endTime, -, rfl⟩ := Option.map_eq_some_iff.mp hx
    rfl

theorem round_trip_of_produced {r : TestReport T} (h : Produced r)
    (hfinished : ∀ t ∈ r.testInfos, t.Finished) (hrecompute : r = r.recompute) :
    RoundTrip r ↔ (∀ t ∈ r.testInfos, ¬ Silenced t) ∧
      r.testInfos.countP (fun t => t.dynamic && !t.named) =
        r.testInfos.countP (fun t => !t.dynamic && t.named) := by
  obtain ⟨d, hd⟩ := Option.isSome_iff_exists.mp (asDict_isSome hfinished)
  obtain ⟨hread, hdynamic⟩ := asDict_fromDict hd
  have hwritten : d.failures = r.testInfos.countP fun t => t.status ∈ failures := by
    obtain ⟨results, -, rfl⟩ := Option.map_eq_some_iff.mp hd
    have := failures_recompute r
    rwa [← hrecompute] at this
  have hsplit := countP_failures fun t ht =>
    ⟨(hfinished t ht).1, sound_of_produced h t ht⟩
  rw [← countP_dynamic, ← numDynamic_of_produced h, ← hdynamic]
  constructor
  · rintro ⟨d₁, d₂, h₁, h₂, -, hfailures, hdyn⟩
    cases hd.symm.trans h₁
    cases hread.symm.trans h₂
    refine ⟨?_, hdyn⟩
    dsimp only at hfailures
    have hzero : r.testInfos.countP (fun t => Silenced t) = 0 := by omega
    simpa using hzero
  · rintro ⟨hsilenced, hdyn⟩
    have hzero : r.testInfos.countP (fun t => Silenced t) = 0 := by simpa using hsilenced
    refine ⟨d, _, hd, hread, rfl, ?_, hdyn⟩
    dsimp only
    omega

/-- **When a report file is read as it was written.** For every combined report of any reports that
the program has made, writing and reading it keeps the results, the number of failures and the
number of dynamic tests, if and only if none of its failures is silenced, and as many dynamic tests
have a name without a colon as other tests have one with a colon. -/
theorem round_trip_iff (now : T) {reports : List (TestReport T)}
    (hreports : ∀ r ∈ reports, Produced r) :
    RoundTrip (combine now reports) ↔
      (∀ t ∈ (combine now reports).testInfos, ¬ Silenced t) ∧
      (combine now reports).testInfos.countP (fun t => t.dynamic && !t.named) =
        (combine now reports).testInfos.countP (fun t => !t.dynamic && t.named) := by
  refine round_trip_of_produced (.combine now hreports) (fun t ht => ?_) rfl
  obtain ⟨r, -, ht⟩ := List.mem_flatMap.mp ht
  obtain ⟨u, -, rfl⟩ := List.mem_map.mp ht
  exact finished_repair now u

end RoundTrip

/-- A check of a hook, a dynamic test that is named like one. -/
def hookCheck : TestInfo ℤ :=
  ⟨"find1:CheckReplDBHash", true, 6, some 7, some "fail", some "fail", some 1, none⟩

/-- A failure of a data consistency check. -/
theorem round_trip_hook :
    ∃ r : TestReport ℤ, r.testInfos = [hookCheck] ∧ RoundTrip (combine 8 [r]) := by
  have hrun : ∃ s : Report.State (Fin 1) ℕ,
      Reach (Report.step FailureStatus.silentfail.text) Free (· = Report.initial) s ∧
      s.report.testInfos = [⟨1, true, true, some .fail, some "fail", some 1⟩] ∧
      s.report.numDynamic = 1 :=
    Reach.exists_of_run (.start rfl) [(0, .startTest ⟨1, true, some 1⟩),
      (0, .addFailure ⟨1, true, some 1⟩), (0, .stopTest ⟨1, true, some 1⟩)] (by decide)
  obtain ⟨s, hs, hinfos, hdynamic⟩ := hrun
  let r : TestReport ℤ := ⟨[hookCheck], 1, 0, 1, 0, 0⟩
  have hrecords : List.Forall₂ TestInfo.Records r.testInfos s.report.testInfos := by
    rw [hinfos]
    exact .cons ⟨rfl, rfl, rfl, rfl, rfl⟩ .nil
  have hproduced : Produced r := .run hs hrecords hdynamic.symm
  refine ⟨r, rfl, (round_trip_iff 8 ?_).mpr (by decide)⟩
  exact List.forall_mem_singleton.mpr hproduced

/-- The setup of a fixture, a dynamic test without a colon in its name. -/
def fixtureSetup : TestInfo ℤ :=
  ⟨"job0_fixture_setup", true, 1, some 2, some "pass", some "pass", some 0, none⟩

/-- **A report that is read otherwise than it was written.** The fixture is set up and a test fails
in a suite whose failures are silenced: the failure is written and not read, and so is the dynamic
test. -/
theorem round_trip_fixture_silenced :
    ∃ r : TestReport ℤ, Produced r ∧ r.testInfos = [fixtureSetup, silencedTest] ∧
      (combine 8 [r]).asDict.map (·.failures) = some 1 ∧
      (((combine 8 [r]).asDict.map fromDict).bind (·.asDict)).map (·.failures) = some 0 ∧
      (combine 8 [r]).numDynamic = 1 ∧
      ((combine 8 [r]).asDict.map fromDict).map (·.numDynamic) = some 0 ∧
      ¬ RoundTrip (combine 8 [r]) := by
  have hrun : ∃ s : Report.State (Fin 1) ℕ,
      Reach (Report.step FailureStatus.silentfail.text) Free (· = Report.initial) s ∧
      s.report.testInfos = [⟨0, true, true, some .pass, some "pass", some 0⟩,
        ⟨1, false, true, some .fail, some "silentfail", some 1⟩] ∧ s.report.numDynamic = 1 :=
    Reach.exists_of_run (.start rfl) [(0, .startTest ⟨0, true, some 0⟩),
      (0, .addSuccess ⟨0, true, some 0⟩), (0, .stopTest ⟨0, true, some 0⟩),
      (0, .startTest ⟨1, false, some 1⟩), (0, .addFailure ⟨1, false, some 1⟩),
      (0, .stopTest ⟨1, false, some 1⟩)] (by decide)
  obtain ⟨s, hs, hinfos, hdynamic⟩ := hrun
  let r : TestReport ℤ := ⟨[fixtureSetup, silencedTest], 1, 1, 1, 0, 0⟩
  have hrecords : List.Forall₂ TestInfo.Records r.testInfos s.report.testInfos := by
    rw [hinfos]
    exact .cons ⟨rfl, rfl, rfl, rfl, rfl⟩ (.cons ⟨rfl, rfl, rfl, rfl, rfl⟩ .nil)
  have hread : ((combine 8 [r]).asDict.map fromDict).map (·.numDynamic) = some 0 := by decide
  refine ⟨r, .run hs hrecords hdynamic.symm, rfl, by decide, by decide, rfl, hread, ?_⟩
  rintro ⟨d, d', hd, -, -, -, hdyn⟩
  rw [hd] at hread
  cases hdyn.symm.trans (Option.some.inj hread)

end MongoTests.Resmoke.CombineReports
