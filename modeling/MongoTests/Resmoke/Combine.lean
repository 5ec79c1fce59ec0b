import MongoTests.Lib.Heap
import MongoTests.Resmoke.CombineReports

/-!
# Combining reports

`TestReport.combine` of `resmokelib/testing/report.py` on objects: the entries of the reports stay
where they are, since job threads may still write to them, and the copies are repaired and counted.

* `ReportObject`: a report with the addresses of its entries; `view`: what it stands for.
* `combineObjects`, entry by entry; `Copied`: what the loop keeps. `view_combineObjects`: it is
  `combine`, and no entry of the reports changes.
* `Repaired`: an entry and its copy.
* **`combine_partition`**: the combined report has the entries of all reports, each with an outcome;
  its counters divide up those with a known status. `combine_silenced`: entries read from a file
  may have another one.
-/

namespace MongoTests.Resmoke.CombineReports

open MongoTests.Lib

variable {T : Type}

def TestReport.wasSuccessful (r : TestReport T) : Bool :=
  r.numFailed = r.numErrored && r.numErrored = r.numInterrupted && r.numInterrupted = 0

/-! ## Objects -/

structure ReportObject where
  testInfos : List ℕ
  numDynamic : ℕ
  numSucceeded : ℕ := 0
  numFailed : ℕ := 0
  numErrored : ℕ := 0
  numInterrupted : ℕ := 0
  deriving DecidableEq, Repr

/-- The report on a heap of entries. -/
def ReportObject.view (h : Heap (TestInfo T)) (r : ReportObject) : TestReport T where
  testInfos := r.testInfos.map h.cell
  numDynamic := r.numDynamic
  numSucceeded := r.numSucceeded
  numFailed := r.numFailed
  numErrored := r.numErrored
  numInterrupted := r.numInterrupted

/-- One entry in the loop of `combine`. A shallow copy is made, and then repaired. -/
def combineTestInfo (now : T) (s : Heap (TestInfo T) × ReportObject) (testInfo : ℕ) :
    Heap (TestInfo T) × ReportObject :=
  let copy := s.1.next
  let h := s.1.copy testInfo
  let h := if (h.cell copy).status.isNone || (h.cell copy).returnCode.isNone then
      h.write copy fun t => { t with
        status := some "timeout", evergreenStatus := some "fail", returnCode := some (-2) }
    else h
  let h := if (h.cell copy).endTime.isNone then h.write copy fun t => { t with endTime := some now }
    else h
  (h, { s.2 with testInfos := s.2.testInfos ++ [copy] })

/-- One report in the loop of `combine`. -/
def combineReport (now : T) (s : Heap (TestInfo T) × ReportObject) (report : ReportObject) :
    Heap (TestInfo T) × ReportObject :=
  let s := report.testInfos.foldl (combineTestInfo now) s
  (s.1, { s.2 with numDynamic := s.2.numDynamic + report.numDynamic })

/-- `combine`. -/
def combineObjects (now : T) (h : Heap (TestInfo T)) (reports : List ReportObject) :
    Heap (TestInfo T) × ReportObject :=
  let s := reports.foldl (combineReport now) (h, ⟨[], 0, 0, 0, 0, 0⟩)
  (s.1, { s.2 with
    numSucceeded := (s.2.view s.1).count "pass"
    numFailed := (s.2.view s.1).count "fail"
    numErrored := (s.2.view s.1).count "error"
    numInterrupted := (s.2.view s.1).count "timeout" })

/-! ## The loop -/

/-- The loop has made copies of entries, and changed none. -/
structure Copied (now : T) (h : Heap (TestInfo T)) (infos : List (TestInfo T))
    (s : Heap (TestInfo T) × ReportObject) : Prop where
  frame : h.Extends s.1
  used : ∀ a ∈ s.2.testInfos, a < s.1.next
  copies : s.2.testInfos.map s.1.cell = infos.map (·.repair now)

section Loop

variable {now : T} {h : Heap (TestInfo T)} {infos : List (TestInfo T)}
  {s : Heap (TestInfo T) × ReportObject}

/-- One entry: a new object that is its repaired copy. -/
theorem combineTestInfo_spec (now : T) (s : Heap (TestInfo T) × ReportObject) (a : ℕ) :
    s.1.Extends (combineTestInfo now s a).1 ∧
    (combineTestInfo now s a).1.next = s.1.next + 1 ∧
    (combineTestInfo now s a).1.cell s.1.next = (s.1.cell a).repair now := by
  have hcopy : s.1.Extends (s.1.copy a) := (Heap.Extends.refl s.1).copy a
  unfold combineTestInfo
  simp only [Heap.ite_write]
  refine ⟨(hcopy.write (Nat.le_refl _) _).write (Nat.le_refl _) _, rfl, ?_⟩
  rw [Heap.cell_write_self, Heap.cell_write_self, Heap.cell_copy_next]
  rfl

theorem Copied.testInfo (hs : Copied now h infos s) {a : ℕ} (ha : a < h.next) :
    Copied now h (infos ++ [h.cell a]) (combineTestInfo now s a) := by
  obtain ⟨hext, hnext, hcell⟩ := combineTestInfo_spec now s a
  have htestInfos : (combineTestInfo now s a).2.testInfos = s.2.testInfos ++ [s.1.next] := rfl
  refine ⟨hs.frame.trans hext, ?_, ?_⟩
  · intro b hb
    rw [htestInfos, List.mem_append, List.mem_singleton] at hb
    rw [hnext]
    rcases hb with hb | rfl
    · exact Nat.lt_succ_of_lt (hs.used b hb)
    · exact Nat.lt_succ_self _
  · rw [htestInfos, List.map_append, List.map_append, hext.map_cell hs.used, hs.copies,
      List.map_singleton, hcell, hs.frame.cell a ha]
    rfl

theorem Copied.foldl (hs : Copied now h infos s) {as : List ℕ} (has : ∀ a ∈ as, a < h.next) :
    Copied now h (infos ++ as.map h.cell) (as.foldl (combineTestInfo now) s) := by
  induction as generalizing infos s with
  | nil => simpa using hs
  | cons a as ih =>
    obtain ⟨ha, has⟩ := List.forall_mem_cons.mp has
    have := ih (hs.testInfo ha) has
    rwa [List.append_assoc] at this

/-- What does not depend on the entries. -/
theorem numDynamic_foldl (as : List ℕ) (s : Heap (TestInfo T) × ReportObject) :
    (as.foldl (combineTestInfo now) s).2.numDynamic = s.2.numDynamic := by
  induction as generalizing s with
  | nil => rfl
  | cons a as ih => exact ih _

theorem copied_reports (hs : Copied now h infos s) {reports : List ReportObject}
    (hreports : ∀ r ∈ reports, ∀ a ∈ r.testInfos, a < h.next) :
    Copied now h (infos ++ reports.flatMap fun r => r.testInfos.map h.cell)
      (reports.foldl (combineReport now) s) ∧
    (reports.foldl (combineReport now) s).2.numDynamic =
      s.2.numDynamic + (reports.map (·.numDynamic)).sum := by
  induction reports generalizing infos s with
  | nil => exact ⟨by simpa using hs, rfl⟩
  | cons r reports ih =>
    obtain ⟨hr, hreports⟩ := List.forall_mem_cons.mp hreports
    have hcopied := hs.foldl hr
    have hnext : Copied now h (infos ++ r.testInfos.map h.cell) (combineReport now s r) :=
      ⟨hcopied.frame, hcopied.used, hcopied.copies⟩
    have hdynamic : (combineReport now s r).2.numDynamic = s.2.numDynamic + r.numDynamic :=
      congrArg (· + r.numDynamic) (numDynamic_foldl r.testInfos s)
    obtain ⟨hc, hd⟩ := ih hnext hreports
    refine ⟨by rwa [List.append_assoc] at hc, ?_⟩
    rw [List.foldl_cons, hd, hdynamic, List.map_cons, List.sum_cons]
    omega

/-- **The entries of the reports stay as they are**, and the combined report is that of
`combine`. -/
theorem view_combineObjects (now : T) {h : Heap (TestInfo T)} {reports : List ReportObject}
    (hreports : ∀ r ∈ reports, ∀ a ∈ r.testInfos, a < h.next) :
    h.Extends (combineObjects now h reports).1 ∧
    (combineObjects now h reports).2.view (combineObjects now h reports).1 =
      combine now (reports.map (·.view h)) := by
  have hstart : Copied now h [] (h, ⟨[], 0, 0, 0, 0, 0⟩) :=
    ⟨.refl h, fun a ha => absurd ha List.not_mem_nil, rfl⟩
  obtain ⟨hc, hd⟩ := copied_reports hstart hreports
  have hinfos : (reports.flatMap fun r => r.testInfos.map h.cell).map (·.repair now) =
      (reports.map (·.view h)).flatMap fun r => r.testInfos.map (·.repair now) := by
    rw [List.map_flatMap, List.flatMap_map]
    rfl
  have hsum : ((reports.map (·.view h)).map (·.numDynamic)).sum =
      (reports.map (·.numDynamic)).sum := by
    rw [List.map_map]
    rfl
  refine ⟨hc.frame, ?_⟩
  have hview : ∀ s : Heap (TestInfo T) × ReportObject,
      ReportObject.view s.1 { s.2 with
        numSucceeded := (s.2.view s.1).count "pass"
        numFailed := (s.2.view s.1).count "fail"
        numErrored := (s.2.view s.1).count "error"
        numInterrupted := (s.2.view s.1).count "timeout" } =
      TestReport.recompute ⟨s.2.testInfos.map s.1.cell, s.2.numDynamic, 0, 0, 0, 0⟩ := fun s => rfl
  refine (hview (reports.foldl (combineReport now) (h, ⟨[], 0, 0, 0, 0, 0⟩))).trans ?_
  rw [hc.copies, hd, List.nil_append, hinfos, combine, hsum, Nat.zero_add]

end Loop

/-! ## The combined report -/

/-- The copy `t'` of the entry `t`. -/
structure Repaired (now : T) (t t' : TestInfo T) : Prop where
  testFile : t'.testFile = t.testFile
  dynamic : t'.dynamic = t.dynamic
  startTime : t'.startTime = t.startTime
  urlEndpoint : t'.urlEndpoint = t.urlEndpoint
  endTime : t'.endTime = some (t.endTime.getD now)
  finished : t.status.isSome → t.returnCode.isSome → t'.status = t.status ∧
    t'.evergreenStatus = t.evergreenStatus ∧ t'.returnCode = t.returnCode
  interrupted : t.status = none ∨ t.returnCode = none → t'.status = some "timeout" ∧
    t'.evergreenStatus = some "fail" ∧ t'.returnCode = some (-2)

theorem repaired_repair (now : T) (t : TestInfo T) : Repaired now t (t.repair now) := by
  obtain ⟨testFile, dynamic, startTime, endTime, status, evergreenStatus, returnCode, url⟩ := t
  cases endTime <;> cases status <;> cases returnCode <;> constructor <;> simp [TestInfo.repair]

/-- The statuses that the counters count. -/
def counted : List (Option String) := [some "pass", some "fail", some "error", some "timeout"]

/-- The status is one that a report itself gives to its entries. -/
def Known (t : TestInfo T) : Prop := t.status = none ∨ t.status ∈ counted

/-- No status is counted twice. -/
theorem countP_mem_cons {status : Option String} {statuses : List (Option String)}
    (h : status ∉ statuses) (infos : List (TestInfo T)) :
    infos.countP (fun t => t.status ∈ status :: statuses) =
      infos.countP (fun t => t.status = status) + infos.countP (fun t => t.status ∈ statuses) := by
  induction infos with
  | nil => rfl
  | cons t infos ih =>
    simp only [List.countP_cons, decide_eq_true_iff] at ih ⊢
    by_cases ht : t.status = status
    · have hnot : t.status ∉ statuses := ht ▸ h
      simp only [List.mem_cons, ht, true_or, if_true, h, if_false] at ih ⊢
      omega
    · simp only [List.mem_cons, ht, false_or, if_false] at ih ⊢
      omega

/-- The four counters divide up the entries whose status is counted. -/
theorem counters_recompute (r : TestReport T) :
    r.recompute.numSucceeded + r.recompute.numFailed + r.recompute.numErrored +
      r.recompute.numInterrupted = r.testInfos.countP fun t => t.status ∈ counted := by
  show r.count "pass" + r.count "fail" + r.count "error" + r.count "timeout" = _
  unfold TestReport.count counted
  rw [countP_mem_cons (by decide), countP_mem_cons (by decide), countP_mem_cons (by decide),
    countP_mem_cons (by decide)]
  simp
  omega

theorem wasSuccessful_recompute (r : TestReport T) : r.recompute.wasSuccessful = true ↔
    ∀ t ∈ r.testInfos, t.status ∉ [some "fail", some "error", some "timeout"] := by
  have hzero : r.recompute.wasSuccessful = true ↔
      r.count "fail" = 0 ∧ r.count "error" = 0 ∧ r.count "timeout" = 0 := by
    show (decide (r.count "fail" = r.count "error") &&
      decide (r.count "error" = r.count "timeout") && decide (r.count "timeout" = 0)) = true ↔ _
    simp only [Bool.and_eq_true, decide_eq_true_iff]
    omega
  rw [hzero]
  simp only [TestReport.count, List.countP_eq_zero, decide_eq_true_iff, List.mem_cons,
    List.not_mem_nil, or_false, not_or]
  exact ⟨fun h t ht => ⟨h.1 t ht, h.2.1 t ht, h.2.2 t ht⟩,
    fun h => ⟨fun t ht => (h t ht).1, fun t ht => (h t ht).2.1, fun t ht => (h t ht).2.2⟩⟩

/-- The status of a copy is counted if that of the entry is known. -/
theorem counted_repair {now : T} {t t' : TestInfo T} (h : Repaired now t t') (hk : Known t) :
    t'.status ∈ counted := by
  by_cases hs : t.status = none ∨ t.returnCode = none
  · rw [(h.interrupted hs).1]
    decide
  · simp only [not_or, ← ne_eq, ← Option.isSome_iff_ne_none] at hs
    rw [(h.finished hs.1 hs.2).1]
    exact hk.resolve_left (Option.isSome_iff_ne_none.mp hs.1)

/-- A copy passes if and only if the entry passed and has a return code. -/
theorem pass_repair {now : T} {t t' : TestInfo T} (h : Repaired now t t') :
    t'.status = some "pass" ↔ t.status = some "pass" ∧ t.returnCode.isSome := by
  by_cases hs : t.status = none ∨ t.returnCode = none
  · rw [(h.interrupted hs).1]
    rcases hs with hs | hs <;> simp [hs]
  · simp only [not_or, ← ne_eq, ← Option.isSome_iff_ne_none] at hs
    rw [(h.finished hs.1 hs.2).1]
    simp [hs.2]

/-- Entries of reports that threads have filled, or copies of such entries, have a known status. -/
theorem Recorded.known {option : FailureStatus} {t : TestInfo T} (h : Recorded option t) :
    Known t := by
  induction h with
  | @run _ _ _ _ _ e _ _ _ hrecords =>
    rw [Known, hrecords.status]
    cases e.status with
    | none => exact .inl rfl
    | some status => cases status <;> exact .inr (by decide)
  | copy now _ ih => exact .inr (counted_repair (repaired_repair now _) ih)

/-- **What `combine` yields.** For all reports, with entries in any state, the combined report has
the entries of all reports in order, repaired, each with an outcome, a return code and an end time;
no report has changed; and its counters add up to the number of entries whose status is counted. If
the reports themselves gave their entries their statuses, then all are counted, and the combined
report is successful if and only if every entry of every report had passed with a return code. -/
theorem combine_partition (now : T) {h : Heap (TestInfo T)} {reports : List ReportObject}
    (hreports : ∀ r ∈ reports, ∀ a ∈ r.testInfos, a < h.next) :
    let result := combineObjects now h reports
    let combined := result.2.view result.1
    let entries := reports.flatMap fun r => (r.view h).testInfos
    List.Forall₂ (Repaired now) entries combined.testInfos ∧
    (∀ t ∈ combined.testInfos, t.status.isSome ∧ t.returnCode.isSome ∧ t.endTime.isSome) ∧
    (∀ r ∈ reports, r.view result.1 = r.view h) ∧
    combined.numSucceeded + combined.numFailed + combined.numErrored + combined.numInterrupted =
      combined.testInfos.countP (fun t => t.status ∈ counted) ∧
    ((∀ t ∈ entries, Known t) → (∀ t ∈ combined.testInfos, t.status ∈ counted) ∧
      combined.numSucceeded + combined.numFailed + combined.numErrored + combined.numInterrupted =
        combined.testInfos.length ∧
      (combined.wasSuccessful = true ↔
        ∀ t ∈ entries, t.status = some "pass" ∧ t.returnCode.isSome)) := by
  intro result combined entries
  obtain ⟨hframe, hview⟩ := view_combineObjects now hreports
  have hcombined : combined = combine now (reports.map (·.view h)) := hview
  have hinfos : combined.testInfos = entries.map (·.repair now) := by
    rw [hcombined]
    show (reports.map (·.view h)).flatMap _ = _
    rw [List.map_flatMap, List.flatMap_map]
  have hrepaired : List.Forall₂ (Repaired now) entries combined.testInfos := by
    rw [hinfos, List.forall₂_map_right_iff]
    exact List.forall₂_same.mpr fun t _ => repaired_repair now t
  have hsum : combined.numSucceeded + combined.numFailed + combined.numErrored +
      combined.numInterrupted = combined.testInfos.countP (fun t => t.status ∈ counted) := by
    rw [hcombined]
    exact counters_recompute _
  refine ⟨hrepaired, fun t ht => ?_, fun r hr => ?_, hsum, fun hknown => ?_⟩
  · rw [hinfos] at ht
    obtain ⟨t, -, rfl⟩ := List.mem_map.mp ht
    exact finished_repair now t
  · unfold ReportObject.view
    rw [hframe.map_cell (hreports r hr)]
  · have hcounted : ∀ t ∈ combined.testInfos, t.status ∈ counted := by
      intro t ht
      rw [hinfos] at ht
      obtain ⟨t, htmem, rfl⟩ := List.mem_map.mp ht
      exact counted_repair (repaired_repair now t) (hknown t htmem)
    refine ⟨hcounted, ?_, ?_⟩
    · rw [hsum, List.countP_eq_length]
      simpa using hcounted
    · have hsuccess : combined.wasSuccessful = true ↔ ∀ t ∈ combined.testInfos,
          t.status ∉ [some "fail", some "error", some "timeout"] := by
        rw [hcombined]
        exact wasSuccessful_recompute _
      rw [hsuccess, hinfos, List.forall_mem_map]
      refine forall₂_congr fun t ht => ?_
      rw [← pass_repair (repaired_repair now t)]
      have hmem := counted_repair (repaired_repair now t) (hknown t ht)
      rw [counted, List.mem_cons] at hmem
      constructor
      · exact hmem.resolve_right
      · intro hpass
        rw [hpass]
        decide

/-- A test that passed, one that is running, and one that has an
outcome without a return code. -/
def entry : ℕ → TestInfo ℤ
  | 0 => ⟨"jstests/core/find1.js", false, 3, some 5, some "pass", some "pass", some 0, none⟩
  | 1 => ⟨"jstests/core/find2.js", false, 5, none, none, none, none, none⟩
  | _ => ⟨"job0_fixture_setup", true, 1, some 2, some "pass", some "pass", none, none⟩

/-- Two reports, of which one is still being filled. -/
theorem combine_partition_running :
    let h : Heap (TestInfo ℤ) := ⟨entry, 3⟩
    let reports : List ReportObject := [⟨[2, 0], 1, 2, 0, 0, 0⟩, ⟨[1], 0, 0, 0, 0, 0⟩]
    let result := combineObjects 9 h reports
    (result.2.view result.1).testInfos.map (·.status) =
        [some "timeout", some "pass", some "timeout"] ∧
      (∀ r ∈ reports, r.view result.1 = r.view h) ∧
      (result.2.view result.1).numSucceeded + (result.2.view result.1).numFailed +
          (result.2.view result.1).numErrored + (result.2.view result.1).numInterrupted = 3 := by
  intro h reports result
  have hreports : ∀ r ∈ reports, ∀ a ∈ r.testInfos, a < h.next := by decide
  obtain ⟨-, -, hsame, -, hknown⟩ := combine_partition 9 hreports
  refine ⟨by decide, hsame, (hknown ?_).2.1⟩
  unfold Known
  decide

/-- The entry of a silenced failure that was read from a file. -/
def silencedEntry : TestInfo ℤ := { silencedTest with status := some "silentfail" }

/-- **A status that no counter counts.** A failure that was silenced is written to a file as
`silentfail`, which `from_dict` takes for its status. The combined report then counts nothing, and
is successful without a test that passed. -/
theorem combine_silenced :
    let h : Heap (TestInfo ℤ) := ⟨fun _ => silencedEntry, 1⟩
    let report : ReportObject := ⟨[0], 0, 0, 0, 0, 0⟩
    let result := combineObjects 9 h [report]
    let combined := result.2.view result.1
    (combine 8 [⟨[silencedTest], 0, 0, 1, 0, 0⟩]).asDict.map fromDict = some (report.view h) ∧
      combined.testInfos.map (·.status) = [some "silentfail"] ∧
      (¬ ∀ t ∈ combined.testInfos, t.status ∈ counted) ∧
      combined.numSucceeded + combined.numFailed + combined.numErrored + combined.numInterrupted ≠
        combined.testInfos.length ∧
      combined.wasSuccessful = true ∧ silencedEntry.status ≠ some "pass" := by
  decide

end MongoTests.Resmoke.CombineReports
