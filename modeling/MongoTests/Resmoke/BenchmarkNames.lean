import MongoTests.Lib.Checked
import MongoTests.Lib.Decimal
import MongoTests.Lib.Dict

/-!
# Names of benchmarks

`_parse_report` and `parse_bm_name` of the hook `CombineBenchmarkResults`. A text is the list of its
characters.

* `parseBmName`: a suffix is taken for a statistic when the whole name has two underscores.
* `parseReport`: rows with a statistic are dropped, the others are grouped by base name and number
  of threads.
* `Name`: a base name with a number of threads and a statistic; `Name.text`, `Name.parsed`.
* **`parse_report_iff`**: the names that are parsed as they were formatted.
-/

namespace MongoTests.Resmoke.Benchmark

open MongoTests.Lib Dict

/-! ## Splitting -/

/-- The first and the last part of `s.rsplit(c, 1)`. -/
def rsplit (c : Char) (s : List Char) : List Char × List Char :=
  if c ∈ s then ((s.reverse.dropWhile (· ≠ c)).tail.reverse, (s.reverse.takeWhile (· ≠ c)).reverse)
  else (s, s)

theorem rsplit_append {c : Char} {t : List Char} (ht : c ∉ t) (s : List Char) :
    rsplit c (s ++ c :: t) = (s, t) := by
  have hne : ∀ a ∈ t.reverse, decide (a ≠ c) = true := by
    intro a ha
    rw [decide_eq_true_eq]
    rintro rfl
    exact ht (List.mem_reverse.mp ha)
  have hc : decide (c ≠ c) = false := by simp
  have hreverse : (s ++ c :: t).reverse = t.reverse ++ c :: s.reverse := by simp
  rw [rsplit, if_pos (by simp), hreverse, List.dropWhile_append_of_pos hne,
    List.takeWhile_append_of_pos hne, List.dropWhile_cons, List.takeWhile_cons, hc]
  simp

theorem rsplit_of_notMem {c : Char} {s : List Char} (h : c ∉ s) : rsplit c s = (s, s) := if_neg h

theorem exists_rsplit {c : Char} {s : List Char} (h : c ∈ s) : ∃ t u, s = t ++ c :: u ∧ c ∉ u := by
  obtain ⟨u, t, hs, hu⟩ := List.eq_append_cons_of_mem (List.mem_reverse.mpr h)
  refine ⟨t.reverse, u.reverse, ?_, fun hc => hu (List.mem_reverse.mp hc)⟩
  rw [← List.reverse_reverse s, hs]
  simp

/-! ## The hook -/

/-- `_BenchmarkName`. -/
structure BenchmarkName where
  baseName : List Char
  threadCount : List Char
  statisticType : Option (List Char)
  deriving DecidableEq

/-- The first step of `parse_bm_name`: the name without the statistic, and the statistic. -/
def parseStatistic (nameStr : List Char) : List Char × Option (List Char) :=
  if nameStr.count '_' = 2 then
    let statisticType := (rsplit '_' nameStr).2
    (nameStr.take (nameStr.length - (statisticType.length + 1)), some statisticType)
  else (nameStr, none)

/-- The second step: the base name and the number of threads. -/
def parseThreads (nameStr : List Char) : List Char × List Char :=
  let threadSection := (rsplit '/' nameStr).2
  if "threads:".toList <+: threadSection then ((rsplit '/' nameStr).1, (rsplit ':' threadSection).2)
  else (nameStr, ['1'])

def parseBmName (nameStr : List Char) : BenchmarkName :=
  let (nameStr, statisticType) := parseStatistic nameStr
  let (baseName, threadCount) := parseThreads nameStr
  ⟨baseName, threadCount, statisticType⟩

variable {V R : Type}

/-- `CONTEXT_FIELDS`. -/
def contextFields : List String :=
  ["date", "cpu_scaling_enabled", "num_cpus", "mhz_per_cpu", "library_build_type", "executable", "caches"]

inductive Raised where
  | typeError
  deriving DecidableEq

structure ThreadsReport (V R : Type) where
  /-- The values of the fields. -/
  context : List V
  threadBenchmarkMap : Dict (List Char) (List R)

/-- `_BenchmarkThreadsReport(context)`: the constructor of a named tuple takes each field once. -/
def newThreadsReport (contextDict : Dict String V) : Except Raised (ThreadsReport V R) :=
  match contextFields.mapM contextDict.get with
  | none => .error .typeError
  | some values =>
    if contextDict.keys ⊆ contextFields then .ok ⟨values, empty⟩ else .error .typeError

def ThreadsReport.addReport (t : ThreadsReport V R) (bmNameObj : BenchmarkName) (report : R) :
    ThreadsReport V R :=
  let reports := (t.threadBenchmarkMap.get bmNameObj.threadCount).getD []
  { t with threadBenchmarkMap := t.threadBenchmarkMap.set bmNameObj.threadCount (reports ++ [report]) }

/-- The rows of `benchmarks`, each with its `name`. -/
structure ReportDict (V R : Type) where
  context : Dict String V
  benchmarks : List (List Char × R)

/-- Reports grouped by name without thread. -/
abbrev BenchmarkReports (V R : Type) := Dict (List Char) (ThreadsReport V R)

/-- The body of the loop of `_parse_report`. -/
def parseRow (context : Dict String V) (reports : BenchmarkReports V R) (row : List Char × R) :
    Except Raised (BenchmarkReports V R) :=
  let bmNameObj := parseBmName row.1
  if bmNameObj.statisticType.isSome then .ok reports
  else match reports.get bmNameObj.baseName with
    | some report => .ok (reports.set bmNameObj.baseName (report.addReport bmNameObj row.2))
    | none => do
      let report ← newThreadsReport context
      pure (reports.set bmNameObj.baseName (report.addReport bmNameObj row.2))

def parseReport (reports : BenchmarkReports V R) (report : ReportDict V R) :
    Except Raised (BenchmarkReports V R) :=
  report.benchmarks.foldlM (parseRow report.context) reports

/-! ## Formatted names -/

inductive Statistic where
  | mean
  | median
  | stddev
  deriving DecidableEq

def Statistic.text : Statistic → List Char
  | mean => "mean".toList
  | median => "median".toList
  | stddev => "stddev".toList

/-- The last section of a base name is not a number of threads. -/
structure Name where
  base : List Char
  threads : Option ℕ
  statistic : Option Statistic
  one_le_threads : ∀ n ∈ threads, 1 ≤ n
  base_ne : ∀ s t, base = s ++ "/threads:".toList ++ t → '/' ∈ t

namespace Name

/-- The base name with the number of threads. -/
def threadsText (n : Name) : List Char :=
  n.base ++ n.threads.elim [] fun count => "/threads:".toList ++ Nat.toDigits 10 count

def text (n : Name) : List Char := n.threadsText ++ n.statistic.elim [] fun stat => '_' :: stat.text

/-- What the name stands for. -/
def parsed (n : Name) : BenchmarkName where
  baseName := n.base
  threadCount := n.threads.elim ['1'] (Nat.toDigits 10)
  statisticType := n.statistic.map Statistic.text

/-- The underscores of the name are as the hook expects them. -/
def StatisticSeen (n : Name) : Prop :=
  if n.statistic.isSome then n.base.count '_' = 1 else n.base.count '_' ≠ 2

/-- The whole base name is taken for a number of threads, other than one. -/
def Bare (n : Name) : Prop :=
  n.threads = none ∧ "threads:".toList <+: n.base ∧ '/' ∉ n.base ∧ (rsplit ':' n.base).2 ≠ ['1']

end Name

/-- The rows of a base name and a number of threads. -/
def rowsOf (reports : BenchmarkReports V R) (baseName threadCount : List Char) : List R :=
  ((reports.get baseName).bind fun report => report.threadBenchmarkMap.get threadCount).getD []

/-- The rows without a statistic, of a base name and a number of threads. -/
def keptRows (rows : List (Name × R)) (baseName threadCount : List Char) : List R :=
  (rows.filter fun row => row.1.parsed = ⟨baseName, threadCount, none⟩).map Prod.snd

section Names

variable {n : Name}

/-! ## The statistic -/

theorem Statistic.notMem_text (stat : Statistic) : '_' ∉ stat.text := by
  cases stat <;> decide

theorem count_threadsText : n.threadsText.count '_' = n.base.count '_' := by
  have hprefix : "/threads:".toList.count '_' = 0 := by decide
  rw [Name.threadsText, List.count_append]
  cases n.threads with
  | none => rfl
  | some count =>
    have hcount : (Nat.toDigits 10 count).count '_' = 0 :=
      List.count_eq_zero.mpr (notMem_toDigits (by decide) count)
    rw [Option.elim_some, List.count_append, hprefix, hcount, Nat.add_zero]

theorem parseStatistic_append {s t : List Char} (ht : '_' ∉ t) (hs : s.count '_' = 1) :
    parseStatistic (s ++ '_' :: t) = (s, some t) := by
  have hcount : (s ++ '_' :: t).count '_' = 2 := by
    rw [List.count_append, List.count_cons_self, List.count_eq_zero.mpr ht, hs]
  rw [parseStatistic, if_pos hcount, rsplit_append ht]
  simp

theorem parseStatistic_text (h : n.StatisticSeen) :
    parseStatistic n.text = (n.threadsText, n.statistic.map Statistic.text) := by
  unfold Name.StatisticSeen at h
  unfold Name.text
  cases hstat : n.statistic with
  | none =>
    rw [hstat, Option.isSome_none, if_neg Bool.false_ne_true, ← count_threadsText] at h
    rw [Option.elim_none, List.append_nil, parseStatistic, if_neg h]
    rfl
  | some stat =>
    rw [hstat, Option.isSome_some, if_pos rfl, ← count_threadsText] at h
    exact parseStatistic_append stat.notMem_text h

/-- With another number of underscores a statistic is missed or made up. -/
theorem statisticSeen_of_parseStatistic
    (h : (parseStatistic n.text).2 = n.statistic.map Statistic.text) : n.StatisticSeen := by
  unfold Name.text parseStatistic at h
  unfold Name.StatisticSeen
  rw [← count_threadsText]
  cases hstat : n.statistic with
  | none =>
    rw [hstat, Option.elim_none, List.append_nil] at h
    rw [Option.isSome_none, if_neg Bool.false_ne_true]
    intro hcount
    rw [if_pos hcount] at h
    cases h
  | some stat =>
    rw [Option.isSome_some, if_pos rfl]
    by_contra hcount
    have htwo : ¬(n.threadsText ++ '_' :: stat.text).count '_' = 2 := by
      rw [List.count_append, List.count_cons_self, List.count_eq_zero.mpr stat.notMem_text]
      omega
    rw [hstat, Option.elim_some, if_neg htwo] at h
    cases h

/-! ## The number of threads -/

theorem parseThreads_of_threads {count : ℕ} (hthreads : n.threads = some count) :
    parseThreads n.threadsText = (n.base, Nat.toDigits 10 count) := by
  have hslash : '/' ∉ "threads:".toList ++ Nat.toDigits 10 count := by
    rw [List.mem_append, not_or]
    exact ⟨by decide, notMem_toDigits (by decide) count⟩
  have htext : n.threadsText = n.base ++ '/' :: ("threads:".toList ++ Nat.toDigits 10 count) := by
    rw [Name.threadsText, hthreads]
    rfl
  have hcolon : rsplit ':' ("threads:".toList ++ Nat.toDigits 10 count) =
      ("threads".toList, Nat.toDigits 10 count) :=
    rsplit_append (notMem_toDigits (by decide) count) "threads".toList
  rw [parseThreads, htext, rsplit_append hslash]
  dsimp only
  rw [if_pos (List.prefix_append _ _), hcolon]

theorem parseThreads_iff_of_none (hthreads : n.threads = none) :
    parseThreads n.threadsText = (n.base, ['1']) ↔ ¬n.Bare := by
  have htext : n.threadsText = n.base := by
    rw [Name.threadsText, hthreads, Option.elim_none, List.append_nil]
  rw [htext, parseThreads]
  by_cases hslash : '/' ∈ n.base
  · -- The last section of the base name does not start with `threads:`.
    obtain ⟨s, u, hbase, hu⟩ := exists_rsplit hslash
    have hprefix : ¬"threads:".toList <+: u := by
      rintro ⟨t, rfl⟩
      exact hu (List.mem_append_right _ (n.base_ne s t (by rw [hbase]; simp)))
    refine iff_of_true ?_ fun hbare => hbare.2.2.1 hslash
    rw [hbase, rsplit_append hu]
    exact if_neg hprefix
  · rw [rsplit_of_notMem hslash]
    dsimp only
    split_ifs with hprefix
    · rw [Prod.mk.injEq, eq_self, true_and, Name.Bare]
      tauto
    · exact iff_of_true rfl fun hbare => hprefix hbare.2.1

theorem parseThreads_iff :
    parseThreads n.threadsText = (n.base, n.parsed.threadCount) ↔ ¬n.Bare := by
  unfold Name.parsed
  cases hthreads : n.threads with
  | none => exact parseThreads_iff_of_none hthreads
  | some count =>
    refine iff_of_true (parseThreads_of_threads hthreads) fun hbare => ?_
    rw [hbare.1] at hthreads
    cases hthreads

theorem parseBmName_iff : parseBmName n.text = n.parsed ↔ n.StatisticSeen ∧ ¬n.Bare := by
  constructor
  · intro h
    have hseen := statisticSeen_of_parseStatistic (congrArg BenchmarkName.statisticType h)
    refine ⟨hseen, parseThreads_iff.mp ?_⟩
    rw [parseBmName, parseStatistic_text hseen] at h
    exact Prod.ext (congrArg BenchmarkName.baseName h) (congrArg BenchmarkName.threadCount h)
  · rintro ⟨hseen, hbare⟩
    rw [parseBmName, parseStatistic_text hseen]
    dsimp only
    rw [parseThreads_iff.mpr hbare]
    rfl

/-! ## The rows of a report -/

theorem keptRows_cons (row : Name × R) (rows : List (Name × R)) (b c : List Char) :
    keptRows (row :: rows) b c = keptRows [row] b c ++ keptRows rows b c := by
  rw [keptRows, ← List.singleton_append, List.filter_append, List.map_append]
  rfl

theorem rowsOf_set {reports : BenchmarkReports V R} {report : ThreadsReport V R} {obj : BenchmarkName}
    (hreport : ∀ c, (report.threadBenchmarkMap.get c).getD [] = rowsOf reports obj.baseName c)
    (row : R) (b c : List Char) :
    rowsOf (reports.set obj.baseName (report.addReport obj row)) b c =
      rowsOf reports b c ++ if obj.baseName = b ∧ obj.threadCount = c then [row] else [] := by
  rw [rowsOf, get_set]
  by_cases hb : b = obj.baseName
  · rw [if_pos hb, Option.bind_some, ThreadsReport.addReport, get_set, hreport, hb]
    by_cases hc : c = obj.threadCount
    · rw [if_pos hc, if_pos ⟨rfl, hc.symm⟩, hc, Option.getD_some]
    · rw [if_neg hc, if_neg fun h => hc h.2.symm, hreport, List.append_nil]
  · rw [if_neg hb, if_neg fun h => hb h.1.symm, List.append_nil]
    rfl

theorem threadBenchmarkMap_of_newThreadsReport {context : Dict String V} {fresh : ThreadsReport V R}
    (h : newThreadsReport context = .ok fresh) : fresh.threadBenchmarkMap = empty := by
  unfold newThreadsReport at h
  split at h
  · cases h
  · split_ifs at h
    cases h
    rfl

/-- A row with a name that is parsed as it was formatted is kept unless it has a statistic. -/
theorem parseRow_of_parsed {context : Dict String V} {fresh : ThreadsReport V R}
    (hfresh : newThreadsReport context = .ok fresh) (h : parseBmName n.text = n.parsed)
    (reports : BenchmarkReports V R) (row : R) :
    ∃ reports', parseRow context reports (n.text, row) = .ok reports' ∧
      ∀ b c, rowsOf reports' b c = rowsOf reports b c ++ keptRows [(n, row)] b c := by
  have hkept : ∀ b c, keptRows [(n, row)] b c =
      if n.parsed = ⟨b, c, none⟩ then [row] else [] := by
    intro b c
    rw [keptRows, List.filter_singleton]
    split_ifs <;> simp_all
  unfold parseRow
  dsimp only
  rw [h]
  cases hstat : n.statistic with
  | some stat =>
    have hsome : n.parsed.statisticType = some stat.text := by rw [Name.parsed, hstat, Option.map_some]
    rw [hsome, Option.isSome_some, if_pos rfl]
    refine ⟨reports, rfl, fun b c => ?_⟩
    rw [hkept, if_neg, List.append_nil]
    intro heq
    rw [heq] at hsome
    cases hsome
  | none =>
    have hnone : n.parsed.statisticType = none := by rw [Name.parsed, hstat, Option.map_none]
    have hiff : ∀ b c, n.parsed = ⟨b, c, none⟩ ↔ n.parsed.baseName = b ∧ n.parsed.threadCount = c := by
      intro b c
      rw [← hnone, BenchmarkName.mk.injEq]
      simp
    rw [hnone, Option.isSome_none, if_neg Bool.false_ne_true]
    cases hget : reports.get n.parsed.baseName with
    | some report =>
      refine ⟨_, rfl, fun b c => ?_⟩
      simp only [hkept, hiff]
      refine rowsOf_set (fun c => ?_) row b c
      rw [rowsOf, hget, Option.bind_some]
    | none =>
      rw [hfresh]
      refine ⟨_, rfl, fun b c => ?_⟩
      simp only [hkept, hiff]
      refine rowsOf_set (fun c => ?_) row b c
      rw [rowsOf, hget, Option.bind_none, threadBenchmarkMap_of_newThreadsReport hfresh, get_empty]

theorem parseReport_of_parsed {context : Dict String V} {fresh : ThreadsReport V R}
    (hfresh : newThreadsReport context = .ok fresh) {rows : List (Name × R)}
    (h : ∀ row ∈ rows, parseBmName row.1.text = row.1.parsed) (reports : BenchmarkReports V R) :
    ∃ reports', parseReport reports ⟨context, rows.map fun row => (row.1.text, row.2)⟩ = .ok reports' ∧
      ∀ b c, rowsOf reports' b c = rowsOf reports b c ++ keptRows rows b c := by
  induction rows generalizing reports with
  | nil => exact ⟨reports, rfl, fun b c => (List.append_nil _).symm⟩
  | cons row rows ih =>
    obtain ⟨hrow, hrows⟩ := List.forall_mem_cons.mp h
    obtain ⟨reports₁, hstep, hkept⟩ := parseRow_of_parsed hfresh hrow reports row.2
    obtain ⟨reports₂, hrun, hrest⟩ := ih hrows reports₁
    refine ⟨reports₂, ?_, fun b c => ?_⟩
    · rw [parseReport, List.map_cons, List.foldlM_cons, hstep]
      exact hrun
    · rw [hrest, hkept, keptRows_cons row rows, List.append_assoc]

/-- **The names are parsed as they were formatted, and a report keeps exactly the rows without a
statistic, if and only if** the underscores of each name are as the hook expects them and no base name
is itself taken for a number of threads. -/
theorem parse_report_iff (rows : List (Name × R)) :
    ((∀ row ∈ rows, parseBmName row.1.text = row.1.parsed) ∧
      ∀ (context : Dict String V) (fresh : ThreadsReport V R), newThreadsReport context = .ok fresh →
        ∀ reports : BenchmarkReports V R, ∃ reports',
          parseReport reports ⟨context, rows.map fun row => (row.1.text, row.2)⟩ = .ok reports' ∧
          ∀ b c, rowsOf reports' b c = rowsOf reports b c ++ keptRows rows b c) ↔
    ∀ row ∈ rows, row.1.StatisticSeen ∧ ¬row.1.Bare := by
  constructor
  · exact fun h row hrow => parseBmName_iff.mp (h.1 row hrow)
  · intro h
    have hparsed : ∀ row ∈ rows, parseBmName row.1.text = row.1.parsed :=
      fun row hrow => parseBmName_iff.mpr (h row hrow)
    exact ⟨hparsed, fun context fresh hfresh reports => parseReport_of_parsed hfresh hparsed reports⟩

end Names

/-! ## A base name with two underscores -/

def setInsert : Name where
  base := "BM_Set_Insert".toList
  threads := none
  statistic := none
  one_le_threads := by simp
  base_ne s t h := by
    have hslash : '/' ∉ "BM_Set_Insert".toList := by decide
    rw [h] at hslash
    exact absurd (List.mem_append_left _ (List.mem_append_right _ (List.mem_cons_self ..))) hslash

/-- **A benchmark that loses its data.** The last word of its name is taken for a statistic. -/
theorem setInsert_dropped :
    parseBmName setInsert.text = ⟨"BM_Set".toList, ['1'], some "Insert".toList⟩ ∧
    parseBmName setInsert.text ≠ setInsert.parsed ∧
    ∀ (context : Dict String ℤ) (row : ℤ),
      parseReport empty ⟨context, [(setInsert.text, row)]⟩ = .ok empty := by
  have hparse : parseBmName setInsert.text = ⟨"BM_Set".toList, ['1'], some "Insert".toList⟩ := by decide
  refine ⟨hparse, by decide, fun context row => ?_⟩
  rw [parseReport, List.foldlM_cons, parseRow, hparse]
  rfl

end MongoTests.Resmoke.Benchmark
