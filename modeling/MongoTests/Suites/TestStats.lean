import Mathlib.Algebra.BigOperators.Group.Finset.Basic
import Mathlib.Algebra.Order.BigOperators.Group.List
import Mathlib.Algebra.Order.Field.Rat
import Mathlib.Tactic.FieldSimp
import Mathlib.Tactic.Ring
import MongoTests.Lib.Dict
import MongoTests.Lib.SortByKey
import MongoTests.Suites.Names

/-!
# Runtimes of tests

`TestStats` of `buildscripts/util/teststats.py`, with the functions on names of
`buildscripts/util/testname.py`. Runtimes are rational numbers; paths are those of `posixpath`.

* `normalizeTestFile`, `splitTestHookName`, `getShortNameFromTestFile`.
* `TestStats`, `addStats`; `getTestsRuntimes`.
-/

namespace MongoTests.Suites

open MongoTests.Lib

/-! ## Names of tests -/

section Names

def isResmokeHook (testName : String) : Bool := ':' ∈ testName.toList

/-- The name of the test and that of the hook. -/
def splitTestHookName (hookName : String) : String × String :=
  let hookNameParts := (hookName.toList.splitOn ':').map String.ofList
  (hookNameParts.getD 0 "", hookNameParts.getD 1 "")

/-- `os.path.splitext`: the last dot of the last component starts the extension, unless only dots come
before it there. -/
def splitext (path : String) : String × String :=
  let base := path.toList.reverse.takeWhile (· ≠ '/')
  let ext := base.takeWhile (· ≠ '.')
  if (base.drop (ext.length + 1)).any (· ≠ '.') then
    (String.ofList (path.toList.take (path.toList.length - (ext.length + 1))),
      String.ofList ('.' :: ext.reverse))
  else (path, "")

def getShortNameFromTestFile (testFile : String) : String := (splitext (basename testFile)).1

/-- `replace("\\", "/")` -/
def toPosix (testFile : String) : String :=
  String.ofList (testFile.toList.map fun c => if c = '\\' then '/' else c)

def normalizeTestFile (testFile : String) : String :=
  if '\\' ∈ testFile.toList then
    let posixTestFile := toPosix testFile
    let (testFileRoot, testFileExt) := splitext posixTestFile
    if testFileExt = ".exe" then testFileRoot else posixTestFile
  else testFile

/-- `normalize_test_name` -/
def normalizeTestName (testName : String) : String := toPosix testName

end Names

/-! ## Statistics -/

section Model

/-- A document of the `test_stats` endpoint. -/
structure TestStatsDoc where
  testFile : String
  avgDurationPass : ℚ
  numPass : ℕ
  deriving DecidableEq

structure RuntimeInfo where
  duration : ℚ
  numRun : ℕ
  deriving DecidableEq

/-- `_average` -/
def average (valueA : ℚ) (numA : ℕ) (valueB : ℚ) (numB : ℕ) : ℚ :=
  if numA + numB = 0 then 0 else (valueA * numA + valueB * numB) / (numA + numB : ℕ)

/-- `_add_runtime_info` -/
def addRuntimeInfo (runtimeInfo : Option RuntimeInfo) (duration : ℚ) (numRun : ℕ) : RuntimeInfo :=
  match runtimeInfo with
  | none => ⟨duration, numRun⟩
  | some info => ⟨average info.duration info.numRun duration numRun, info.numRun + numRun⟩

structure TestRuntime where
  testName : String
  runtime : ℚ
  deriving DecidableEq

structure TestStats where
  runtimeByTest : Dict String RuntimeInfo
  /-- By test name and hook name. -/
  hookRuntimeByTest : Dict String (Dict String RuntimeInfo)

namespace TestStats

def empty : TestStats := ⟨Dict.empty, Dict.empty⟩

def addTestStats (s : TestStats) (testFile : String) (duration : ℚ) (numRun : ℕ) : TestStats where
  runtimeByTest := s.runtimeByTest.set testFile
    (addRuntimeInfo (s.runtimeByTest.get testFile) duration numRun)
  hookRuntimeByTest := s.hookRuntimeByTest

/-- The hooks that are recorded for a test. -/
def hooks (s : TestStats) (testName : String) : Dict String RuntimeInfo :=
  (s.hookRuntimeByTest.get testName).getD Dict.empty

def addTestHookStats (s : TestStats) (testFile : String) (duration : ℚ) (numRun : ℕ) : TestStats where
  runtimeByTest := s.runtimeByTest
  hookRuntimeByTest :=
    let (testName, hookName) := splitTestHookName testFile
    let hookInfo := s.hooks testName
    s.hookRuntimeByTest.set testName
      (hookInfo.set hookName (addRuntimeInfo (hookInfo.get hookName) duration numRun))

def addStats (s : TestStats) (testStats : TestStatsDoc) : TestStats :=
  let testFile := normalizeTestFile testStats.testFile
  if isResmokeHook testFile then
    s.addTestHookStats testFile testStats.avgDurationPass testStats.numPass
  else s.addTestStats testFile testStats.avgDurationPass testStats.numPass

def new (evgTestStatsResults : List TestStatsDoc) : TestStats :=
  evgTestStatsResults.foldl addStats empty

/-- The entry of a test. -/
def testRuntime (s : TestStats) (testFile : String) (runtimeInfo : RuntimeInfo) : TestRuntime where
  testName := normalizeTestName testFile
  runtime := (s.hooks (getShortNameFromTestFile testFile)).items.foldl
    (fun duration hook => duration + hook.2.duration) runtimeInfo.duration

def getTestsRuntimes (s : TestStats) : List TestRuntime :=
  (s.runtimeByTest.items.map fun p => s.testRuntime p.1 p.2).mergeSort
    fun x y => y.runtime ≤ x.runtime

end TestStats

end Model

/-! ## Averages -/

section Averages

variable {docs docs' : List TestStatsDoc} {d : TestStatsDoc} {o : Option RuntimeInfo}

/-- The time that was spent in passes. -/
def TestStatsDoc.total (d : TestStatsDoc) : ℚ := d.avgDurationPass * (d.numPass : ℚ)

def numPasses (docs : List TestStatsDoc) : ℕ := (docs.map TestStatsDoc.numPass).sum

def totalDuration (docs : List TestStatsDoc) : ℚ := (docs.map TestStatsDoc.total).sum

/-- **The weighted mean** of the durations, 0 without passes. -/
def meanDuration (docs : List TestStatsDoc) : ℚ :=
  if numPasses docs = 0 then 0 else totalDuration docs / (numPasses docs : ℚ)

theorem meanDuration_perm (h : docs.Perm docs') : meanDuration docs = meanDuration docs' := by
  have hpasses : numPasses docs = numPasses docs' := (h.map _).sum_eq
  have htotal : totalDuration docs = totalDuration docs' := (h.map _).sum_eq
  rw [meanDuration, hpasses, htotal, meanDuration]

theorem numPasses_concat : numPasses (docs ++ [d]) = numPasses docs + d.numPass := by
  simp [numPasses]

theorem totalDuration_concat : totalDuration (docs ++ [d]) = totalDuration docs + d.total := by
  simp [totalDuration]

theorem meanDuration_mul (docs : List TestStatsDoc) :
    meanDuration docs * (numPasses docs : ℚ) = totalDuration docs := by
  rw [meanDuration]
  split_ifs with hzero
  · have htotal : ∀ x ∈ docs.map TestStatsDoc.total, x = 0 := by
      intro x hx
      obtain ⟨d, hd, rfl⟩ := List.mem_map.mp hx
      have hpass := List.sum_eq_zero_iff.mp hzero d.numPass (List.mem_map_of_mem hd)
      rw [TestStatsDoc.total, hpass, Nat.cast_zero, mul_zero]
    rw [zero_mul, totalDuration, List.sum_eq_zero htotal]
  · exact div_mul_cancel₀ _ (Nat.cast_ne_zero.mpr hzero)

/-- What is recorded for some documents: their mean, and the number of passes. -/
inductive Summarizes : Option RuntimeInfo → List TestStatsDoc → Prop
  | missing : Summarizes none []
  | entry {docs : List TestStatsDoc} (hne : docs ≠ []) :
      Summarizes (some ⟨meanDuration docs, numPasses docs⟩) docs

/-- **Averages of averages are averages.** -/
theorem Summarizes.concat (h : Summarizes o docs) (hd : d.numPass = 0 → d.avgDurationPass = 0) :
    Summarizes (some (addRuntimeInfo o d.avgDurationPass d.numPass)) (docs ++ [d]) := by
  suffices hinfo : addRuntimeInfo o d.avgDurationPass d.numPass =
      ⟨meanDuration (docs ++ [d]), numPasses (docs ++ [d])⟩ by
    rw [hinfo]
    exact .entry (by simp)
  rw [meanDuration, numPasses_concat, totalDuration_concat]
  cases h with
  | missing =>
    have hmean : (if d.numPass = 0 then 0 else d.total / (d.numPass : ℚ)) = d.avgDurationPass := by
      split_ifs with hzero
      · exact (hd hzero).symm
      · exact mul_div_cancel_right₀ _ (Nat.cast_ne_zero.mpr hzero)
    have hpasses : numPasses [] = 0 := rfl
    have htotal : totalDuration [] = 0 := rfl
    rw [hpasses, htotal, zero_add, zero_add, hmean]
    rfl
  | entry hne =>
    rw [addRuntimeInfo, average, meanDuration_mul]
    rfl

end Averages

/-! ## What is recorded -/

section Recorded

variable {docs docs' : List TestStatsDoc} {d : TestStatsDoc} {testFile testName hookName : String}

/-- The normalized test file of a document. -/
def TestStatsDoc.file (d : TestStatsDoc) : String := normalizeTestFile d.testFile

/-- The documents of a test. -/
def testDocs (docs : List TestStatsDoc) (testFile : String) : List TestStatsDoc :=
  docs.filter fun d => !isResmokeHook d.file && d.file = testFile

/-- The documents of hooks. -/
def hookDocs (docs : List TestStatsDoc) (testName hookName : String) : List TestStatsDoc :=
  docs.filter fun d => isResmokeHook d.file && splitTestHookName d.file = (testName, hookName)

/-- The statistics after some documents. -/
structure Recorded (s : TestStats) (docs : List TestStatsDoc) : Prop where
  tests : ∀ testFile, Summarizes (s.runtimeByTest.get testFile) (testDocs docs testFile)
  hooks : ∀ testName hookName,
    Summarizes ((s.hooks testName).get hookName) (hookDocs docs testName hookName)

theorem testDocs_concat :
    testDocs (docs ++ [d]) testFile =
      testDocs docs testFile ++ if isResmokeHook d.file = false ∧ d.file = testFile then [d] else [] := by
  rw [testDocs, List.filter_append, List.filter_singleton, testDocs]
  cases hhook : isResmokeHook d.file with
  | true => simp
  | false => simp

theorem hookDocs_concat :
    hookDocs (docs ++ [d]) testName hookName =
      hookDocs docs testName hookName ++
        if isResmokeHook d.file = true ∧ splitTestHookName d.file = (testName, hookName) then [d]
        else [] := by
  rw [hookDocs, List.filter_append, List.filter_singleton, hookDocs]
  cases hhook : isResmokeHook d.file with
  | true => simp
  | false => simp

theorem testDocs_concat_of_hook (h : isResmokeHook d.file = true) :
    testDocs (docs ++ [d]) testFile = testDocs docs testFile := by
  rw [testDocs_concat, h]
  simp

theorem hookDocs_concat_of_test (h : isResmokeHook d.file = false) :
    hookDocs (docs ++ [d]) testName hookName = hookDocs docs testName hookName := by
  rw [hookDocs_concat, h]
  simp

theorem get_addTestStats (s : TestStats) (file : String) (duration : ℚ) (numRun : ℕ) :
    (s.addTestStats file duration numRun).runtimeByTest.get testFile =
      if testFile = file then
        some (addRuntimeInfo (s.runtimeByTest.get testFile) duration numRun)
      else s.runtimeByTest.get testFile := by
  rw [TestStats.addTestStats, Dict.get_set]
  split_ifs with hfile
  · rw [hfile]
  · rfl

theorem get_hooks_addTestHookStats (s : TestStats) (file : String) (duration : ℚ) (numRun : ℕ) :
    ((s.addTestHookStats file duration numRun).hooks testName).get hookName =
      if splitTestHookName file = (testName, hookName) then
        some (addRuntimeInfo ((s.hooks testName).get hookName) duration numRun)
      else (s.hooks testName).get hookName := by
  have hhooks : (s.addTestHookStats file duration numRun).hooks testName =
      if testName = (splitTestHookName file).1 then
        (s.hooks testName).set (splitTestHookName file).2
          (addRuntimeInfo ((s.hooks testName).get (splitTestHookName file).2) duration numRun)
      else s.hooks testName := by
    rw [TestStats.addTestHookStats, TestStats.hooks, Dict.get_set]
    split_ifs with htest
    · rw [htest, Option.getD_some]
    · rfl
  rw [hhooks]
  by_cases htest : testName = (splitTestHookName file).1
  · rw [if_pos htest, Dict.get_set]
    by_cases hhook : hookName = (splitTestHookName file).2
    · rw [if_pos hhook, if_pos (Prod.ext htest.symm hhook.symm), hhook]
    · rw [if_neg hhook, if_neg fun h => hhook (congrArg Prod.snd h).symm]
  · rw [if_neg htest, if_neg fun h => htest (congrArg Prod.fst h).symm]

theorem Recorded.addStats {s : TestStats} (h : Recorded s docs)
    (hd : d.numPass = 0 → d.avgDurationPass = 0) : Recorded (s.addStats d) (docs ++ [d]) := by
  have hstats : s.addStats d = if isResmokeHook d.file = true then
      s.addTestHookStats d.file d.avgDurationPass d.numPass
      else s.addTestStats d.file d.avgDurationPass d.numPass := rfl
  by_cases hhook : isResmokeHook d.file = true
  · rw [hstats, if_pos hhook]
    refine ⟨fun testFile => ?_, fun testName hookName => ?_⟩
    · rw [testDocs_concat_of_hook hhook]
      exact h.tests testFile
    · rw [get_hooks_addTestHookStats, hookDocs_concat]
      simp only [hhook, true_and]
      split_ifs
      · exact (h.hooks testName hookName).concat hd
      · rw [List.append_nil]
        exact h.hooks testName hookName
  · rw [hstats, if_neg hhook]
    have htest : isResmokeHook d.file = false := Bool.eq_false_iff.mpr hhook
    refine ⟨fun testFile => ?_, fun testName hookName => ?_⟩
    · rw [get_addTestStats, testDocs_concat]
      simp only [htest, true_and, eq_comm]
      split_ifs
      · exact (h.tests testFile).concat hd
      · rw [List.append_nil]
        exact h.tests testFile
    · rw [hookDocs_concat_of_test htest]
      exact h.hooks testName hookName

theorem recorded_new (h : ∀ d ∈ docs, d.numPass = 0 → d.avgDurationPass = 0) :
    Recorded (TestStats.new docs) docs := by
  induction docs using List.reverseRecOn with
  | nil => exact ⟨fun _ => .missing, fun _ _ => .missing⟩
  | append_singleton docs d ih =>
    rw [TestStats.new, List.foldl_append]
    exact (ih fun d hd => h d (List.mem_append_left _ hd)).addStats
      (h d (List.mem_append_right _ (List.mem_singleton_self d)))

end Recorded

/-! ## Spellings -/

section Spellings

variable {p w testFile : String}

theorem backslash_not_mem_toPosix (testFile : String) : '\\' ∉ (toPosix testFile).toList := by
  intro h
  rw [toPosix, String.toList_ofList] at h
  obtain ⟨c, -, hc⟩ := List.mem_map.mp h
  split_ifs at hc with hback
  · cases hc
  · exact hback hc

theorem toPosix_eq_self (h : '\\' ∉ p.toList) : toPosix p = p := by
  have hmap : p.toList.map (fun c => if c = '\\' then '/' else c) = p.toList.map id := by
    refine List.map_congr_left fun c hc => if_neg ?_
    rintro rfl
    exact h hc
  rw [toPosix, hmap, List.map_id, String.ofList_toList]

theorem splitext_fst_subset (path : String) : (splitext path).1.toList ⊆ path.toList := by
  unfold splitext
  dsimp only
  split_ifs
  · rw [String.toList_ofList]
    exact List.take_subset _ _
  · exact List.Subset.refl _

theorem backslash_not_mem_normalizeTestFile (testFile : String) :
    '\\' ∉ (normalizeTestFile testFile).toList := by
  unfold normalizeTestFile
  dsimp only
  split_ifs with hback hext
  · exact fun h => backslash_not_mem_toPosix testFile (splitext_fst_subset _ h)
  · exact backslash_not_mem_toPosix testFile
  · exact hback

theorem normalizeTestFile_eq_self (h : '\\' ∉ p.toList) : normalizeTestFile p = p := if_neg h

theorem normalizeTestName_file (d : TestStatsDoc) : normalizeTestName d.file = d.file :=
  toPosix_eq_self (backslash_not_mem_normalizeTestFile d.testFile)

/-- The extension of an executable on Windows is split off a name that has more than dots. -/
theorem splitext_append_exe (p : String) : splitext (p ++ ".exe") =
    if (basename p).toList.any (· ≠ '.') then (p, ".exe") else (p ++ ".exe", "") := by
  have hlist : (p ++ ".exe").toList = p.toList ++ ['.', 'e', 'x', 'e'] := by
    rw [String.toList_append]
    rfl
  have hbase : (p.toList ++ ['.', 'e', 'x', 'e']).reverse.takeWhile (· ≠ '/') =
      'e' :: 'x' :: 'e' :: '.' :: p.toList.reverse.takeWhile (· ≠ '/') := by
    rw [List.reverse_append]
    rfl
  have hext : ('e' :: 'x' :: 'e' :: '.' :: p.toList.reverse.takeWhile (· ≠ '/')).takeWhile
      (· ≠ '.') = ['e', 'x', 'e'] := rfl
  have hname : (('e' :: 'x' :: 'e' :: '.' :: p.toList.reverse.takeWhile (· ≠ '/')).drop
      (['e', 'x', 'e'].length + 1)).any (· ≠ '.') = (basename p).toList.any (· ≠ '.') := by
    rw [basename, String.toList_ofList, List.any_reverse]
    rfl
  have hroot : (p.toList ++ ['.', 'e', 'x', 'e']).take
      ((p.toList ++ ['.', 'e', 'x', 'e']).length - 4) = p.toList := by
    rw [List.length_append]
    exact List.take_left
  unfold splitext
  dsimp only
  rw [hlist, hbase, hext, hname]
  split_ifs with h
  · refine Prod.ext ?_ rfl
    show String.ofList ((p.toList ++ ['.', 'e', 'x', 'e']).take
      ((p.toList ++ ['.', 'e', 'x', 'e']).length - 4)) = p
    rw [hroot, String.ofList_toList]
  · rfl

/-- The extension of an executable on Windows is dropped. -/
theorem splitext_exe (h : ∃ c ∈ (basename p).toList, c ≠ '.') :
    splitext (p ++ ".exe") = (p, ".exe") := by
  obtain ⟨c, hc, hne⟩ := h
  rw [splitext_append_exe, if_pos (List.any_eq_true.mpr ⟨c, hc, decide_eq_true hne⟩)]

/-- `w` spells the path `p` with backslashes, and with `.exe` behind the name of a program. -/
inductive WindowsSpelling (p w : String) : Prop
  | script (hback : '\\' ∈ w.toList) (hpath : toPosix w = p) (hext : (splitext p).2 ≠ ".exe")
  | program (hback : '\\' ∈ w.toList) (hpath : toPosix w = p ++ ".exe")
      (hname : ∃ c ∈ (basename p).toList, c ≠ '.')

theorem WindowsSpelling.normalizeTestFile_eq (h : WindowsSpelling p w) : normalizeTestFile w = p := by
  unfold normalizeTestFile
  dsimp only
  cases h with
  | script hback hpath hext => rw [if_pos hback, hpath, if_neg hext]
  | program hback hpath hname => rw [if_pos hback, hpath, splitext_exe hname, if_pos rfl]

theorem WindowsSpelling.normalizeTestFile_posix (h : WindowsSpelling p w) :
    normalizeTestFile p = p := by
  rw [← h.normalizeTestFile_eq]
  exact normalizeTestFile_eq_self (backslash_not_mem_normalizeTestFile w)

end Spellings

/-! ## Runtimes -/

section Runtimes

variable {docs docs' : List TestStatsDoc} {s : TestStats} {testFile testName hookName : String}

/-- The hooks for which there are documents. -/
def hookNames (docs : List TestStatsDoc) (testName : String) : Finset String :=
  ((docs.filter fun d => isResmokeHook d.file && (splitTestHookName d.file).1 = testName).map
    fun d => (splitTestHookName d.file).2).toFinset

/-- The runtime of a test: its mean, and that of every hook that was recorded under its short name. -/
def runtimeOf (docs : List TestStatsDoc) (testFile : String) : ℚ :=
  meanDuration (testDocs docs testFile) +
    ∑ hookName ∈ hookNames docs (getShortNameFromTestFile testFile),
      meanDuration (hookDocs docs (getShortNameFromTestFile testFile) hookName)

theorem Summarizes.eq_some {o : Option RuntimeInfo} {info : RuntimeInfo} (h : Summarizes o docs)
    (ho : o = some info) : docs ≠ [] ∧ info.duration = meanDuration docs := by
  subst ho
  cases h with
  | entry hne => exact ⟨hne, rfl⟩

theorem Summarizes.exists_iff {o : Option RuntimeInfo} (h : Summarizes o docs) :
    (∃ info, o = some info) ↔ docs ≠ [] := by
  cases h with
  | missing => simp
  | entry hne => simp [hne]

theorem testDocs_ne_nil :
    testDocs docs testFile ≠ [] ↔ ∃ d ∈ docs, isResmokeHook d.file = false ∧ d.file = testFile := by
  simp [testDocs, List.filter_eq_nil_iff]

theorem hookDocs_ne_nil : hookDocs docs testName hookName ≠ [] ↔ hookName ∈ hookNames docs testName := by
  simp [hookDocs, hookNames, List.filter_eq_nil_iff, Prod.ext_iff, and_assoc]

theorem Recorded.hookNames_eq (h : Recorded s docs) (testName : String) :
    (s.hooks testName).keys.toFinset = hookNames docs testName := by
  ext hookName
  rw [List.mem_toFinset, Dict.mem_keys, (h.hooks testName hookName).exists_iff, hookDocs_ne_nil]

theorem foldl_add_eq {α : Type} (f : α → ℚ) (l : List α) (a : ℚ) :
    l.foldl (fun a x => a + f x) a = a + (l.map f).sum := by
  induction l generalizing a with
  | nil => simp
  | cons x l ih => rw [List.foldl_cons, ih, List.map_cons, List.sum_cons, add_assoc]

/-- The runtime that is reported. -/
theorem Recorded.runtime_testRuntime (h : Recorded s docs) {info : RuntimeInfo}
    (hinfo : s.runtimeByTest.get testFile = some info) :
    (s.testRuntime testFile info).runtime = runtimeOf docs testFile := by
  have hhooks : (s.hooks (getShortNameFromTestFile testFile)).items.map (fun hook => hook.2.duration) =
      (s.hooks (getShortNameFromTestFile testFile)).keys.map fun hookName =>
        meanDuration (hookDocs docs (getShortNameFromTestFile testFile) hookName) := by
    rw [Dict.keys, List.map_map]
    refine List.map_congr_left fun hook hmem => ?_
    exact ((h.hooks _ hook.1).eq_some (Dict.mem_items.mp hmem)).2
  have hnodup : (s.hooks (getShortNameFromTestFile testFile)).keys.Nodup := Dict.nodup _
  rw [TestStats.testRuntime, runtimeOf]
  dsimp only
  rw [foldl_add_eq, hhooks, ((h.tests testFile).eq_some hinfo).2, ← h.hookNames_eq,
    List.sum_toFinset _ hnodup]

theorem Recorded.mem_items (h : Recorded s docs) {info : RuntimeInfo}
    (hmem : (testFile, info) ∈ s.runtimeByTest.items) :
    (∃ d ∈ docs, isResmokeHook d.file = false ∧ d.file = testFile) ∧
    s.testRuntime testFile info = ⟨testFile, runtimeOf docs testFile⟩ := by
  have hget := Dict.mem_items.mp hmem
  have hdoc := testDocs_ne_nil.mp ((h.tests testFile).eq_some hget).1
  refine ⟨hdoc, ?_⟩
  have hname : (s.testRuntime testFile info).testName = testFile := by
    obtain ⟨d, -, -, rfl⟩ := hdoc
    exact normalizeTestName_file d
  calc s.testRuntime testFile info
      = ⟨(s.testRuntime testFile info).testName, (s.testRuntime testFile info).runtime⟩ := rfl
    _ = ⟨testFile, runtimeOf docs testFile⟩ := by rw [hname, h.runtime_testRuntime hget]

theorem perm_getTestsRuntimes (s : TestStats) :
    s.getTestsRuntimes.Perm (s.runtimeByTest.items.map fun p => s.testRuntime p.1 p.2) :=
  List.mergeSort_perm _ _

theorem Recorded.map_testName (h : Recorded s docs) :
    s.getTestsRuntimes.Perm (s.runtimeByTest.keys.map fun testFile =>
      (⟨testFile, runtimeOf docs testFile⟩ : TestRuntime)) := by
  refine (perm_getTestsRuntimes s).trans (List.Perm.of_eq ?_)
  rw [Dict.keys, List.map_map]
  exact List.map_congr_left fun p hp => (h.mem_items hp).2

theorem Recorded.nodup (h : Recorded s docs) :
    (s.getTestsRuntimes.map TestRuntime.testName).Nodup := by
  refine (h.map_testName.map TestRuntime.testName).nodup_iff.mpr ?_
  rw [List.map_map]
  exact (List.map_id _).symm ▸ s.runtimeByTest.nodup

theorem Recorded.mem_getTestsRuntimes (h : Recorded s docs) {test : TestRuntime} :
    test ∈ s.getTestsRuntimes ↔
      (∃ d ∈ docs, isResmokeHook d.file = false ∧ d.file = test.testName) ∧
      test.runtime = runtimeOf docs test.testName := by
  rw [h.map_testName.mem_iff, List.mem_map, ← testDocs_ne_nil]
  constructor
  · rintro ⟨testFile, hmem, rfl⟩
    exact ⟨(h.tests testFile).exists_iff.mp (Dict.mem_keys.mp hmem), rfl⟩
  · rintro ⟨hdocs, hruntime⟩
    refine ⟨test.testName, Dict.mem_keys.mpr ((h.tests _).exists_iff.mpr hdocs), ?_⟩
    rw [← hruntime]

theorem sorted_getTestsRuntimes (s : TestStats) :
    s.getTestsRuntimes.Pairwise fun x y => y.runtime ≤ x.runtime :=
  pairwise_mergeSort_key (fun x : TestRuntime => OrderDual.toDual x.runtime) _

/-! ## Orders of the documents -/

theorem testDocs_perm (h : docs.Perm docs') (testFile : String) :
    (testDocs docs testFile).Perm (testDocs docs' testFile) :=
  h.filter _

theorem hookDocs_perm (h : docs.Perm docs') (testName hookName : String) :
    (hookDocs docs testName hookName).Perm (hookDocs docs' testName hookName) :=
  h.filter _

theorem runtimeOf_perm (h : docs.Perm docs') (testFile : String) :
    runtimeOf docs testFile = runtimeOf docs' testFile := by
  have hnames : hookNames docs (getShortNameFromTestFile testFile) =
      hookNames docs' (getShortNameFromTestFile testFile) :=
    List.toFinset_eq_of_perm _ _ ((h.filter _).map _)
  rw [runtimeOf, runtimeOf, hnames, meanDuration_perm (testDocs_perm h testFile)]
  exact congrArg _ (Finset.sum_congr rfl fun hookName _ => meanDuration_perm (hookDocs_perm h _ _))

theorem Recorded.perm {s' : TestStats} (h : Recorded s docs) (h' : Recorded s' docs')
    (hperm : docs.Perm docs') : s'.getTestsRuntimes.Perm s.getTestsRuntimes := by
  refine (List.perm_ext_iff_of_nodup (.of_map _ h'.nodup) (.of_map _ h.nodup)).mpr fun test => ?_
  rw [h.mem_getTestsRuntimes, h'.mem_getTestsRuntimes, runtimeOf_perm hperm]
  simp only [hperm.mem_iff]

/-- **Runtimes are weighted means.** For documents of which those without passes have the duration
0: there is one entry for each file of a test, its runtime is the mean of its documents and that of
every hook that was recorded under its short name, and the entries go down by runtime; documents in
another order have the same entries, and a path in Windows spelling counts for the POSIX one. -/
theorem getTestsRuntimes_correct (h : ∀ d ∈ docs, d.numPass = 0 → d.avgDurationPass = 0) :
    ((TestStats.new docs).getTestsRuntimes.map TestRuntime.testName).Nodup ∧
    (∀ test, test ∈ (TestStats.new docs).getTestsRuntimes ↔
      (∃ d ∈ docs, isResmokeHook d.file = false ∧ d.file = test.testName) ∧
      test.runtime = runtimeOf docs test.testName) ∧
    (∀ docs' : List TestStatsDoc, docs.Perm docs' →
      (TestStats.new docs').getTestsRuntimes.Perm (TestStats.new docs).getTestsRuntimes) ∧
    (∀ p w, WindowsSpelling p w → normalizeTestFile p = p ∧ normalizeTestFile w = p) ∧
    (TestStats.new docs).getTestsRuntimes.Pairwise fun x y => y.runtime ≤ x.runtime := by
  have hrecorded := recorded_new h
  refine ⟨hrecorded.nodup, fun test => hrecorded.mem_getTestsRuntimes, fun docs' hperm => ?_,
    fun p w hspell => ⟨hspell.normalizeTestFile_posix, hspell.normalizeTestFile_eq⟩,
    sorted_getTestsRuntimes _⟩
  exact hrecorded.perm (recorded_new fun d hd => h d (hperm.mem_iff.mpr hd)) hperm

/-- Five runs of a test that is spelled in two ways, one run of it that failed, and its hook. -/
def threeSpellings : List TestStatsDoc :=
  [⟨"test1:CleanEveryN", 30, 10⟩, ⟨"dir/test1.js", 10, 1⟩, ⟨"dir\\test1.js", 25, 4⟩,
    ⟨"dir\\test1.js", 0, 0⟩]

theorem getTestsRuntimes_threeSpellings :
    (⟨"dir/test1.js", 22 + 30⟩ : TestRuntime) ∈ (TestStats.new threeSpellings).getTestsRuntimes := by
  have hzero : ∀ d ∈ threeSpellings, d.numPass = 0 → d.avgDurationPass = 0 := by decide +kernel
  exact ((getTestsRuntimes_correct hzero).2.1 _).mpr (by decide +kernel)

end Runtimes

end MongoTests.Suites
