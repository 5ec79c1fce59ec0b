import Mathlib.Data.List.TakeWhile
import Mathlib.Data.Nat.Log
import MongoTests.Lib.Decimal
import MongoTests.Suites.Generate

/-!
# Names of generated suites

The names of sub-suites in `buildscripts/evergreen_generate_resmoke_tasks.py` and
`buildscripts/util/taskname.py`: a suite keeps the number that `Suite._current_index` had when it
was made, and its name is computed when it is asked for, with the value that the counter has then.
The counter is not reset between splits, and it also counts the suite that is made and dropped at
the suite limit.

* `nameGeneratedTask`, `Suite.name`; `basename`.
* `calculateSuites`: one of the two splitters, with the counter before and after.
* `renderSuiteFiles`, `generateAllTasks`: the files of the suites and the tasks that name them.
* `Numbered`: the numbers of the suites go up, and are below the counter.
* **`generated_names`**: the names are different and sorted, none is that of the misc suite, and
  every task names a file that was rendered.
-/

namespace MongoTests.Suites

open MongoTests.Lib

variable {ρ : Type}

/-! ## Names -/

/-- `name_generated_task`; the width is the logarithm of `totalTasks`, rounded up. -/
def nameGeneratedTask (parentName : String) (taskIndex totalTasks : ℕ) (variant : Option String) :
    String :=
  let suffix := if variant.getD "" ≠ "" then "_" ++ variant.getD "" else ""
  let indexWidth := Nat.clog 10 totalTasks
  parentName ++ "_" ++ String.ofList (zfill indexWidth (Nat.toDigits 10 taskIndex)) ++ suffix

/-- `os.path.basename`: what follows the last slash. -/
def basename (path : String) : String :=
  String.ofList (path.toList.reverse.takeWhile (· ≠ '/')).reverse

/-- `Suite.name`, while `Suite._current_index` is `currentIndex`. -/
def Suite.name (s : Suite ρ) (currentIndex : ℕ) : String :=
  nameGeneratedTask s.sourceName s.index currentIndex none

def Suite.shouldOverwriteTimeout (s : Suite ρ) : Bool := s.tests.length = s.testsWithRuntimeInfo

/-! ## `calculate_suites` -/

/-- The options that splitting and rendering read. -/
structure ConfigOptions (ρ : Type) where
  suite : String
  task : String
  variant : String
  generatedConfigDir : String
  fallbackNumSubSuites : ℕ
  maxSubSuites : Option ℕ
  maxTestsPerSuite : Option ℕ
  targetExecutionTimeSecs : ρ

/-- What Evergreen answers when it is asked for statistics. -/
inductive EvgStats (D : Type)
  | data (stats : List D)
  | httpError (statusCode : ℕ)

inductive Raised
  | httpError (statusCode : ℕ)
  | zeroDivisionError
  deriving DecidableEq

/-- The tests of the suite and the file system. -/
structure TestEnv (D ρ : Type) where
  listTests : List String
  normalizeTestName : String → String
  pathExists : String → Bool
  /-- `TestStats(data).get_tests_runtimes()`. -/
  getTestsRuntimes : List D → List (String × ρ)

section Calculate

variable {D : Type} [Zero ρ] [Add ρ] [LT ρ] [DecidableLT ρ] [DecidableEq ρ]

/-- `calculate_fallback_suites`: the suites, the test list and `Suite._current_index`. -/
def fallbackSuites (env : TestEnv D ρ) (o : ConfigOptions ρ) (idx : ℕ) :
    Except Raised (List (Suite ρ) × List String × ℕ) :=
  match calculateFallbackSuites o.suite o.fallbackNumSubSuites env.listTests idx with
  | none => .error .zeroDivisionError
  | some (suites, idx) => .ok (suites, env.listTests, idx)

def filterExistingTests (env : TestEnv D ρ) (testsRuntimes : List (String × ρ)) :
    List (String × ρ) :=
  testsRuntimes.filter fun info =>
    env.pathExists info.1 && info.1 ∈ env.listTests.map env.normalizeTestName

def calculateSuitesFromEvgStats (env : TestEnv D ρ) (o : ConfigOptions ρ) (data : List D)
    (idx : ℕ) : Except Raised (List (Suite ρ) × List String × ℕ) :=
  let testsRuntimes := filterExistingTests env (env.getTestsRuntimes data)
  if testsRuntimes = [] then fallbackSuites env o idx
  else
    let r := divideTestsIntoSuites o.suite testsRuntimes o.targetExecutionTimeSecs o.maxSubSuites
      o.maxTestsPerSuite idx
    .ok (r.1, testsRuntimes.map Prod.fst, r.2)

/-- `calculate_suites`, while `Suite._current_index` is `idx`. -/
def calculateSuites (env : TestEnv D ρ) (o : ConfigOptions ρ) (idx : ℕ) :
    EvgStats D → Except Raised (List (Suite ρ) × List String × ℕ)
  | .data [] => fallbackSuites env o idx
  | .data data => calculateSuitesFromEvgStats env o data idx
  | .httpError statusCode =>
    -- the service is degraded
    if statusCode = 503 then fallbackSuites env o idx else .error (.httpError statusCode)

end Calculate

/-! ## Files and tasks -/

/-- `d[key] = value`. -/
def setItem {α : Type} (d : List (String × α)) (key : String) (value : α) : List (String × α) :=
  if key ∈ d.map Prod.fst then d.map fun p => if p.1 = key then (key, value) else p
  else d ++ [(key, value)]

def miscSuiteName (suiteName : String) : String := basename suiteName ++ "_misc"

/-- `render_suite_files`: the selector sections of the suites, by file names. -/
def renderSuiteFiles (suites : List (Suite ρ)) (suiteName : String) (testList : List String)
    (sourceConfig : Section) (currentIndex : ℕ) : List (String × Section) :=
  let suiteConfigs := suites.foldl (fun d s => setItem d (basename (s.name currentIndex) ++ ".yml")
    (updateSuiteConfig sourceConfig (some s.tests) none)) []
  setItem suiteConfigs (miscSuiteName suiteName ++ ".yml")
    (updateSuiteConfig sourceConfig none (some testList))

/-- An Evergreen task: its name, what it passes as `--suite`, and the runtimes of its timeout. -/
structure GeneratedTask (ρ : Type) where
  name : String
  suite : String
  maxTestRuntime : Option ρ
  expectedSuiteRuntime : Option ρ
  deriving DecidableEq, Repr

/-- `_generate_task`; the suite file is named with a slash on every platform. -/
def generateTask (subSuiteName subTaskName targetDir : String)
    (maxTestRuntime expectedSuiteRuntime : Option ρ) : GeneratedTask ρ :=
  let targetSuiteFile := targetDir ++ "/" ++ basename subSuiteName
  ⟨subTaskName, targetSuiteFile ++ ".yml", maxTestRuntime, expectedSuiteRuntime⟩

/-- `_generate_all_tasks`. -/
def generateAllTasks (o : ConfigOptions ρ) (suites : List (Suite ρ)) (currentIndex : ℕ) :
    List (GeneratedTask ρ) :=
  (suites.zipIdx.map fun (s, idx) =>
    generateTask (s.name currentIndex)
      (nameGeneratedTask o.task idx suites.length (some o.variant)) o.generatedConfigDir
      (if s.shouldOverwriteTimeout then some s.maxRuntime else none)
      (if s.shouldOverwriteTimeout then some s.totalRuntime else none)) ++
  [generateTask (miscSuiteName o.suite) (o.task ++ "_misc_" ++ o.variant) o.generatedConfigDir none
    none]

/-! ## Numbers -/

/-- The source and the number of a suite. -/
def Suite.ident (s : Suite ρ) : String × ℕ := (s.sourceName, s.index)

/-- The suites were made of one suite, one after the other, before the counter got to `total`. -/
structure Numbered (name : String) (total : ℕ) (idents : List (String × ℕ)) : Prop where
  source : ∀ p ∈ idents, p.1 = name
  lt : ∀ p ∈ idents, p.2 < total
  increasing : idents.Pairwise fun p q => p.2 < q.2

theorem Numbered.sublist {name : String} {total : ℕ} {idents idents' : List (String × ℕ)}
    (h : Numbered name total idents) (hsub : idents'.Sublist idents) :
    Numbered name total idents' where
  source p hp := h.source p (hsub.subset hp)
  lt p hp := h.lt p (hsub.subset hp)
  increasing := h.increasing.sublist hsub

/-- A new suite. -/
theorem Numbered.concat {name : String} {total : ℕ} {idents : List (String × ℕ)}
    (h : Numbered name total idents) : Numbered name (total + 1) (idents ++ [(name, total)]) where
  source := by
    simp only [List.forall_mem_append, List.forall_mem_singleton]
    exact ⟨h.source, trivial⟩
  lt := by
    simp only [List.forall_mem_append, List.forall_mem_singleton]
    exact ⟨fun p hp => Nat.lt_succ_of_lt (h.lt p hp), Nat.lt_succ_self total⟩
  increasing := by
    rw [List.pairwise_append]
    refine ⟨h.increasing, List.pairwise_singleton _ _, fun p hp q hq => ?_⟩
    rw [List.mem_singleton.mp hq]
    exact h.lt p hp

section Numbers

variable [Zero ρ] [Add ρ] [LT ρ] [DecidableLT ρ] [DecidableEq ρ]

/-- A suite that gets a test keeps its number. -/
theorem map_ident_modify (suites : List (Suite ρ)) (i : ℕ) (t : String) (r : ρ) :
    (suites.modify i (·.addTest t r)).map Suite.ident = suites.map Suite.ident := by
  induction suites generalizing i with
  | nil => simp
  | cons s suites ih =>
    cases i with
    | zero => rfl
    | succ i => rw [List.modify_succ_cons, List.map_cons, ih, List.map_cons]

theorem map_ident_divideRemaining (i : ℕ) (suites : List (Suite ρ)) (rest : List (String × ρ)) :
    (divideRemaining i suites rest).map Suite.ident = suites.map Suite.ident := by
  induction rest generalizing i suites with
  | nil => rfl
  | cons p rest ih => rw [divideRemaining, ih, map_ident_modify]

theorem map_ident_fallbackLoop (n i : ℕ) (suites : List (Suite ρ)) (tests : List String) :
    (fallbackLoop n i suites tests).map Suite.ident = suites.map Suite.ident := by
  induction tests generalizing i suites with
  | nil => rfl
  | cons t tests ih => rw [fallbackLoop, ih, map_ident_modify]

theorem numbered_divideLoop {name : String} (maxTime : ρ) (maxSuites maxTests : Option ℕ) {idx : ℕ}
    {suites : List (Suite ρ)} {current : Suite ρ} (rest : List (String × ρ))
    (h : Numbered name idx ((suites ++ [current]).map Suite.ident)) :
    let r := divideLoop name maxTime maxSuites maxTests idx suites current rest
    Numbered name r.2.2.2 ((r.1 ++ [r.2.1]).map Suite.ident) := by
  induction rest generalizing idx suites current with
  | nil => exact h
  | cons p rest ih =>
    have hnew : ∀ s : Suite ρ, s.ident = (name, idx) →
        Numbered name (idx + 1) ((suites ++ [current] ++ [s]).map Suite.ident) := by
      intro s hs
      rw [List.map_append, List.map_singleton, hs]
      exact h.concat
    unfold divideLoop
    dsimp only
    split_ifs
    · exact hnew _ rfl
    · exact ih (hnew _ rfl)
    · refine ih ?_
      rw [List.map_append] at h ⊢
      exact h

theorem numbered_divideTestsIntoSuites (name : String) (testsRuntimes : List (String × ρ))
    (maxTime : ρ) (maxSuites maxTests : Option ℕ) (idx : ℕ) :
    let r := divideTestsIntoSuites name testsRuntimes maxTime maxSuites maxTests idx
    Numbered name r.2 (r.1.map Suite.ident) := by
  have hstart : Numbered name (idx + 1) (([] ++ [Suite.new name idx] : List (Suite ρ)).map
      Suite.ident) :=
    Numbered.concat ⟨List.forall_mem_nil _, List.forall_mem_nil _, .nil⟩
  have h := numbered_divideLoop maxTime maxSuites maxTests testsRuntimes hstart
  unfold divideTestsIntoSuites
  revert h
  generalize divideLoop name maxTime maxSuites maxTests (idx + 1) [] (.new name idx)
    testsRuntimes = r
  obtain ⟨suites, current, remaining, total⟩ := r
  intro h
  dsimp only at h ⊢
  rw [divideRemainingTestsAmongSuites, map_ident_divideRemaining]
  split_ifs
  · exact h
  · exact h.sublist ((List.sublist_append_left suites [current]).map _)

theorem numbered_calculateFallbackSuites {name : String} {n idx total : ℕ} {tests : List String}
    {suites : List (Suite ρ)}
    (h : calculateFallbackSuites name n tests idx = some (suites, total)) :
    Numbered name total (suites.map Suite.ident) := by
  unfold calculateFallbackSuites at h
  split_ifs at h with hzero
  obtain ⟨rfl, rfl⟩ := Prod.mk.inj (Option.some.inj h)
  rw [map_ident_fallbackLoop, List.map_map]
  clear h hzero
  induction n with
  | zero => exact ⟨List.forall_mem_nil _, List.forall_mem_nil _, .nil⟩
  | succ n ih =>
    rw [List.range_succ, List.map_append, List.map_singleton]
    exact ih.concat

theorem numbered_calculateSuites {D : Type} {env : TestEnv D ρ} {o : ConfigOptions ρ} {idx : ℕ}
    {stats : EvgStats D} {suites : List (Suite ρ)} {testList : List String} {total : ℕ}
    (h : calculateSuites env o idx stats = .ok (suites, testList, total)) :
    Numbered o.suite total (suites.map Suite.ident) := by
  have hfallback : fallbackSuites env o idx = .ok (suites, testList, total) →
      Numbered o.suite total (suites.map Suite.ident) := by
    intro h
    unfold fallbackSuites at h
    split at h
    · cases h
    · next hc =>
      cases h
      exact numbered_calculateFallbackSuites hc
  cases stats with
  | httpError statusCode =>
    rw [calculateSuites] at h
    split_ifs at h
    exact hfallback h
  | data data =>
    cases data with
    | nil => exact hfallback h
    | cons d data =>
      rw [calculateSuites, calculateSuitesFromEvgStats] at h
      · dsimp only at h
        split_ifs at h
        · exact hfallback h
        · cases h
          exact numbered_divideTestsIntoSuites _ _ _ _ _ _
      · simp

end Numbers

/-! ## Names in order -/

/-- The width of the numbers in the names. -/
def nameWidth (total : ℕ) : ℕ := max (Nat.clog 10 total) 1

theorem lt_pow_nameWidth {i total : ℕ} (h : i < total) : i < 10 ^ nameWidth total := by
  calc i < total := h
    _ ≤ 10 ^ Nat.clog 10 total := Nat.le_pow_clog (by decide) total
    _ ≤ 10 ^ nameWidth total := Nat.pow_le_pow_right (by decide) (le_max_left _ _)

/-- All numbers are written with the same width, also that of a single suite. -/
theorem toList_name {s : Suite ρ} {total : ℕ} (h : s.index < total) :
    (s.name total).toList =
      s.sourceName.toList ++ '_' :: decimal (nameWidth total) s.index := by
  obtain ⟨w, hw⟩ : ∃ w, nameWidth total = w + 1 :=
    ⟨nameWidth total - 1, by unfold nameWidth; omega⟩
  have hlt := lt_pow_nameWidth h
  have hfill : zfill (Nat.clog 10 total) (Nat.toDigits 10 s.index) =
      decimal (nameWidth total) s.index := by
    rw [zfill_max_one _ Nat.toDigits_ne_nil]
    show zfill (nameWidth total) _ = _
    rw [hw] at hlt ⊢
    exact zfill_toDigits hlt
  simp [Suite.name, nameGeneratedTask, hfill]

theorem name_lt {s t : Suite ρ} {total : ℕ} (hsource : s.sourceName = t.sourceName)
    (hlt : s.index < t.index) (ht : t.index < total) : s.name total < t.name total := by
  rw [String.lt_iff, toList_name (hlt.trans ht), toList_name ht, hsource]
  refine List.append_left_lt (List.cons_lt_cons_iff.mpr (.inr ⟨rfl, ?_⟩))
  exact decimal_lt hlt (lt_pow_nameWidth ht)

/-- A name ends in a digit, and that of the misc suite does not. -/
theorem name_ne_misc {s : Suite ρ} {total : ℕ} (h : s.index < total) (suiteName : String) :
    s.name total ≠ miscSuiteName suiteName := by
  intro heq
  have hlast := congrArg (·.toList.getLast?) heq
  obtain ⟨w, hw⟩ : ∃ w, nameWidth total = w + 1 :=
    ⟨nameWidth total - 1, by unfold nameWidth; omega⟩
  rw [toList_name h, hw, decimal, ← List.cons_append, ← List.append_assoc] at hlast
  simp only [List.getLast?_concat, miscSuiteName, String.toList_append] at hlast
  have hdigit : s.index % 10 = 12 := by simpa using hlast
  omega

/-! ## Every task has its file -/

theorem mem_setItem {α : Type} (d : List (String × α)) (key : String) (value : α) :
    key ∈ (setItem d key value).map Prod.fst := by
  unfold setItem
  split_ifs with h
  · obtain ⟨p, hp, hkey⟩ := List.mem_map.mp h
    refine List.mem_map.mpr ⟨(key, value), List.mem_map.mpr ⟨p, hp, ?_⟩, rfl⟩
    rw [if_pos hkey]
  · simp

/-- No key is lost. -/
theorem mem_setItem_of_mem {α : Type} {d : List (String × α)} {k : String}
    (h : k ∈ d.map Prod.fst) (key : String) (value : α) :
    k ∈ (setItem d key value).map Prod.fst := by
  unfold setItem
  split_ifs
  · obtain ⟨p, hp, rfl⟩ := List.mem_map.mp h
    refine List.mem_map.mpr ⟨_, List.mem_map_of_mem hp, ?_⟩
    by_cases hkey : p.1 = key <;> simp [hkey]
  · rw [List.map_append]
    exact List.mem_append_left _ h

theorem mem_foldl_setItem {α : Type} (key : Suite ρ → String) (value : Suite ρ → α)
    (suites : List (Suite ρ)) {d : List (String × α)} {k : String}
    (h : k ∈ d.map Prod.fst ∨ ∃ s ∈ suites, k = key s) :
    k ∈ (suites.foldl (fun d s => setItem d (key s) (value s)) d).map Prod.fst := by
  induction suites generalizing d with
  | nil => simpa using h
  | cons s suites ih =>
    refine ih ?_
    rcases h with h | ⟨u, hu, rfl⟩
    · exact .inl (mem_setItem_of_mem h _ _)
    · rcases List.mem_cons.mp hu with rfl | hu
      · exact .inl (mem_setItem _ _ _)
      · exact .inr ⟨u, hu, rfl⟩

/-- The last part of a path has no further parts. -/
theorem basename_of_not_mem {path : String} (h : '/' ∉ path.toList) : basename path = path := by
  have hall : ∀ c ∈ path.toList.reverse, decide (c ≠ '/') = true := by
    intro c hc
    refine decide_eq_true fun hslash => h ?_
    rw [← hslash]
    exact List.mem_reverse.mp hc
  rw [basename, List.takeWhile_eq_self_iff.mpr hall, List.reverse_reverse, String.ofList_toList]

theorem slash_not_mem_basename (path : String) : '/' ∉ (basename path).toList := by
  intro h
  rw [basename, String.toList_ofList, List.mem_reverse] at h
  simpa using List.mem_takeWhile_imp h

theorem basename_miscSuiteName (suiteName : String) :
    basename (miscSuiteName suiteName) = miscSuiteName suiteName := by
  refine basename_of_not_mem ?_
  rw [miscSuiteName, String.toList_append, List.mem_append, not_or]
  exact ⟨slash_not_mem_basename suiteName, by decide⟩

/-- **The names of generated suites.** For every split, by runtime or not, that starts with any
value of the counter: the suites are numbered in the order in which they were made, their names are
different and sort as text in this order, and none is the name of the misc suite; and what every
task passes as `--suite` is, in the directory of the generated files, one of the rendered files. -/
theorem generated_names {D : Type} [Zero ρ] [Add ρ] [LT ρ] [DecidableLT ρ] [DecidableEq ρ]
    {env : TestEnv D ρ} {o : ConfigOptions ρ} {idx total : ℕ} {stats : EvgStats D}
    {suites : List (Suite ρ)} {testList : List String} (sourceConfig : Section)
    (h : calculateSuites env o idx stats = .ok (suites, testList, total)) :
    (suites.map (·.name total)).Nodup ∧
    (suites.Pairwise fun s t => s.index < t.index ∧ s.name total < t.name total) ∧
    (∀ s ∈ suites, s.name total ≠ miscSuiteName o.suite) ∧
    ∀ task ∈ generateAllTasks o suites total,
      ∃ file ∈ (renderSuiteFiles suites o.suite testList sourceConfig total).map Prod.fst,
        task.suite = o.generatedConfigDir ++ "/" ++ file := by
  obtain ⟨hsource, hlt, hincreasing⟩ := numbered_calculateSuites h
  rw [List.forall_mem_map] at hsource hlt
  rw [List.pairwise_map] at hincreasing
  have hpairwise : suites.Pairwise fun s t => s.index < t.index ∧ s.name total < t.name total := by
    refine hincreasing.imp_of_mem fun {s t} hs ht hst => ⟨hst, ?_⟩
    exact name_lt ((hsource s hs).trans (hsource t ht).symm) hst (hlt t ht)
  refine ⟨?_, hpairwise, fun s hs => name_ne_misc (hlt s hs) o.suite, fun task htask => ?_⟩
  · rw [List.Nodup, List.pairwise_map]
    refine hpairwise.imp fun {s t} hst heq => ?_
    rw [heq] at hst
    exact String.lt_irrefl _ hst.2
  · rcases List.mem_append.mp htask with htask | htask
    · obtain ⟨⟨s, i⟩, hmem, rfl⟩ := List.mem_map.mp htask
      have hs : s ∈ suites := (List.mem_zipIdx hmem).2.2 ▸ List.getElem_mem _
      refine ⟨basename (s.name total) ++ ".yml", mem_setItem_of_mem ?_ _ _, ?_⟩
      · exact mem_foldl_setItem _ _ suites (.inr ⟨s, hs, rfl⟩)
      · exact String.append_assoc
    · rw [List.mem_singleton.mp htask]
      refine ⟨miscSuiteName o.suite ++ ".yml", mem_setItem _ _ _, ?_⟩
      rw [generateTask, basename_miscSuiteName]
      exact String.append_assoc

/-- Options of a suite in a subdirectory, with at most ten sub-suites. -/
def replicaSets : ConfigOptions ℕ :=
  ⟨"suites/replica_sets", "replica_sets", "linux", "generated_resmoke_config", 3, some 10, some 1,
    60⟩

/-- Twelve tests that take a minute each. -/
def twelveTests : TestEnv Unit ℕ where
  listTests := (List.range 12).map fun i => "jstests/replsets/" ++ String.ofList (Nat.toDigits 10 i)
  normalizeTestName := id
  pathExists _ := true
  getTestsRuntimes _ :=
    (List.range 12).map fun i => ("jstests/replsets/" ++ String.ofList (Nat.toDigits 10 i), 60)

/-- Ten suites, and the counter has counted the one that was dropped: the numbers have two
digits. -/
theorem generated_names_limit :
    ∃ suites testList, calculateSuites twelveTests replicaSets 0 (.data [()]) =
        .ok (suites, testList, 11) ∧
      suites.map (·.name 11) = (List.range 10).map (fun i => "suites/replica_sets_0" ++
        String.ofList (Nat.toDigits 10 i)) ∧
      (suites.map (·.name 11)).Nodup := by
  obtain ⟨suites, testList, h, hnames⟩ : ∃ suites testList,
      calculateSuites twelveTests replicaSets 0 (.data [()]) = .ok (suites, testList, 11) ∧
      suites.map (·.name 11) = (List.range 10).map (fun i => "suites/replica_sets_0" ++
        String.ofList (Nat.toDigits 10 i)) := ⟨_, _, rfl, by decide +kernel⟩
  exact ⟨suites, testList, h, hnames, (generated_names (rootsOnly []) h).1⟩

end MongoTests.Suites
