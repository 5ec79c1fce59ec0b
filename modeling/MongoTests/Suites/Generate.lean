import Mathlib.Algebra.GroupWithZero.Nat
import MongoTests.Suites.Selector

/-!
# Generated sub-suites

Embeds the splitters and the rewriting of suite configurations in
`buildscripts/evergreen_generate_resmoke_tasks.py`.

* `Suite`, `divideTestsIntoSuites`, `calculateFallbackSuites`: assigning tests to suites. Runtimes
  are of any type with the operations that the code uses.
* `updateSuiteConfig`: the selector section of a generated suite.
* **`subSuite_selects_assigned`**: a generated suite that was assigned a test selects exactly the
  tests it was assigned.
* `updateSuiteConfig_nil`: a suite that was assigned none keeps the roots of its source.
* `assigned_names_are_roots`: order, patterns, directories and names that are not normalised.
-/

namespace MongoTests.Suites

open MongoTests.Lib

variable {ρ : Type*}

/-! ## `Suite` -/

/-- `Suite`; `index` is what `Suite._current_index` was when it was made. -/
structure Suite (ρ : Type*) where
  tests : List String
  totalRuntime : ρ
  maxRuntime : ρ
  testsWithRuntimeInfo : ℕ
  sourceName : String
  index : ℕ
  deriving DecidableEq, Repr

namespace Suite

variable [Zero ρ] [Add ρ] [LT ρ] [DecidableLT ρ] [DecidableEq ρ]

/-- `Suite(source_name)`. -/
def new (sourceName : String) (index : ℕ) : Suite ρ := ⟨[], 0, 0, 0, sourceName, index⟩

def addTest (s : Suite ρ) (testFile : String) (runtime : ρ) : Suite ρ :=
  { s with
    tests := s.tests ++ [testFile]
    totalRuntime := s.totalRuntime + runtime
    testsWithRuntimeInfo :=
      if runtime ≠ 0 then s.testsWithRuntimeInfo + 1 else s.testsWithRuntimeInfo
    maxRuntime := if s.maxRuntime < runtime then runtime else s.maxRuntime }

def getTestCount (s : Suite ρ) : ℕ := s.tests.length

omit [LT ρ] [DecidableLT ρ] [DecidableEq ρ] [Add ρ] in
@[simp] theorem tests_new (name : String) (i : ℕ) : (new name i : Suite ρ).tests = [] := rfl

@[simp] theorem tests_addTest (s : Suite ρ) (t : String) (r : ρ) :
    (s.addTest t r).tests = s.tests ++ [t] := rfl

end Suite

/-! ## The splitters -/

section Split

variable [Zero ρ] [Add ρ] [LT ρ] [DecidableLT ρ] [DecidableEq ρ]

/-- A limit that is given and not zero. -/
def limit (o : Option ℕ) : Option ℕ := o.filter (· ≠ 0)

def newSuiteNeeded (current : Suite ρ) (testRuntime maxSuiteRuntime : ρ)
    (maxTestsPerSuite : Option ℕ) : Bool :=
  decide (maxSuiteRuntime < current.totalRuntime + testRuntime) ||
    (limit maxTestsPerSuite).any fun m => decide (m < current.getTestCount + 1)

/-- `divide_remaining_tests_among_suites`, from the suite at `suiteIdx` on. -/
def divideRemaining (suiteIdx : ℕ) (suites : List (Suite ρ)) : List (String × ρ) → List (Suite ρ)
  | [] => suites
  | (testFile, runtime) :: rest =>
    divideRemaining (if suites.length ≤ suiteIdx + 1 then 0 else suiteIdx + 1)
      (suites.modify suiteIdx (·.addTest testFile runtime)) rest

def divideRemainingTestsAmongSuites (remaining : List (String × ρ)) (suites : List (Suite ρ)) :
    List (Suite ρ) :=
  divideRemaining 0 suites remaining

/-- The loop of `divide_tests_into_suites`: the finished suites, the current one, the tests that
were not processed, and `Suite._current_index`. -/
def divideLoop (suiteName : String) (maxTimeSeconds : ρ) (maxSuites maxTestsPerSuite : Option ℕ)
    (idx : ℕ) (suites : List (Suite ρ)) (current : Suite ρ) :
    List (String × ρ) → List (Suite ρ) × Suite ρ × List (String × ρ) × ℕ
  | [] => (suites, current, [], idx)
  | (testFile, runtime) :: rest =>
    if newSuiteNeeded current runtime maxTimeSeconds maxTestsPerSuite && current.tests ≠ [] then
      let suites := suites ++ [current]
      if (limit maxSuites).any (fun m => decide (m ≤ suites.length)) then
        (suites, .new suiteName idx, (testFile, runtime) :: rest, idx + 1)
      else
        divideLoop suiteName maxTimeSeconds maxSuites maxTestsPerSuite (idx + 1) suites
          ((Suite.new suiteName idx).addTest testFile runtime) rest
    else
      divideLoop suiteName maxTimeSeconds maxSuites maxTestsPerSuite idx suites
        (current.addTest testFile runtime) rest

/-- `divide_tests_into_suites`: the suites and `Suite._current_index`. -/
def divideTestsIntoSuites (suiteName : String) (testsRuntimes : List (String × ρ))
    (maxTimeSeconds : ρ) (maxSuites maxTestsPerSuite : Option ℕ) (idx : ℕ) :
    List (Suite ρ) × ℕ :=
  let (suites, current, remaining, idx) := divideLoop suiteName maxTimeSeconds maxSuites
    maxTestsPerSuite (idx + 1) [] (.new suiteName idx) testsRuntimes
  let suites := if current.tests ≠ [] then suites ++ [current] else suites
  (divideRemainingTestsAmongSuites remaining suites, idx)

/-- The loop of `calculate_fallback_suites`, from the test number `i` on. -/
def fallbackLoop (numSuites i : ℕ) (suites : List (Suite ρ)) : List String → List (Suite ρ)
  | [] => suites
  | testFile :: rest =>
    fallbackLoop numSuites (i + 1) (suites.modify (i % numSuites) (·.addTest testFile 0)) rest

/-- `calculate_fallback_suites` on the tests of the suite: the suites and `Suite._current_index`;
`none` is the `ZeroDivisionError`. -/
def calculateFallbackSuites (suiteName : String) (numSuites : ℕ) (testList : List String)
    (idx : ℕ) : Option (List (Suite ρ) × ℕ) :=
  if numSuites = 0 ∧ testList ≠ [] then none
  else
    let suites := (List.range numSuites).map fun i => Suite.new suiteName (idx + i)
    some (fallbackLoop numSuites 0 suites testList, idx + numSuites)

end Split

/-! ## `update_suite_config` -/

/-- `update_suite_config`, on the selector section. -/
def updateSuiteConfig (c : Section) (roots excludes : Option (List String)) : Section :=
  let c := if roots.getD [] ≠ [] then { c with roots := roots } else c
  if excludes.getD [] ≠ [] then
    { c with excludeFiles := some (c.excludeFiles.getD [] ++ excludes.getD []) }
  else { c with excludeFiles := none }

theorem updateSuiteConfig_roots (c : Section) {tests : List String} (h : tests ≠ []) :
    updateSuiteConfig c (some tests) none =
      { c with roots := some tests, excludeFiles := none } := by
  simp [updateSuiteConfig, h]

/-- **An empty assignment is not seen**: the generated section keeps the roots of its source, and
loses its exclusions. -/
theorem updateSuiteConfig_nil (c : Section) :
    updateSuiteConfig c (some []) none = { c with excludeFiles := none } := rfl

/-! ## Assigned tests are tests of the suite -/

section Assigned

variable [Zero ρ] [Add ρ] [LT ρ] [DecidableLT ρ] [DecidableEq ρ] {P : String → Prop}

/-- All tests of the suite satisfy `P`. -/
def Suite.All (P : String → Prop) (s : Suite ρ) : Prop := ∀ t ∈ s.tests, P t

theorem Suite.All.addTest {s : Suite ρ} (h : s.All P) {t : String} (ht : P t) (r : ρ) :
    (s.addTest t r).All P := by
  intro u hu
  rw [Suite.tests_addTest, List.mem_append, List.mem_singleton] at hu
  obtain hu | rfl := hu
  · exact h u hu
  · exact ht

theorem all_modify {suites : List (Suite ρ)} (h : ∀ s ∈ suites, s.All P) (i : ℕ) {t : String}
    (ht : P t) (r : ρ) : ∀ s ∈ suites.modify i (·.addTest t r), s.All P := by
  induction suites generalizing i with
  | nil => simp
  | cons s ss ih =>
    have hs := h s List.mem_cons_self
    have hss : ∀ u ∈ ss, u.All P := fun u hu => h u (List.mem_cons_of_mem s hu)
    cases i with
    | zero =>
      rw [List.modify_zero_cons, List.forall_mem_cons]
      exact ⟨hs.addTest ht r, hss⟩
    | succ i =>
      rw [List.modify_succ_cons, List.forall_mem_cons]
      exact ⟨hs, ih hss i⟩

theorem all_divideRemaining {suites : List (Suite ρ)} {rest : List (String × ρ)} (i : ℕ)
    (h : ∀ s ∈ suites, s.All P) (hr : ∀ p ∈ rest, P p.1) :
    ∀ s ∈ divideRemaining i suites rest, s.All P := by
  induction rest generalizing i suites with
  | nil => exact h
  | cons p rest ih =>
    obtain ⟨hp, hrest⟩ := List.forall_mem_cons.mp hr
    exact ih _ (all_modify h i hp p.2) hrest

theorem all_divideLoop (name : String) (maxTime : ρ) (maxSuites maxTests : Option ℕ) (idx : ℕ)
    {suites : List (Suite ρ)} {current : Suite ρ} {rest : List (String × ρ)}
    (h : ∀ s ∈ suites, s.All P) (hc : current.All P) (hr : ∀ p ∈ rest, P p.1) :
    let r := divideLoop name maxTime maxSuites maxTests idx suites current rest
    (∀ s ∈ r.1, s.All P) ∧ r.2.1.All P ∧ ∀ p ∈ r.2.2.1, P p.1 := by
  induction rest generalizing idx suites current with
  | nil => exact ⟨h, hc, hr⟩
  | cons p rest ih =>
    obtain ⟨hp, hrest⟩ := List.forall_mem_cons.mp hr
    have hnew : (Suite.new name idx : Suite ρ).All P := fun t ht => by simp at ht
    have hsnoc : ∀ s ∈ suites ++ [current], s.All P := by
      simpa [or_imp, forall_and] using ⟨h, hc⟩
    unfold divideLoop
    dsimp only
    split_ifs
    · exact ⟨hsnoc, hnew, hr⟩
    · exact ih (idx + 1) hsnoc (hnew.addTest hp p.2) hrest
    · exact ih idx h (hc.addTest hp p.2) hrest

theorem all_divideTestsIntoSuites {name : String} {testsRuntimes : List (String × ρ)} {maxTime : ρ}
    {maxSuites maxTests : Option ℕ} {idx : ℕ} (h : ∀ p ∈ testsRuntimes, P p.1) :
    ∀ s ∈ (divideTestsIntoSuites name testsRuntimes maxTime maxSuites maxTests idx).1,
      s.All P := by
  have hnew : (Suite.new name idx : Suite ρ).All P := by simp [Suite.All]
  obtain ⟨h1, h2, h3⟩ := all_divideLoop name maxTime maxSuites maxTests (idx + 1)
    (List.forall_mem_nil _) hnew h
  refine all_divideRemaining 0 ?_ h3
  split_ifs
  · simpa [or_imp, forall_and] using ⟨h1, h2⟩
  · exact h1

theorem all_fallbackLoop {n i : ℕ} {suites : List (Suite ρ)} {tests : List String}
    (h : ∀ s ∈ suites, s.All P) (ht : ∀ t ∈ tests, P t) :
    ∀ s ∈ fallbackLoop n i suites tests, s.All P := by
  induction tests generalizing i suites with
  | nil => exact h
  | cons t ts ih =>
    obtain ⟨ht, hts⟩ := List.forall_mem_cons.mp ht
    exact ih (all_modify h _ ht 0) hts

theorem all_calculateFallbackSuites {name : String} {n idx idx' : ℕ} {tests : List String}
    {suites : List (Suite ρ)} (hc : calculateFallbackSuites name n tests idx = some (suites, idx'))
    (ht : ∀ t ∈ tests, P t) : ∀ s ∈ suites, s.All P := by
  unfold calculateFallbackSuites at hc
  split_ifs at hc
  obtain ⟨rfl, -⟩ := Prod.mk.inj (Option.some.inj hc)
  refine all_fallbackLoop ?_ ht
  simp [Suite.All]

end Assigned

/-! ## A generated suite selects what it was assigned -/

section Generated

variable [Zero ρ] [Add ρ] [LT ρ] [DecidableLT ρ] [DecidableEq ρ]

/-- The suites that one of the splitters makes of a suite whose tests are `all`: the fallback splits
all of them, and the other splitter some of them, in any order, with their runtimes. -/
def Generated (all : List String) (suites : List (Suite ρ)) : Prop :=
  (∃ name n idx idx', 0 < n ∧ calculateFallbackSuites name n all idx = some (suites, idx')) ∨
  (∃ name testsRuntimes maxTime maxSuites maxTests idx, (∀ p ∈ testsRuntimes, p.1 ∈ all) ∧
    (divideTestsIntoSuites name testsRuntimes maxTime maxSuites maxTests idx).1 = suites)

theorem Generated.all_mem {all : List String} {suites : List (Suite ρ)} (h : Generated all suites) :
    ∀ s ∈ suites, s.All (· ∈ all) := by
  obtain ⟨name, n, idx, idx', -, hc⟩ | ⟨name, trs, maxTime, maxSuites, maxTests, idx, ht, rfl⟩ := h
  · exact all_calculateFallbackSuites hc fun t ht => ht
  · exact all_divideTestsIntoSuites ht

variable {ex : TestFileExplorer} {g : Globals} {source : Section} {all excluded : List String}
  {suites : List (Suite ρ)} {suite : Suite ρ}

/-- **A generated suite runs its assigned tests.** Take a file selector without tag options, whose
tests are named by normalised paths of files without glob characters. For every suite that a
splitter makes and assigns at least one test, the section that `update_suite_config` produces
selects exactly the assigned tests, each once, sorted by name if `ORDER_TESTS_BY_NAME` is set and
in the order of their assignment otherwise. -/
theorem subSuite_selects_assigned (hn : NoTags g source) (hroot : source.root = none)
    (hs : filterTests ex g source = .ok (all, excluded)) (hp : ∀ t ∈ all, ex.Plain t)
    (hg : Generated all suites) (hm : suite ∈ suites) (hne : suite.tests ≠ []) :
    ∃ tests, filterTests ex g (updateSuiteConfig source (some suite.tests) none) = .ok (tests, []) ∧
      tests.Nodup ∧ (∀ t, t ∈ tests ↔ t ∈ suite.tests) ∧
      (g.orderTestsByName = true → tests.Pairwise fun a b => g.lower a ≤ g.lower b) ∧
      (g.orderTestsByName = false → tests = firsts suite.tests) := by
  have hsub : suite.All (· ∈ all) := hg.all_mem suite hm
  have hsel : filterTests ex g (updateSuiteConfig source (some suite.tests) none) =
      .ok (sortTests g (firsts suite.tests, [])) := by
    rw [updateSuiteConfig_roots source hne]
    refine filterTests_plain (c := { source with roots := some suite.tests, excludeFiles := none })
      ?_ hroot rfl rfl (fun t ht => hp t (hsub t ht)) ?_
    · exact ⟨hn.includeTags, hn.excludeTags, hn.includeWithAnyTags, hn.excludeWithAnyTags,
        hn.globalInclude, hn.globalExclude⟩
    · exact fun hi t ht => mem_included_of_filterTests hs hi (hsub t ht)
  cases ho : g.orderTestsByName with
  | false =>
    refine ⟨firsts suite.tests, ?_, nodup_firsts _, fun t => mem_firsts, nofun, fun _ => rfl⟩
    rw [hsel, sortTests, if_neg (by simp [ho])]
  | true =>
    refine ⟨sortByName g.lower (firsts suite.tests), ?_, ?_, fun t => ?_, fun _ => ?_, nofun⟩
    · rw [hsel, sortTests, if_pos ho]
      rfl
    · exact (List.perm_insertionSort _ _).nodup_iff.mpr (nodup_firsts _)
    · exact (List.mem_insertionSort _).trans mem_firsts
    · exact pairwise_sortByName _ _

end Generated

/-! ## A small file tree -/

/-- A tree with plain test files, a test file with a bracket in its name, and a directory. -/
def tree : TestFileExplorer where
  iglob pattern :=
    if pattern = "jstests/*.js" then ["jstests/a.js", "jstests/b.js", "jstests/c.js"]
    else if pattern = "odd/*.js" then ["odd/a1.js", "odd/a[1].js"]
    else if pattern = "odd/a[1].js" then ["odd/a1.js"]
    else if pattern = "./deep/**" then ["./deep/", "./deep/x.js"]
    else []
  isfile path := path ∈ ["jstests/a.js", "jstests/b.js", "jstests/c.js", "odd/a1.js", "odd/a[1].js",
    "./deep/x.js", "deep/x.js"]
  readRootFile _ := []
  getTags _ := []

/-- The default options; the names in `tree` are in lower case. -/
def defaults : Globals := ⟨none, none, true, id⟩

/-- A section with the given roots. -/
def rootsOnly (roots : List String) : Section := ⟨none, some roots, none, none, none, none, none, none⟩

/-- Three tests in two suites. -/
theorem two_fallback_suites :
    ∃ suites : List (Suite ℕ), suites.map Suite.tests =
        [["jstests/a.js", "jstests/c.js"], ["jstests/b.js"]] ∧
      ∀ suite ∈ suites, ∃ tests,
        filterTests tree defaults (updateSuiteConfig (rootsOnly ["jstests/*.js"])
          (some suite.tests) none) = .ok (tests, []) ∧
        ∀ t, t ∈ tests ↔ t ∈ suite.tests := by
  refine ⟨(fallbackLoop 2 0 [.new "core" 0, .new "core" 1]
    ["jstests/a.js", "jstests/b.js", "jstests/c.js"]), by decide, fun suite hm => ?_⟩
  have hs : filterTests tree defaults (rootsOnly ["jstests/*.js"]) =
      .ok (["jstests/a.js", "jstests/b.js", "jstests/c.js"], []) := by rfl
  have hne : suite.tests ≠ [] := by
    revert suite
    decide
  obtain ⟨tests, ht, -, hmem, -⟩ := subSuite_selects_assigned ⟨rfl, rfl, rfl, rfl, rfl, rfl⟩ rfl hs
    (by decide) (.inl ⟨"core", 2, 0, 2, by decide, rfl⟩) hm hne
  exact ⟨tests, ht, hmem⟩

/-- The tests that the fallback assigns to two suites. -/
def twoSuites (tests : List String) : Option (List (List String)) :=
  (calculateFallbackSuites "core" 2 tests 0).map fun r => r.1.map (Suite.tests (ρ := ℕ))

/-- **The selector reads the assigned names as roots.** It sorts them by name, so that a suite split
by runtime does not keep its order; and a name that is a pattern, a directory or not normalised does
not denote itself. -/
theorem assigned_names_are_roots :
    (∃ suite ∈ (divideTestsIntoSuites "core" [("jstests/b.js", 5), ("jstests/a.js", 1)] 10 none none
        0).1, suite.tests = ["jstests/b.js", "jstests/a.js"] ∧
      filterTests tree defaults (updateSuiteConfig (rootsOnly ["jstests/*.js"])
        (some suite.tests) none) = .ok (["jstests/a.js", "jstests/b.js"], [])) ∧
    (filterTests tree defaults (rootsOnly ["odd/*.js"]) = .ok (["odd/a1.js", "odd/a[1].js"], []) ∧
      twoSuites ["odd/a1.js", "odd/a[1].js"] = some [["odd/a1.js"], ["odd/a[1].js"]] ∧
      filterTests tree defaults (updateSuiteConfig (rootsOnly ["odd/*.js"])
        (some ["odd/a[1].js"]) none) = .ok (["odd/a1.js"], [])) ∧
    (filterTests tree defaults (rootsOnly ["./deep/**"]) = .ok (["./deep/", "./deep/x.js"], []) ∧
      twoSuites ["./deep/", "./deep/x.js"] = some [["./deep/"], ["./deep/x.js"]] ∧
      filterTests tree defaults (updateSuiteConfig (rootsOnly ["./deep/**"])
        (some ["./deep/"]) none) = .error (.unrecognizedTestFile "./deep/") ∧
      filterTests tree defaults (updateSuiteConfig (rootsOnly ["./deep/**"])
        (some ["./deep/x.js"]) none) = .ok (["deep/x.js"], [])) :=
  ⟨⟨_, List.mem_singleton_self _, rfl, rfl⟩, ⟨rfl, rfl, rfl⟩, rfl, rfl, rfl, rfl⟩

end MongoTests.Suites
