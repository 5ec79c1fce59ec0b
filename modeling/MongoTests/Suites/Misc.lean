import MongoTests.Suites.Generate
import MongoTests.Suites.Selection

/-!
# The misc suite

`render_suite_files` also writes a misc suite, which is to run the tests of the source suite that no
sub-suite was assigned: `generate_resmoke_suite_config` adds the assigned tests to its
`exclude_files`.

* `Splits`: the suites that a splitter makes of the assigned tests; `Splits.perm`: every test is
  assigned once.
* `MiscExact`: the assigned tests can be taken away by naming them in `exclude_files`.
* **`misc_suite_iff`**: the misc suite selects the other tests of the source suite exactly when
  `MiscExact` holds; the sub-suites and the misc suite then run every test once.
* `misc_runs_assigned_tests`: `include_files` bring the assigned tests back, and an empty list of
  assigned tests drops the exclusions of the source.
-/

namespace MongoTests.Suites

open MongoTests.Lib

variable {ρ : Type*}

/-! ## Every test is assigned once -/

section Splits

variable [Zero ρ] [Add ρ] [LT ρ] [DecidableLT ρ] [DecidableEq ρ]

/-- All the tests that the suites were assigned. -/
def assigned (suites : List (Suite ρ)) : List String := suites.flatMap Suite.tests

theorem assigned_modify {suites : List (Suite ρ)} {i : ℕ} (hi : i < suites.length) (t : String)
    (r : ρ) : (assigned (suites.modify i (·.addTest t r))).Perm (t :: assigned suites) := by
  unfold assigned
  induction suites generalizing i with
  | nil => simp at hi
  | cons s ss ih =>
    cases i with
    | zero =>
      rw [List.modify_zero_cons, List.flatMap_cons, List.flatMap_cons, Suite.tests_addTest,
        List.append_assoc]
      exact List.perm_middle
    | succ i =>
      rw [List.modify_succ_cons, List.flatMap_cons, List.flatMap_cons]
      have hp := ih (i := i) (by simpa using hi)
      exact (hp.append_left s.tests).trans List.perm_middle

theorem assigned_divideRemaining {suites : List (Suite ρ)} (rest : List (String × ρ)) {i : ℕ}
    (hi : i < suites.length) :
    (assigned (divideRemaining i suites rest)).Perm (assigned suites ++ rest.map Prod.fst) := by
  induction rest generalizing suites i with
  | nil => simp [divideRemaining]
  | cons p rest ih =>
    have hlen : (suites.modify i (·.addTest p.1 p.2)).length = suites.length :=
      List.length_modify _ _ _
    have hnext : (if suites.length ≤ i + 1 then 0 else i + 1) <
        (suites.modify i (·.addTest p.1 p.2)).length := by
      rw [hlen]
      split_ifs <;> omega
    have hp := (ih hnext).trans ((assigned_modify hi p.1 p.2).append_right _)
    exact hp.trans List.perm_middle.symm

theorem assigned_divideLoop (name : String) (maxTime : ρ) (maxSuites maxTests : Option ℕ) (idx : ℕ)
    (suites : List (Suite ρ)) (current : Suite ρ) (rest : List (String × ρ)) :
    let r := divideLoop name maxTime maxSuites maxTests idx suites current rest
    (assigned r.1 ++ r.2.1.tests ++ r.2.2.1.map Prod.fst).Perm
        (assigned suites ++ current.tests ++ rest.map Prod.fst) ∧
      (r.2.2.1 ≠ [] → r.1 ≠ []) := by
  induction rest generalizing idx suites current with
  | nil => exact ⟨.refl _, by simp [divideLoop]⟩
  | cons p rest ih =>
    have hsnoc : assigned (suites ++ [current]) = assigned suites ++ current.tests := by
      simp [assigned]
    unfold divideLoop
    dsimp only
    split_ifs
    · refine ⟨?_, by simp⟩
      rw [hsnoc, Suite.tests_new, List.append_nil]
    · obtain ⟨hp, hne⟩ := ih (idx + 1) (suites ++ [current])
        ((Suite.new name idx).addTest p.1 p.2)
      refine ⟨hp.trans ?_, hne⟩
      rw [hsnoc]
      simp
    · obtain ⟨hp, hne⟩ := ih idx suites (current.addTest p.1 p.2)
      refine ⟨hp.trans ?_, hne⟩
      simp

theorem assigned_divideTestsIntoSuites (name : String) (testsRuntimes : List (String × ρ))
    (maxTime : ρ) (maxSuites maxTests : Option ℕ) (idx : ℕ) :
    (assigned (divideTestsIntoSuites name testsRuntimes maxTime maxSuites maxTests idx).1).Perm
      (testsRuntimes.map Prod.fst) := by
  obtain ⟨hp, hne⟩ := assigned_divideLoop name maxTime maxSuites maxTests (idx + 1) []
    (Suite.new name idx) testsRuntimes
  unfold divideTestsIntoSuites
  revert hp hne
  generalize divideLoop name maxTime maxSuites maxTests (idx + 1) [] (Suite.new name idx)
    testsRuntimes = r
  obtain ⟨suites, current, remaining, idx'⟩ := r
  intro hp hne
  dsimp only at hp hne ⊢
  have hs : assigned (if current.tests ≠ [] then suites ++ [current] else suites) =
      assigned suites ++ current.tests := by
    split_ifs with hc
    · simp [assigned]
    · rw [not_not.mp hc, List.append_nil]
  refine List.Perm.trans ?_ hp
  rw [← hs]
  cases remaining with
  | nil => simp [divideRemainingTestsAmongSuites, divideRemaining]
  | cons p rest =>
    refine assigned_divideRemaining _ ?_
    have hlen := List.length_pos_iff.mpr (hne (List.cons_ne_nil p rest))
    split_ifs
    · rw [List.length_append]
      omega
    · exact hlen

theorem assigned_fallbackLoop {n i : ℕ} {suites : List (Suite ρ)} (hn : 0 < n)
    (hlen : suites.length = n) (tests : List String) :
    (assigned (fallbackLoop n i suites tests)).Perm (assigned suites ++ tests) := by
  induction tests generalizing i suites with
  | nil => simp [fallbackLoop]
  | cons t ts ih =>
    have hi : i % n < suites.length := by
      rw [hlen]
      exact Nat.mod_lt i hn
    have hlen' : (suites.modify (i % n) (·.addTest t 0)).length = n := by
      rw [List.length_modify, hlen]
    have hp := (ih (i := i + 1) hlen').trans ((assigned_modify hi t 0).append_right ts)
    exact hp.trans List.perm_middle.symm

/-- The suites that one of the splitters makes of the tests `testList`. -/
def Splits (testList : List String) (suites : List (Suite ρ)) : Prop :=
  (∃ name n idx idx', 0 < n ∧ calculateFallbackSuites name n testList idx = some (suites, idx')) ∨
  (∃ name testsRuntimes maxTime maxSuites maxTests idx, testsRuntimes.map Prod.fst = testList ∧
    (divideTestsIntoSuites name testsRuntimes maxTime maxSuites maxTests idx).1 = suites)

/-- **Every test is assigned once.** -/
theorem Splits.perm {testList : List String} {suites : List (Suite ρ)} (h : Splits testList suites) :
    (assigned suites).Perm testList := by
  obtain ⟨name, n, idx, idx', hn, hc⟩ | ⟨name, trs, maxTime, maxSuites, maxTests, idx, rfl, rfl⟩ := h
  · rw [calculateFallbackSuites, if_neg (by omega)] at hc
    obtain ⟨rfl, -⟩ := Prod.mk.inj (Option.some.inj hc)
    have hnew : assigned ((List.range n).map fun i => (Suite.new name (idx + i) : Suite ρ)) = [] := by
      simp [assigned, List.flatMap_eq_nil_iff]
    have hlen : ((List.range n).map fun i => (Suite.new name (idx + i) : Suite ρ)).length = n := by
      simp
    have hp := assigned_fallbackLoop (i := 0) hn hlen testList
    rwa [hnew, List.nil_append] at hp
  · exact assigned_divideTestsIntoSuites name trs maxTime maxSuites maxTests idx

end Splits

/-! ## The misc suite -/

section Misc

variable {ex : TestFileExplorer} {g : Globals} {source : Section} {all excluded testList : List String}

theorem updateSuiteConfig_excludes_nil (c : Section) :
    updateSuiteConfig c none (some []) = { c with excludeFiles := none } := rfl

theorem updateSuiteConfig_excludes (c : Section) (h : testList ≠ []) :
    updateSuiteConfig c none (some testList) =
      { c with excludeFiles := some (c.excludeFiles.getD [] ++ testList) } := by
  simp [updateSuiteConfig, h]

theorem expandedRoots_misc (c : Section) (testList : List String) :
    (updateSuiteConfig c none (some testList)).expandedRoots ex = c.expandedRoots ex := by
  by_cases h : testList = []
  · rw [h]
    rfl
  · rw [updateSuiteConfig_excludes c h]
    rfl

/-- Neither the roots nor the excluded files are part of the tag options. -/
theorem Section.tagsMatch_with {c : Section} {roots excludes : Option (List String)}
    {tags : List String} : Section.TagsMatch g { c with roots := roots, excludeFiles := excludes }
      tags ↔ c.TagsMatch g tags :=
  ⟨fun ⟨h1, h2, h3, h4⟩ => ⟨h1, h2, h3, h4⟩, fun ⟨h1, h2, h3, h4⟩ => ⟨h1, h2, h3, h4⟩⟩

/-- Other roots and other excluded files keep a section valid, unless it has a root file. -/
theorem selectorConfig_with {c : Section} {cfg : SelectorConfig} (h : selectorConfig g c = .ok cfg)
    (roots excludes : Option (List String))
    (hr : ¬ (c.root.getD "" ≠ "" ∧ roots.getD [] ≠ [])) :
    ∃ cfg', selectorConfig g { c with roots := roots, excludeFiles := excludes } = .ok cfg' := by
  obtain ⟨u, hu, h⟩ := bind_eq_ok.mp h
  obtain ⟨o, ho, h⟩ := bind_eq_ok.mp h
  have hu' : checkCompatible { c with roots := roots, excludeFiles := excludes } = .ok () :=
    checkCompatible_eq_ok.mpr ⟨hr, (checkCompatible_eq_ok.mp hu).2⟩
  exact ⟨_, bind_eq_ok.mpr ⟨(), hu', bind_eq_ok.mpr ⟨o, ho, rfl⟩⟩⟩

/-- The selection with other excluded files: it does not raise if every entry is a pattern or names
a root. -/
theorem filterTests_excludes (h : filterTests ex g source = .ok (all, excluded))
    (excludes : Option (List String)) :
    ∃ roots, source.expandedRoots ex = .ok roots ∧
      (∀ f ∈ source.excludeFiles.getD [], Excludable roots f) ∧
      ((∃ r, filterTests ex g { source with excludeFiles := excludes } = .ok r) ↔
        ∀ f ∈ excludes.getD [], Excludable roots f) := by
  obtain ⟨cfg, roots, hcfg, hroots, hx, -⟩ := filterTests_eq_ok.mp h
  obtain ⟨u, hu, -⟩ := bind_eq_ok.mp hcfg
  obtain ⟨cfg', hcfg'⟩ := selectorConfig_with hcfg source.roots excludes
    (checkCompatible_eq_ok.mp hu).1
  refine ⟨roots, hroots, hx, ?_, ?_⟩
  · rintro ⟨r, hr⟩
    obtain ⟨_, roots', -, hroots', hx', -⟩ := filterTests_eq_ok.mp hr
    cases Except.ok.inj (hroots.symm.trans hroots')
    exact hx'
  · intro hx'
    exact ⟨_, filterTests_eq_ok.mpr ⟨cfg', roots, hcfg', hroots, hx', rfl⟩⟩

/-- The assigned tests can be taken away by naming them in `exclude_files`: no `include_files`
bring them back, each name is read as an entry that does not raise, and among the selected tests the
entries stand for the assigned tests only. With no assigned test, the exclusions of the source are
lost, so they must have no effect. -/
structure MiscExact (ex : TestFileExplorer) (g : Globals) (source : Section)
    (all testList : List String) : Prop where
  noInclude : source.includeFiles.getD [] ≠ [] → testList = []
  noExclude : testList = [] → source.includeFiles.getD [] = [] →
    ∀ roots, source.expandedRoots ex = .ok roots →
      ∀ t ∈ roots, t ∈ source.excluded ex → ¬ source.TagsMatch g (ex.getTags t)
  readable : ∀ roots, source.expandedRoots ex = .ok roots → ∀ t ∈ testList, Excludable roots t
  denotes : ∀ t ∈ all, t ∈ testList.flatMap (TestList.expandInclude ex) ↔ t ∈ testList

/-- The misc suite selects the tests of the source suite that were not assigned. -/
def MiscComplement (ex : TestFileExplorer) (g : Globals) (source : Section)
    (all testList : List String) : Prop :=
  ∃ misc rest, filterTests ex g (updateSuiteConfig source none (some testList)) = .ok (misc, rest) ∧
    misc.Perm (all.filter (· ∉ testList))

/-- Without `include_files` the misc section asks for what the source asks for, less what the
entries stand for. -/
theorem selects_excludes (hi : source.includeFiles.getD [] = []) (t : String) :
    Section.Selects ex g { source with excludeFiles := some (source.excludeFiles.getD [] ++ testList) }
      t ↔ source.Selects ex g t ∧ t ∉ testList.flatMap (TestList.expandInclude ex) := by
  unfold Section.Selects
  rw [if_pos hi, if_pos hi, Section.tagsMatch_with, Section.excluded, Section.excluded,
    Option.getD_some, List.flatMap_append, List.mem_append, not_or]
  exact and_right_comm

theorem selects_of_include (hi : source.includeFiles.getD [] ≠ [])
    (excludes : Option (List String)) (t : String) :
    Section.Selects ex g { source with excludeFiles := excludes } t ↔ source.Selects ex g t := by
  unfold Section.Selects
  rw [if_neg hi, if_neg hi]
  rfl

theorem selects_excludes_nil (hi : source.includeFiles.getD [] = []) (t : String) :
    Section.Selects ex g { source with excludeFiles := none } t ↔
      source.TagsMatch g (ex.getTags t) := by
  unfold Section.Selects
  rw [if_pos hi, Section.tagsMatch_with, Section.excluded, Option.getD_none, List.flatMap_nil]
  exact and_iff_right List.not_mem_nil

/-- What the misc section asks for among the roots, when `MiscExact` holds. -/
theorem MiscExact.selects (hm : MiscExact ex g source all testList)
    {roots : List String} (hroots : source.expandedRoots ex = .ok roots)
    (hall : ∀ t, t ∈ all ↔ t ∈ roots ∧ source.Selects ex g t) {t : String} (ht : t ∈ roots) :
    (updateSuiteConfig source none (some testList)).Selects ex g t ↔ t ∈ all ∧ t ∉ testList := by
  by_cases hn : testList = []
  · subst hn
    rw [updateSuiteConfig_excludes_nil, hall, and_iff_right ht, and_iff_left List.not_mem_nil]
    by_cases hi : source.includeFiles.getD [] = []
    · rw [selects_excludes_nil hi, Section.Selects, if_pos hi]
      refine ⟨fun htags => ⟨fun hx => ?_, htags⟩, And.right⟩
      exact hm.noExclude rfl hi roots hroots t ht hx htags
    · exact selects_of_include hi none t
  · have hi : source.includeFiles.getD [] = [] := by
      by_contra hi
      exact hn (hm.noInclude hi)
    rw [updateSuiteConfig_excludes source hn, selects_excludes hi]
    have hsel : source.Selects ex g t ↔ t ∈ all := by rw [hall, and_iff_right ht]
    rw [hsel]
    exact and_congr_right fun hta => not_congr (hm.denotes t hta)

theorem MiscExact.complement (hs : filterTests ex g source = .ok (all, excluded))
    (hm : MiscExact ex g source all testList) : MiscComplement ex g source all testList := by
  obtain ⟨roots, hroots, hall, -, hnodup, -⟩ := mem_filterTests hs
  have hok : ∃ r, filterTests ex g (updateSuiteConfig source none (some testList)) = .ok r := by
    by_cases hn : testList = []
    · obtain ⟨_, -, -, h⟩ := filterTests_excludes hs none
      rw [hn, updateSuiteConfig_excludes_nil]
      exact h.mpr (by simp)
    · obtain ⟨roots', hroots', hx, h⟩ := filterTests_excludes hs
        (some (source.excludeFiles.getD [] ++ testList))
      rw [updateSuiteConfig_excludes source hn]
      refine h.mpr fun f hf => ?_
      obtain hf | hf := List.mem_append.mp hf
      · exact hx f hf
      · exact hm.readable roots' hroots' f hf
  obtain ⟨⟨misc, rest⟩, hok⟩ := hok
  obtain ⟨roots', hroots', hmisc, -, hnodup', -⟩ := mem_filterTests hok
  rw [expandedRoots_misc] at hroots'
  cases Except.ok.inj (hroots.symm.trans hroots')
  refine ⟨misc, rest, hok, (List.perm_ext_iff_of_nodup hnodup' (hnodup.filter _)).mpr fun t => ?_⟩
  rw [hmisc, List.mem_filter, decide_eq_true_iff]
  constructor
  · rintro ⟨ht, hsel⟩
    exact (hm.selects hroots hall ht).mp hsel
  · intro h
    have ht : t ∈ roots := ((hall t).mp h.1).1
    exact ⟨ht, (hm.selects hroots hall ht).mpr h⟩

theorem MiscComplement.exact (hs : filterTests ex g source = .ok (all, excluded))
    (hsub : ∀ t ∈ testList, t ∈ all) (hc : MiscComplement ex g source all testList) :
    MiscExact ex g source all testList := by
  obtain ⟨roots, hroots, hall, -, hnodup, -⟩ := mem_filterTests hs
  obtain ⟨misc, rest, hok, hperm⟩ := hc
  obtain ⟨roots', hroots', hmisc, -⟩ := mem_filterTests hok
  rw [expandedRoots_misc] at hroots'
  cases Except.ok.inj (hroots.symm.trans hroots')
  -- both sides of the complement, as what the misc section asks for
  have hsel : ∀ t ∈ roots, (updateSuiteConfig source none (some testList)).Selects ex g t ↔
      t ∈ all ∧ t ∉ testList := by
    intro t ht
    have hm : t ∈ misc ↔ t ∈ all ∧ t ∉ testList := by
      rw [hperm.mem_iff, List.mem_filter, decide_eq_true_iff]
    rw [← hm, hmisc, and_iff_right ht]
  have hinc : source.includeFiles.getD [] ≠ [] → testList = [] := by
    intro hi
    by_contra hn
    obtain ⟨t, ht⟩ := List.exists_mem_of_ne_nil testList hn
    obtain ⟨htr, hts⟩ := (hall t).mp (hsub t ht)
    have hback : (updateSuiteConfig source none (some testList)).Selects ex g t := by
      rw [updateSuiteConfig_excludes source hn]
      exact (selects_of_include hi _ t).mpr hts
    exact ((hsel t htr).mp hback).2 ht
  refine ⟨hinc, ?_, ?_, ?_⟩
  · rintro rfl hi roots'' hroots'' t ht hx htags
    cases Except.ok.inj (hroots.symm.trans hroots'')
    have hta := ((hsel t ht).mp ((selects_excludes_nil hi t).mpr htags)).1
    have hts := ((hall t).mp hta).2
    rw [Section.Selects, if_pos hi] at hts
    exact hts.1 hx
  · intro roots'' hroots'' t ht
    have hn : testList ≠ [] := List.ne_nil_of_mem ht
    obtain ⟨roots₃, hroots₃, -, h⟩ := filterTests_excludes hs
      (some (source.excludeFiles.getD [] ++ testList))
    cases Except.ok.inj (hroots''.symm.trans hroots₃)
    rw [updateSuiteConfig_excludes source hn] at hok
    exact h.mp ⟨_, hok⟩ t (List.mem_append_right _ ht)
  · intro t hta
    by_cases hn : testList = []
    · rw [hn]
      exact Iff.rfl
    · have hi : source.includeFiles.getD [] = [] := by
        by_contra hi
        exact hn (hinc hi)
      obtain ⟨htr, hts⟩ := (hall t).mp hta
      have h := hsel t htr
      rw [updateSuiteConfig_excludes source hn, selects_excludes hi, and_iff_right hts,
        and_iff_right hta] at h
      exact not_iff_not.mp h

/-! ## Sub-suites and misc suite together -/

variable [Zero ρ] [Add ρ] [LT ρ] [DecidableLT ρ] [DecidableEq ρ]

/-- A sub-suite selects its assigned tests, whatever the tag options of its source: they are
selected tests of the source. -/
theorem subSuite_perm (hs : filterTests ex g source = .ok (all, excluded))
    (hroot : source.root.getD "" = "") {tests : List String} (hne : tests ≠ [])
    (hnodup : tests.Nodup) (hsub : ∀ t ∈ tests, t ∈ all) (hp : ∀ t ∈ tests, ex.Plain t) :
    ∃ run, filterTests ex g (updateSuiteConfig source (some tests) none) = .ok (run, []) ∧
      run.Perm tests := by
  obtain ⟨cfg, _, hcfg, -⟩ := filterTests_eq_ok.mp hs
  obtain ⟨_, -, hall, -⟩ := mem_filterTests hs
  obtain ⟨cfg', hcfg'⟩ := selectorConfig_with hcfg (some tests) none fun h => h.1 hroot
  have hsel : ∀ t ∈ tests, Section.Selects ex g
      { source with roots := some tests, excludeFiles := none } t := by
    intro t ht
    have hts := ((hall t).mp (hsub t ht)).2
    unfold Section.Selects at hts ⊢
    split_ifs at hts ⊢ with hi
    · exact ⟨List.not_mem_nil, Section.tagsMatch_with.mpr hts.2⟩
    · exact hts
  rw [updateSuiteConfig_roots source hne]
  have hroots : Section.expandedRoots ex
      { source with roots := some tests, excludeFiles := none } = .ok tests :=
    TestList.expandFiles_plain hp
  obtain ⟨⟨run, rest⟩, hok⟩ : ∃ r, filterTests ex g
      { source with roots := some tests, excludeFiles := none } = .ok r :=
    ⟨_, filterTests_eq_ok.mpr ⟨cfg', tests, hcfg', hroots, List.forall_mem_nil _, rfl⟩⟩
  obtain ⟨roots', hroots', hrun, hrest, hnodup', -⟩ := mem_filterTests hok
  cases Except.ok.inj (hroots.symm.trans hroots')
  have hnil : rest = [] := by
    refine List.eq_nil_iff_forall_not_mem.mpr fun t ht => ?_
    obtain ⟨htt, hns⟩ := (hrest t).mp ht
    exact hns (hsel t htt)
  subst hnil
  refine ⟨run, hok, (List.perm_ext_iff_of_nodup hnodup' hnodup).mpr fun t => ?_⟩
  rw [hrun]
  exact and_iff_left_of_imp (hsel t)

/-- **The misc suite.** For every section whose selection does not raise and every list of tests
that it selects, the misc section selects exactly the other tests if and only if `MiscExact` holds.
Then, if a splitter made suites of the list, all with a test, and the names in the list are plain,
the sub-suites and the misc suite together run every test of the source once. -/
theorem misc_suite_iff (hs : filterTests ex g source = .ok (all, excluded))
    (hsub : ∀ t ∈ testList, t ∈ all) :
    (MiscComplement ex g source all testList ↔ MiscExact ex g source all testList) ∧
    (MiscExact ex g source all testList → ∀ suites : List (Suite ρ), Splits testList suites →
      testList.Nodup → source.root.getD "" = "" → (∀ t ∈ testList, ex.Plain t) →
      (∀ suite ∈ suites, suite.tests ≠ []) →
      ∃ (run : Suite ρ → List String) (misc rest : List String),
        (∀ suite ∈ suites,
          filterTests ex g (updateSuiteConfig source (some suite.tests) none) = .ok (run suite, [])) ∧
        filterTests ex g (updateSuiteConfig source none (some testList)) = .ok (misc, rest) ∧
        (suites.flatMap run ++ misc).Perm all) := by
  refine ⟨⟨MiscComplement.exact hs hsub, MiscExact.complement hs⟩, ?_⟩
  intro hm suites hsplit hnodup hroot hp hne
  have hperm := hsplit.perm
  have hall_nodup : (suites.flatMap Suite.tests).Nodup := hperm.nodup_iff.mpr hnodup
  have hsuite : ∀ suite ∈ suites, ∃ run,
      filterTests ex g (updateSuiteConfig source (some suite.tests) none) = .ok (run, []) ∧
        run.Perm suite.tests := by
    intro suite hsu
    have hin : ∀ t ∈ suite.tests, t ∈ testList := fun t ht =>
      hperm.mem_iff.mp (List.mem_flatMap.mpr ⟨suite, hsu, ht⟩)
    exact subSuite_perm hs hroot (hne suite hsu)
      ((List.nodup_flatMap.mp hall_nodup).1 suite hsu) (fun t ht => hsub t (hin t ht))
      fun t ht => hp t (hin t ht)
  choose! run hrun hrunperm using hsuite
  obtain ⟨misc, rest, hmisc, hmiscperm⟩ := MiscExact.complement hs hm
  refine ⟨run, misc, rest, hrun, hmisc, ?_⟩
  have hsubperm : (suites.flatMap run).Perm testList :=
    (List.Perm.flatMap_left suites hrunperm).trans hperm
  obtain ⟨-, -, -, -, hn, -⟩ := mem_filterTests hs
  have hsplitall : (testList ++ all.filter (· ∉ testList)).Perm all := by
    refine (List.perm_ext_iff_of_nodup ?_ hn).mpr fun t => ?_
    · refine List.nodup_append.mpr ⟨hnodup, hn.filter _, ?_⟩
      rintro t ht u hu rfl
      exact (decide_eq_true_iff.mp (List.mem_filter.mp hu).2) ht
    · rw [List.mem_append, List.mem_filter, decide_eq_true_iff]
      by_cases ht : t ∈ testList
      · simp [ht, hsub t ht]
      · simp [ht]
  exact (hsubperm.append hmiscperm).trans hsplitall

end Misc

/-- Two of three tests, assigned to two suites. -/
theorem misc_suite_of_three :
    MiscComplement tree defaults (rootsOnly ["jstests/*.js"])
        ["jstests/a.js", "jstests/b.js", "jstests/c.js"] ["jstests/a.js", "jstests/c.js"] ∧
      ∃ (run : Suite ℕ → List String) (misc rest : List String),
        filterTests tree defaults (updateSuiteConfig (rootsOnly ["jstests/*.js"]) none
          (some ["jstests/a.js", "jstests/c.js"])) = .ok (misc, rest) ∧
        ((((calculateFallbackSuites "core" 2 ["jstests/a.js", "jstests/c.js"] 0).map Prod.fst).getD
          []).flatMap run ++ misc).Perm ["jstests/a.js", "jstests/b.js", "jstests/c.js"] := by
  have hs : filterTests tree defaults (rootsOnly ["jstests/*.js"]) =
      .ok (["jstests/a.js", "jstests/b.js", "jstests/c.js"], []) := by rfl
  have hsub : ∀ t ∈ ["jstests/a.js", "jstests/c.js"],
      t ∈ ["jstests/a.js", "jstests/b.js", "jstests/c.js"] := by decide
  have hm : MiscExact tree defaults (rootsOnly ["jstests/*.js"])
      ["jstests/a.js", "jstests/b.js", "jstests/c.js"] ["jstests/a.js", "jstests/c.js"] := by
    refine ⟨by decide, fun h => absurd h (by decide), fun roots hroots => ?_, by decide +kernel⟩
    cases hroots
    unfold Excludable
    decide +kernel
  obtain ⟨hiff, hrun⟩ := misc_suite_iff (ρ := ℕ) hs hsub
  obtain ⟨run, misc, rest, -, hmisc, hperm⟩ := hrun hm _ (.inl ⟨"core", 2, 0, 2, by decide, rfl⟩)
    (by decide) rfl (by decide) (by decide)
  exact ⟨hiff.mpr hm, run, misc, rest, hmisc, hperm⟩

/-- The tests of the tree, two of them by `include_files`. -/
def included : Section :=
  { rootsOnly ["jstests/*.js"] with includeFiles := some ["jstests/a.js", "jstests/b.js"] }

/-- The tests of the tree but one. -/
def allButC : Section := { rootsOnly ["jstests/*.js"] with excludeFiles := some ["jstests/c.js"] }

/-- **The misc suite runs assigned tests again.** `include_files` bring an assigned test back; and
when no test was assigned, the misc suite runs a test that the source excludes. -/
theorem misc_runs_assigned_tests :
    (filterTests tree defaults included = .ok (["jstests/a.js", "jstests/b.js"], ["jstests/c.js"]) ∧
      filterTests tree defaults (updateSuiteConfig included none (some ["jstests/a.js"])) =
        .ok (["jstests/a.js", "jstests/b.js"], ["jstests/c.js"]) ∧
      ¬ MiscComplement tree defaults included ["jstests/a.js", "jstests/b.js"] ["jstests/a.js"]) ∧
    (filterTests tree defaults allButC = .ok (["jstests/a.js", "jstests/b.js"], ["jstests/c.js"]) ∧
      filterTests tree defaults (updateSuiteConfig allButC none (some [])) =
        .ok (["jstests/a.js", "jstests/b.js", "jstests/c.js"], []) ∧
      ¬ MiscComplement tree defaults allButC ["jstests/a.js", "jstests/b.js"] []) := by
  have h1 : filterTests tree defaults (updateSuiteConfig included none (some ["jstests/a.js"])) =
      .ok (["jstests/a.js", "jstests/b.js"], ["jstests/c.js"]) := by decide +kernel
  have h2 : filterTests tree defaults (updateSuiteConfig allButC none (some [])) =
      .ok (["jstests/a.js", "jstests/b.js", "jstests/c.js"], []) := by decide +kernel
  refine ⟨⟨by decide +kernel, h1, ?_⟩, by decide +kernel, h2, ?_⟩
  · rintro ⟨misc, rest, hm, hperm⟩
    cases Except.ok.inj (h1.symm.trans hm)
    exact absurd hperm.length_eq (by decide)
  · rintro ⟨misc, rest, hm, hperm⟩
    cases Except.ok.inj (h2.symm.trans hm)
    exact absurd hperm.length_eq (by decide)

end MongoTests.Suites
