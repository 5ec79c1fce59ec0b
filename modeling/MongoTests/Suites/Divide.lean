import Mathlib.Data.List.Forall2
import MongoTests.Suites.Generate

/-!
# Splitting by runtime

What `divide_tests_into_suites` of `buildscripts/evergreen_generate_resmoke_tasks.py` makes of
a list of tests with their runtimes. Runtimes are added up and compared as the code does, from left
to right; of the order only that it is linear is used.

* `Suite.Has`: a suite with the tests and runtimes it was given, in order.
* `Loop`: what the loop keeps; `loop_divideLoop`: how it ends, with all tests or at the suite limit.
* `exists_divideRemaining`: the rest is dealt out.
* **`divide_tests_into_suites`**: the suites and their totals, and what holds of them if the suite
  limit was not hit.
-/

namespace MongoTests.Suites

open MongoTests.Lib

variable {ρ : Type*} [Zero ρ] [Add ρ] [LinearOrder ρ]

/-! ## Suites and their tests -/

/-- The suite was given the tests `l`. -/
structure Suite.Has (s : Suite ρ) (l : List (String × ρ)) : Prop where
  tests : s.tests = l.map Prod.fst
  totalRuntime : s.totalRuntime = (l.map Prod.snd).foldl (· + ·) 0
  maxRuntime : s.maxRuntime = (l.map Prod.snd).foldl max 0
  testsWithRuntimeInfo : s.testsWithRuntimeInfo = l.countP fun p => p.2 ≠ 0

namespace Suite.Has

theorem new (name : String) (i : ℕ) : (Suite.new name i : Suite ρ).Has [] := ⟨rfl, rfl, rfl, rfl⟩

theorem addTest {s : Suite ρ} {l : List (String × ρ)} (h : s.Has l) (t : String) (r : ρ) :
    (s.addTest t r).Has (l ++ [(t, r)]) where
  tests := by simp [h.tests]
  totalRuntime := by
    rw [List.map_append, List.foldl_append, ← h.totalRuntime]
    rfl
  maxRuntime := by
    rw [List.map_append, List.foldl_append, ← h.maxRuntime]
    show (if s.maxRuntime < r then r else s.maxRuntime) = max s.maxRuntime r
    rw [max_def_lt]
  testsWithRuntimeInfo := by
    rw [List.countP_append, ← h.testsWithRuntimeInfo]
    by_cases hr : r = 0 <;> simp [Suite.addTest, hr]

theorem length_tests {s : Suite ρ} {l : List (String × ρ)} (h : s.Has l) :
    s.tests.length = l.length := by
  rw [h.tests, List.length_map]

theorem tests_ne_nil {s : Suite ρ} {l : List (String × ρ)} (h : s.Has l) :
    s.tests ≠ [] ↔ l ≠ [] := by
  rw [h.tests, ne_eq, List.map_eq_nil_iff]

/-- The maximum is the runtime of one of the tests, if no runtime is negative. -/
theorem maxRuntime_mem {s : Suite ρ} {l : List (String × ρ)} (h : s.Has l) (hne : l ≠ [])
    (hpos : ∀ p ∈ l, 0 ≤ p.2) :
    s.maxRuntime ∈ l.map Prod.snd ∧ ∀ p ∈ l, p.2 ≤ s.maxRuntime := by
  obtain ⟨hmem, hle⟩ := List.max?_eq_some_iff.mp
    (List.max?_cons' : (0 :: l.map Prod.snd).max? = some ((l.map Prod.snd).foldl max 0))
  rw [← h.maxRuntime] at hmem hle
  refine ⟨?_, fun p hp => hle p.2 (List.mem_cons_of_mem _ (List.mem_map_of_mem hp))⟩
  rcases List.mem_cons.mp hmem with hzero | hmem
  · -- no runtime is above zero, and there is one
    obtain ⟨p, hp⟩ := List.exists_mem_of_ne_nil l hne
    have hp2 : p.2 ≤ s.maxRuntime := hle p.2 (List.mem_cons_of_mem _ (List.mem_map_of_mem hp))
    have heq : p.2 = s.maxRuntime := le_antisymm hp2 (hzero ▸ hpos p hp)
    exact heq ▸ List.mem_map_of_mem hp
  · exact hmem

end Suite.Has

/-- Two tests or more take at most the maximum time, and there are not too many of them. -/
structure Suite.Within (maxTime : ρ) (maxTests : Option ℕ) (s : Suite ρ) : Prop where
  time : 2 ≤ s.tests.length → s.totalRuntime ≤ maxTime
  tests : ∀ m ∈ limit maxTests, s.tests.length ≤ m

namespace Suite.Within

variable {maxTime : ρ} {maxTests : Option ℕ}

omit [Add ρ] in
theorem new (name : String) (i : ℕ) : (Suite.new name i : Suite ρ).Within maxTime maxTests :=
  ⟨fun h => absurd h (by simp), fun m _ => Nat.zero_le m⟩

/-- A test that fits, or that is alone. -/
theorem addTest {s : Suite ρ} (t : String) {r : ρ}
    (h : newSuiteNeeded s r maxTime maxTests = false ∨ s.tests = []) :
    (s.addTest t r).Within maxTime maxTests := by
  have hlen : (s.addTest t r).tests.length = s.tests.length + 1 := by simp
  rcases h with h | h
  · obtain ⟨htime, htests⟩ := Bool.or_eq_false_iff.mp h
    refine ⟨fun _ => not_lt.mp (of_decide_eq_false htime), fun m hm => ?_⟩
    rw [Option.mem_def.mp hm, Option.any_some, decide_eq_false_iff_not] at htests
    unfold Suite.getTestCount at htests
    omega
  · rw [h, List.length_nil] at hlen
    refine ⟨fun h2 => absurd h2 (by omega), fun m hm => ?_⟩
    have hpos : m ≠ 0 := by simpa using (Option.filter_eq_some_iff.mp hm).2
    omega

end Suite.Within

/-! ## The loop -/

/-- What the loop keeps: the finished suites have the tests `done`, the current one has `cur`, and
`rest` is still to come. -/
structure Division (maxTime : ρ) (maxTests : Option ℕ) (testsRuntimes : List (String × ρ))
    (suites : List (Suite ρ)) (current : Suite ρ) (rest : List (String × ρ))
    (done : List (List (String × ρ))) (cur : List (String × ρ)) : Prop where
  finished : List.Forall₂ Suite.Has suites done
  has : current.Has cur
  order : done.flatten ++ cur ++ rest = testsRuntimes
  done_ne_nil : ∀ l ∈ done, l ≠ []
  within : ∀ s ∈ suites, s.Within maxTime maxTests
  current_within : current.Within maxTime maxTests

/-- The end of the loop: all tests are assigned, or there are as many suites as there may be. -/
inductive Ends (maxSuites : Option ℕ) (suites : List (Suite ρ)) (cur rest : List (String × ρ)) :
    Prop
  | all : rest = [] → (∀ m ∈ limit maxSuites, suites.length < m) → Ends maxSuites suites cur rest
  | hit : rest ≠ [] → suites ≠ [] → cur = [] → (∀ m ∈ limit maxSuites, suites.length ≤ m) →
      Ends maxSuites suites cur rest

section DivideLoop

variable {maxTime : ρ} {maxSuites maxTests : Option ℕ} {testsRuntimes rest : List (String × ρ)}
  {suites : List (Suite ρ)} {current : Suite ρ} {done : List (List (String × ρ))}
  {cur : List (String × ρ)}

/-- The current suite gets a test. -/
theorem Division.add {t : String} {r : ρ}
    (h : Division maxTime maxTests testsRuntimes suites current ((t, r) :: rest) done cur)
    (hfit : newSuiteNeeded current r maxTime maxTests = false ∨ current.tests = []) :
    Division maxTime maxTests testsRuntimes suites (current.addTest t r) rest done
      (cur ++ [(t, r)]) where
  finished := h.finished
  has := h.has.addTest t r
  order := by
    rw [← h.order]
    simp
  done_ne_nil := h.done_ne_nil
  within := h.within
  current_within := .addTest t hfit

/-- The current suite is finished, and a new one begins. -/
theorem Division.finish (name : String) (i : ℕ)
    (h : Division maxTime maxTests testsRuntimes suites current rest done cur)
    (hne : current.tests ≠ []) :
    Division maxTime maxTests testsRuntimes (suites ++ [current]) (.new name i) rest
      (done ++ [cur]) [] where
  finished := List.rel_append h.finished (.cons h.has .nil)
  has := .new name i
  order := by
    rw [← h.order]
    simp
  done_ne_nil := by
    simp only [List.forall_mem_append, List.forall_mem_singleton]
    exact ⟨h.done_ne_nil, h.has.tests_ne_nil.mp hne⟩
  within := by
    simp only [List.forall_mem_append, List.forall_mem_singleton]
    exact ⟨h.within, h.current_within⟩
  current_within := .new name i

/-- The loop ends, and until then there is room for another suite. -/
theorem exists_divideLoop (name : String) (idx : ℕ)
    (h : Division maxTime maxTests testsRuntimes suites current rest done cur)
    (hroom : ∀ m ∈ limit maxSuites, suites.length < m) :
    let r := divideLoop name maxTime maxSuites maxTests idx suites current rest
    ∃ done' cur', Division maxTime maxTests testsRuntimes r.1 r.2.1 r.2.2.1 done' cur' ∧
      Ends maxSuites r.1 cur' r.2.2.1 := by
  induction rest generalizing idx suites current done cur with
  | nil => exact ⟨done, cur, h, .all rfl hroom⟩
  | cons p rest ih =>
    obtain ⟨t, r⟩ := p
    unfold divideLoop
    by_cases hnew : (newSuiteNeeded current r maxTime maxTests && current.tests ≠ []) = true
    · obtain ⟨-, hne⟩ := Bool.and_eq_true_iff.mp hnew
      have hfinish := h.finish name idx (of_decide_eq_true hne)
      rw [if_pos hnew]
      dsimp only
      by_cases hfull : (limit maxSuites).any
          (fun m => decide (m ≤ (suites ++ [current]).length)) = true
      · rw [if_pos hfull]
        refine ⟨_, _, hfinish, .hit (List.cons_ne_nil _ _) (by simp) rfl fun m hm => ?_⟩
        have := hroom m hm
        simp only [List.length_append, List.length_singleton]
        omega
      · rw [if_neg hfull]
        refine ih (idx + 1) (hfinish.add (.inr rfl)) fun m hm => ?_
        rw [Option.mem_def.mp hm, Option.any_some, decide_eq_true_iff] at hfull
        omega
    · rw [if_neg hnew]
      refine ih idx (h.add ?_) hroom
      by_cases hne : current.tests = []
      · exact .inr hne
      · exact .inl (by simpa [hne] using hnew)

end DivideLoop

/-! ## The rest -/

theorem forall₂_modify {suites : List (Suite ρ)} {given : List (List (String × ρ))}
    (h : List.Forall₂ Suite.Has suites given) (i : ℕ) (t : String) (r : ρ) :
    List.Forall₂ Suite.Has (suites.modify i (·.addTest t r)) (given.modify i (· ++ [(t, r)])) := by
  induction h generalizing i with
  | nil => simp
  | cons hs hrest ih =>
    cases i with
    | zero => exact .cons (hs.addTest t r) hrest
    | succ i => exact .cons hs (ih i)

theorem flatten_modify_perm {α : Type*} {ls : List (List α)} {i : ℕ} (hi : i < ls.length) (x : α) :
    (ls.modify i (· ++ [x])).flatten.Perm (ls.flatten ++ [x]) := by
  induction ls generalizing i with
  | nil => simp at hi
  | cons l ls ih =>
    cases i with
    | zero =>
      rw [List.modify_zero_cons, List.flatten_cons, List.flatten_cons, List.append_assoc,
        List.append_assoc]
      exact List.perm_append_comm.append_left l
    | succ i =>
      rw [List.modify_succ_cons, List.flatten_cons, List.flatten_cons, List.append_assoc]
      exact (ih (by simpa using hi)).append_left l

theorem ne_nil_of_mem_modify {α : Type*} {ls : List (List α)} (h : ∀ l ∈ ls, l ≠ []) (i : ℕ)
    (x : α) : ∀ l ∈ ls.modify i (· ++ [x]), l ≠ [] := by
  induction ls generalizing i with
  | nil => simp
  | cons l ls ih =>
    obtain ⟨hl, hls⟩ := List.forall_mem_cons.mp h
    cases i with
    | zero => exact List.forall_mem_cons.mpr ⟨List.append_ne_nil_of_left_ne_nil hl _, hls⟩
    | succ i => exact List.forall_mem_cons.mpr ⟨hl, ih hls i⟩

/-- The rest is dealt out, and no suite loses a test. -/
theorem exists_divideRemaining {suites : List (Suite ρ)} {given : List (List (String × ρ))}
    (h : List.Forall₂ Suite.Has suites given) (hne : ∀ l ∈ given, l ≠ []) {i : ℕ}
    (hi : i < suites.length) (rest : List (String × ρ)) :
    ∃ given', List.Forall₂ Suite.Has (divideRemaining i suites rest) given' ∧
      (∀ l ∈ given', l ≠ []) ∧ given'.flatten.Perm (given.flatten ++ rest) ∧
      (divideRemaining i suites rest).length = suites.length := by
  induction rest generalizing suites given i with
  | nil => exact ⟨given, h, hne, by simp, rfl⟩
  | cons p rest ih =>
    obtain ⟨t, r⟩ := p
    have hlen : (suites.modify i (·.addTest t r)).length = suites.length :=
      List.length_modify _ _ _
    have hnext : (if suites.length ≤ i + 1 then 0 else i + 1) <
        (suites.modify i (·.addTest t r)).length := by
      rw [hlen]
      split_ifs <;> omega
    obtain ⟨given', hg, hgne, hperm, hglen⟩ := ih (forall₂_modify h i t r)
      (ne_nil_of_mem_modify hne i (t, r)) hnext
    refine ⟨given', hg, hgne, hperm.trans ?_, hglen.trans hlen⟩
    have hmod := flatten_modify_perm (h.length_eq ▸ hi) (t, r)
    simpa using hmod.append_right rest

/-! ## The suites -/

/-- A suite with the tests and runtimes `l`: its totals are those of `l`. -/
structure Suite.Totals (s : Suite ρ) (l : List (String × ρ)) : Prop where
  tests : s.tests = l.map Prod.fst
  testCount : s.getTestCount = l.length
  totalRuntime : s.totalRuntime = (l.map Prod.snd).foldl (· + ·) 0
  maxRuntime_mem : s.maxRuntime ∈ l.map Prod.snd
  le_maxRuntime : ∀ p ∈ l, p.2 ≤ s.maxRuntime
  testsWithRuntimeInfo : s.testsWithRuntimeInfo = l.countP fun p => p.2 ≠ 0

/-- The tests that the loop leaves when it stops at the suite limit. -/
def remainingTests (suiteName : String) (testsRuntimes : List (String × ρ)) (maxTimeSeconds : ρ)
    (maxSuites maxTestsPerSuite : Option ℕ) (idx : ℕ) : List (String × ρ) :=
  (divideLoop suiteName maxTimeSeconds maxSuites maxTestsPerSuite (idx + 1) []
    (.new suiteName idx) testsRuntimes).2.2.1

/-- The tests of all suites, by what each was given. -/
theorem flatMap_tests {suites : List (Suite ρ)} {given : List (List (String × ρ))}
    (h : List.Forall₂ Suite.Has suites given) :
    suites.flatMap Suite.tests = given.flatten.map Prod.fst := by
  induction h with
  | nil => rfl
  | cons hs _ ih => rw [List.flatMap_cons, ih, hs.tests, List.flatten_cons, List.map_append]

theorem totals_of_has {suites : List (Suite ρ)} {given : List (List (String × ρ))}
    (h : List.Forall₂ Suite.Has suites given) (hne : ∀ l ∈ given, l ≠ [])
    (hpos : ∀ l ∈ given, ∀ p ∈ l, 0 ≤ p.2) :
    List.Forall₂ Suite.Totals suites given ∧ ∀ s ∈ suites, s.tests ≠ [] := by
  induction h with
  | nil => exact ⟨.nil, List.forall_mem_nil _⟩
  | @cons s l _ _ hs _ ih =>
    obtain ⟨hl, hne⟩ := List.forall_mem_cons.mp hne
    obtain ⟨hlpos, hpos⟩ := List.forall_mem_cons.mp hpos
    obtain ⟨htotals, htests⟩ := ih hne hpos
    obtain ⟨hmem, hle⟩ := hs.maxRuntime_mem hl hlpos
    have hs' : s.Totals l := ⟨hs.tests, hs.length_tests, hs.totalRuntime, hmem, hle,
      hs.testsWithRuntimeInfo⟩
    exact ⟨.cons hs' htotals, List.forall_mem_cons.mpr ⟨hs.tests_ne_nil.mpr hl, htests⟩⟩

theorem exists_divideTestsIntoSuites (name : String) (testsRuntimes : List (String × ρ))
    (maxTime : ρ) (maxSuites maxTests : Option ℕ) (idx : ℕ) :
    let suites := (divideTestsIntoSuites name testsRuntimes maxTime maxSuites maxTests idx).1
    ∃ given, List.Forall₂ Suite.Has suites given ∧ (∀ l ∈ given, l ≠ []) ∧
      given.flatten.Perm testsRuntimes ∧ (∀ m ∈ limit maxSuites, suites.length ≤ m) ∧
      (remainingTests name testsRuntimes maxTime maxSuites maxTests idx = [] →
        given.flatten = testsRuntimes ∧ ∀ s ∈ suites, s.Within maxTime maxTests) := by
  have hstart : Division maxTime maxTests testsRuntimes [] (.new name idx) testsRuntimes [] [] :=
    ⟨.nil, .new name idx, rfl, List.forall_mem_nil _, List.forall_mem_nil _, .new name idx⟩
  have hroom : ∀ m ∈ limit maxSuites, ([] : List (Suite ρ)).length < m := by
    intro m hm
    have hpos : m ≠ 0 := by simpa using (Option.filter_eq_some_iff.mp hm).2
    exact Nat.pos_of_ne_zero hpos
  obtain ⟨done, cur, h, hends⟩ := exists_divideLoop name (idx + 1) hstart hroom
  unfold divideTestsIntoSuites remainingTests
  revert h hends
  generalize divideLoop name maxTime maxSuites maxTests (idx + 1) [] (.new name idx)
    testsRuntimes = r
  obtain ⟨suites, current, rest, idx'⟩ := r
  intro h hends
  dsimp only at h hends ⊢
  cases hends with
  | all hrest hlt =>
    subst hrest
    have horder := h.order
    by_cases hne : current.tests = []
    · have hcur : cur = [] := not_not.mp fun hc => h.has.tests_ne_nil.mpr hc hne
      subst hcur
      simp only [List.append_nil] at horder
      rw [if_neg (not_not.mpr hne)]
      exact ⟨done, h.finished, h.done_ne_nil, .of_eq horder, fun m hm => (hlt m hm).le,
        fun _ => ⟨horder, h.within⟩⟩
    · -- the last suite is not empty either
      have hfinish := h.finish name idx hne
      have horder := hfinish.order
      simp only [List.append_nil] at horder
      rw [if_pos hne]
      refine ⟨done ++ [cur], hfinish.finished, hfinish.done_ne_nil, .of_eq horder, fun m hm => ?_,
        fun _ => ⟨horder, hfinish.within⟩⟩
      have := hlt m hm
      simp only [divideRemainingTestsAmongSuites, divideRemaining, List.length_append,
        List.length_singleton]
      omega
  | hit hrest hsuites hcur hle =>
    subst hcur
    have hnil : current.tests = [] := not_not.mp fun hc => h.has.tests_ne_nil.mp hc rfl
    rw [if_neg (not_not.mpr hnil)]
    obtain ⟨given, hgiven, hgne, hperm, hlen⟩ := exists_divideRemaining h.finished h.done_ne_nil
      (List.length_pos_iff.mpr hsuites) rest
    have horder := h.order
    rw [List.append_nil] at horder
    refine ⟨given, hgiven, hgne, horder ▸ hperm, fun m hm => ?_, fun hr => absurd hr hrest⟩
    exact hlen.trans_le (hle m hm)

/-- **Splitting by runtime.** For all tests with runtimes that are not negative, the suites are not
empty, there are at most as many as there may be, and together they have the given tests, each as
often as it was given; the totals of a suite are those of its own tests. If the loop did not stop at
the suite limit, the suites have the tests in the given order, those with two tests or more take at
most the maximum time, and none has more tests than it may have. -/
theorem divide_tests_into_suites (name : String) {testsRuntimes : List (String × ρ)}
    (hpos : ∀ p ∈ testsRuntimes, 0 ≤ p.2) (maxTime : ρ) (maxSuites maxTests : Option ℕ) (idx : ℕ) :
    let suites := (divideTestsIntoSuites name testsRuntimes maxTime maxSuites maxTests idx).1
    (∀ s ∈ suites, s.tests ≠ []) ∧
    (∀ m, 0 < m → maxSuites = some m → suites.length ≤ m) ∧
    (suites.flatMap Suite.tests).Perm (testsRuntimes.map Prod.fst) ∧
    (∃ given, List.Forall₂ Suite.Totals suites given ∧ given.flatten.Perm testsRuntimes) ∧
    (remainingTests name testsRuntimes maxTime maxSuites maxTests idx = [] →
      suites.flatMap Suite.tests = testsRuntimes.map Prod.fst ∧
      (∀ s ∈ suites, 2 ≤ s.tests.length → s.totalRuntime ≤ maxTime) ∧
      ∀ m, 0 < m → maxTests = some m → ∀ s ∈ suites, s.tests.length ≤ m) := by
  have hlimit : ∀ {o : Option ℕ} {m : ℕ}, 0 < m → o = some m → m ∈ limit o := by
    rintro _ m hm rfl
    simp [limit, hm.ne']
  obtain ⟨given, hgiven, hne, hperm, hlen, hfree⟩ :=
    exists_divideTestsIntoSuites name testsRuntimes maxTime maxSuites maxTests idx
  have htests := flatMap_tests hgiven
  obtain ⟨htotals, hnonempty⟩ := totals_of_has hgiven hne fun l hl p hp =>
    hpos p (hperm.mem_iff.mp (List.mem_flatten.mpr ⟨l, hl, hp⟩))
  refine ⟨hnonempty, fun m hm h => hlen m (hlimit hm h), ?_, ⟨given, htotals, hperm⟩,
    fun hrest => ?_⟩
  · rw [htests]
    exact hperm.map _
  · obtain ⟨horder, hwithin⟩ := hfree hrest
    refine ⟨by rw [htests, horder], fun s hs => (hwithin s hs).time, fun m hm h s hs => ?_⟩
    exact (hwithin s hs).tests m (hlimit hm h)

/-- The suite limit is hit: the last two tests are dealt out. -/
theorem divide_tests_into_suites_limit :
    let tests : List (String × ℕ) := [("a.js", 4), ("b.js", 9), ("c.js", 1), ("d.js", 0)]
    let suites := (divideTestsIntoSuites "core" tests 6 (some 2) (some 1) 0).1
    suites.map Suite.tests = [["a.js", "c.js"], ["b.js", "d.js"]] ∧
      suites.map (·.totalRuntime) = [5, 9] ∧ (∀ s ∈ suites, s.tests ≠ []) ∧ suites.length ≤ 2 := by
  intro tests suites
  have hpos : ∀ p ∈ tests, 0 ≤ p.2 := fun p _ => Nat.zero_le p.2
  obtain ⟨hne, hlen, -⟩ := divide_tests_into_suites "core" hpos 6 (some 2) (some 1) 0
  exact ⟨by decide, by decide, hne, hlen 2 (by decide) rfl⟩

end MongoTests.Suites
