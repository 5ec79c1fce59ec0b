import Mathlib.Algebra.Order.Round
import Mathlib.Data.Rat.Floor
import MongoTests.Lib.Loop
import MongoTests.Lib.Rotation
import MongoTests.Suites.Selection

/-!
# Groups of tests

`_MultiJSTestSelector.select` of `resmokelib/selector.py`, which deals the selected tests out in
groups. The multiplier is an exact number, and `random.shuffle` has any outcome.

* `groupRound`, `multiSelect`: the loop and the function.
* `loop_groupRound`: the loop is over after `⌈n * multi / groupSize⌉` rounds.
* **`groups_cover`**: what the groups are made of, and that every test is in one of them.
* **`groups_balanced_iff`**: when every test is in `⌊m⌋` or `⌈m⌉` groups, whatever the shuffles.
  `groups_unbalanced`: three tests in groups of two.
-/

namespace MongoTests.Suites

open MongoTests.Lib

/-- `_MultiJSTestSelectorConfig`. -/
structure MultiSelectorConfig extends SelectorConfig where
  groupSize : Option ℕ := none
  groupCountMultiplier : ℚ := 1

inductive MultiSelectorError
  | selector (e : SelectorError)
  | zeroDivisionError

section Select

variable (ex : TestFileExplorer) (g : Globals) (sh : Shuffler String)

/-- `_JSTestSelector.select`, with the `sort_tests` of the subclass, which does not sort. -/
def jsSelect (c : SelectorConfig) : Except SelectorError (List String × List String) :=
  select ex { g with orderTestsByName := false } true c

/-- The multiplier; without a group size the tests come from the command line. -/
def MultiSelectorConfig.multi (c : MultiSelectorConfig) : ℚ :=
  if c.groupSize.isNone then 1 else c.groupCountMultiplier

/-- The group size, for a number of tests. -/
def MultiSelectorConfig.size (c : MultiSelectorConfig) (n : ℕ) : ℕ := c.groupSize.getD n

/-- A round of the `while` loop. The deck has the corpus, `start` and the grouped tests. -/
def groupRound (groupSize : ℕ) (numGroups : ℚ) (d : Deck String) : Deck String × Option Unit :=
  if (d.dealt.length : ℚ) < numGroups then
    ((d.refill (sh.shuffle (d.dealt.length + 1)) groupSize).deal groupSize, none)
  else (d, some ())

/-- `_MultiJSTestSelector.select`: the groups and the excluded tests, if the fuel suffices. -/
def multiSelect (fuel : ℕ) (c : MultiSelectorConfig) :
    Except MultiSelectorError (Option (List (List String) × List String)) := do
  let (tests, excluded) ← (jsSelect ex g c.toSelectorConfig).mapError .selector
  let groupSize := c.size tests.length
  if groupSize = 0 then .error .zeroDivisionError
  else
    let numGroups := tests.length * c.multi / groupSize
    let corpus := sh.shuffle 0 tests
    pure ((loop (groupRound sh groupSize numGroups) fuel (.new corpus)).map
      fun r => (r.1.dealt, excluded))

end Select

/-! ## The loop -/

section Loop

variable {sh : Shuffler String} {groupSize : ℕ} {numGroups : ℚ} {corpus : List String}

variable (sh groupSize numGroups corpus) in
/-- The deck after some rounds. -/
def grouped (k : ℕ) : Deck String :=
  Deck.rounds (fun k => sh.shuffle (k + 1)) groupSize (.new corpus) k

theorem length_grouped (k : ℕ) : (grouped sh groupSize corpus k).dealt.length = k := by
  rw [grouped, Deck.length_dealt_rounds]
  simp [Deck.new]

/-- The loop is over after as many rounds as there are to be groups. -/
theorem loop_groupRound {fuel : ℕ} (hfuel : ⌈numGroups⌉₊ < fuel) :
    loop (groupRound sh groupSize numGroups) fuel (.new corpus) =
      some (grouped sh groupSize corpus ⌈numGroups⌉₊, ()) := by
  refine loop_eq_of_states (t := grouped sh groupSize corpus) (fun k hk => ?_) ?_ hfuel
  · rw [groupRound, length_grouped, if_pos (Nat.lt_ceil.mp hk)]
    rfl
  · rw [groupRound, length_grouped, if_neg (not_lt.mpr (Nat.le_ceil _))]

end Loop

/-! ## The groups -/

section Groups

variable {ex : TestFileExplorer} {g : Globals} {c : MultiSelectorConfig}
  {tests excluded : List String}

theorem nodup_jsSelect {cfg : SelectorConfig} (h : jsSelect ex g cfg = .ok (tests, excluded)) :
    tests.Nodup := by
  obtain ⟨expanded, -, -, hr⟩ := select_eq_ok.mp h
  cases hr
  exact (nodup_firsts _).filter _

variable (ex g c) in
/-- With enough fuel, `select` returns these groups. -/
def Returns (sh : Shuffler String) (groups : List (List String)) (excluded : List String) : Prop :=
  ∃ bound, ∀ fuel > bound, multiSelect ex g sh fuel c = .ok (some (groups, excluded))

theorem Returns.unique {sh : Shuffler String} {groups groups' : List (List String)}
    {excluded' : List String} (h : Returns ex g c sh groups excluded)
    (h' : Returns ex g c sh groups' excluded') : groups = groups' := by
  obtain ⟨m, hm⟩ := h
  obtain ⟨n, hn⟩ := h'
  have heq := (hm (max m n + 1) (by omega)).symm.trans (hn (max m n + 1) (by omega))
  cases heq
  rfl

/-- What `select` returns when tests are selected. -/
theorem returns_grouped (h : jsSelect ex g c.toSelectorConfig = .ok (tests, excluded))
    (hsize : 1 ≤ c.size tests.length) (sh : Shuffler String) :
    Returns ex g c sh (grouped sh (c.size tests.length) (sh.shuffle 0 tests)
      ⌈tests.length * c.multi / c.size tests.length⌉₊).dealt excluded := by
  refine ⟨⌈tests.length * c.multi / c.size tests.length⌉₊, fun fuel hfuel => ?_⟩
  rw [multiSelect, h]
  show (if c.size tests.length = 0 then _ else _) = _
  rw [if_neg (by omega), loop_groupRound hfuel]
  rfl

theorem one_le_size (hne : tests ≠ []) (hsize : ∀ size ∈ c.groupSize, 1 ≤ size) :
    1 ≤ c.size tests.length := by
  unfold MultiSelectorConfig.size
  cases h : c.groupSize with
  | none => exact List.length_pos_iff.mpr hne
  | some size => exact hsize size h

theorem one_le_multi (hmulti : 1 ≤ c.groupCountMultiplier) : 1 ≤ c.multi := by
  unfold MultiSelectorConfig.multi
  split_ifs
  · exact le_rfl
  · exact hmulti

/-- **The groups cover the selected tests.** For every selection, group size, multiplier and outcome
of the shuffles, `select` returns `⌈n * multi / groupSize⌉` groups of distinct tests. -/
theorem groups_cover (h : jsSelect ex g c.toSelectorConfig = .ok (tests, excluded))
    (hne : tests ≠ []) (hsize : ∀ size ∈ c.groupSize, 1 ≤ size)
    (hmulti : 1 ≤ c.groupCountMultiplier) (sh : Shuffler String) :
    ∃ groups, Returns ex g c sh groups excluded ∧
      groups.length = ⌈tests.length * c.multi / c.size tests.length⌉₊ ∧
      (∀ group ∈ groups, group.Nodup ∧ group.length = min (c.size tests.length) tests.length ∧
        group ⊆ tests) ∧
      ∀ test ∈ tests, ∃ group ∈ groups, test ∈ group := by
  have hnodup := nodup_jsSelect h
  have hone := one_le_size hne hsize
  have hperm : ∀ k l, (sh.shuffle (k + 1) l).Perm l := fun k => sh.perm (k + 1)
  refine ⟨_, returns_grouped h hone sh, length_grouped _, fun group hgroup => ?_,
    fun test htest => ?_⟩
  · exact Deck.window_of_mem hnodup hone hperm (sh.perm 0 tests) hgroup
  · refine Deck.exists_window hnodup hone hperm (sh.perm 0 tests) ?_ htest
    have hpos : (0 : ℚ) < c.size tests.length := by exact_mod_cast hone
    have hceil : tests.length * c.multi / c.size tests.length ≤
        (⌈tests.length * c.multi / c.size tests.length⌉₊ : ℚ) := Nat.le_ceil _
    have hmul : (tests.length : ℚ) ≤
        ⌈tests.length * c.multi / c.size tests.length⌉₊ * c.size tests.length :=
      calc (tests.length : ℚ) ≤ tests.length * c.multi :=
            le_mul_of_one_le_right (Nat.cast_nonneg _) (one_le_multi hmulti)
        _ ≤ _ := (div_le_iff₀ hpos).mp hceil
    exact_mod_cast hmul

/-! ## Balance -/

/-- Every test is in `⌊m⌋` or `⌈m⌉` of the groups. -/
def Balanced (m : ℚ) (tests : List String) (groups : List (List String)) : Prop :=
  ∀ test ∈ tests, (groups.flatten.count test : ℤ) = ⌊m⌋ ∨ (groups.flatten.count test : ℤ) = ⌈m⌉

theorem Balanced.count_le {m : ℚ} {groups : List (List String)} (h : Balanced m tests groups)
    {x y : String} (hx : x ∈ tests) (hy : y ∈ tests) :
    groups.flatten.count x ≤ groups.flatten.count y + 1 := by
  have hceil := Int.ceil_le_floor_add_one m
  have hfloor := Int.floor_le_ceil m
  rcases h x hx with hx | hx <;> rcases h y hy with hy | hy <;> omega

/-- Tests that come fairly are balanced. -/
theorem balanced_of_fair {m : ℚ} {k size : ℕ} {groups : List (List String)} (hne : tests ≠ [])
    (hnodup : tests.Nodup) (hfair : Fair tests groups.flatten) (hsub : groups.flatten ⊆ tests)
    (hlength : groups.flatten.length = k * size) (hm : tests.length * m = k * size) :
    Balanced m tests groups := by
  intro test htest
  obtain ⟨hlt, hgt⟩ := hfair.count_bounds hnodup hsub htest
  rw [hlength] at hlt hgt
  have hpos : (0 : ℚ) < tests.length := by exact_mod_cast List.length_pos_iff.mpr hne
  have hlow : (groups.flatten.count test : ℚ) < m + 1 := by
    have hcast : (tests.length * groups.flatten.count test : ℚ) < k * size + tests.length := by
      exact_mod_cast hlt
    rw [← hm] at hcast
    nlinarith
  have hhigh : m < groups.flatten.count test + 1 := by
    have hcast : (k * size : ℚ) < tests.length * (groups.flatten.count test + 1) := by
      exact_mod_cast hgt
    rw [← hm] at hcast
    exact lt_of_mul_lt_mul_left hcast hpos.le
  have hfloor : ⌊m⌋ < groups.flatten.count test + 1 := Int.floor_lt.mpr (by push_cast; exact hhigh)
  have hceil : (groups.flatten.count test : ℤ) - 1 < ⌈m⌉ :=
    Int.lt_ceil.mpr (by push_cast; linarith)
  have hle := Int.ceil_le_floor_add_one m
  omega

/-- **When the groups are balanced.** Let `k` groups of `size` tests make up `m` times the selected
tests. The groups are balanced for all outcomes of the shuffles if and only if `size` divides the
number of tests, or the corpus is gone through at most twice. -/
theorem groups_balanced_iff {size k : ℕ} {m : ℚ}
    (h : jsSelect ex g c.toSelectorConfig = .ok (tests, excluded)) (hne : tests ≠ [])
    (hgroup : c.groupSize = some size) (hmulti : c.groupCountMultiplier = m) (hsize : 1 ≤ size)
    (hle : size ≤ tests.length) (hm : tests.length * m = k * size) :
    (∀ sh, ∃ groups, Returns ex g c sh groups excluded ∧ Balanced m tests groups) ↔
      size ∣ tests.length ∨ k ≤ 2 * (tests.length / size) := by
  have hnodup := nodup_jsSelect h
  have hc : c.size tests.length = size := by rw [MultiSelectorConfig.size, hgroup, Option.getD_some]
  have hnum : ⌈tests.length * c.multi / c.size tests.length⌉₊ = k := by
    have hpos : (size : ℚ) ≠ 0 := by exact_mod_cast Nat.ne_of_gt hsize
    rw [hc, MultiSelectorConfig.multi, hgroup, hmulti]
    simp only [Option.isNone_some, Bool.false_eq_true, if_false]
    rw [hm, mul_div_assoc, div_self hpos, mul_one, Nat.ceil_natCast]
  have hreturns : ∀ sh, Returns ex g c sh (grouped sh size (sh.shuffle 0 tests) k).dealt excluded := by
    intro sh
    have hgrouped := returns_grouped h (by rw [hc]; exact hsize) sh
    rwa [hnum, hc] at hgrouped
  have hlap : lap size tests.length = tests.length / size :=
    max_eq_right ((Nat.one_le_div_iff hsize).mpr hle)
  have hrest := le_lap_mul_iff (n := tests.length) hsize
  rw [or_iff_left (not_lt.mpr hle)] at hrest
  rw [← hrest, ← hlap]
  constructor
  · intro hall
    by_contra hnot
    rw [not_or, not_le, not_le] at hnot
    obtain ⟨r, x, hx, y, hy, laps, hlaps, hcx, hcy⟩ := Deck.exists_unfair hnodup hsize hnot.1 hnot.2
    obtain ⟨groups, hgroups, hbalanced⟩ := hall (.rotating String r)
    rw [hgroups.unique (hreturns _)] at hbalanced
    have hcount := hbalanced.count_le hx hy
    have hcx' : (grouped (.rotating String r) size tests k).dealt.flatten.count x = laps := hcx
    have hcy' : (grouped (.rotating String r) size tests k).dealt.flatten.count y = laps / 2 := hcy
    rw [show (Shuffler.rotating String r).shuffle 0 tests = tests from rfl, hcx', hcy'] at hcount
    omega
  · intro hk sh
    have hperm : ∀ k l, (sh.shuffle (k + 1) l).Perm l := fun k => sh.perm (k + 1)
    have hfair := Deck.fair_rounds hnodup hsize hperm (sh.perm 0 tests) hk
    refine ⟨_, hreturns sh, balanced_of_fair hne hnodup hfair
      (Deck.flatten_subset hnodup hsize hperm (sh.perm 0 tests) k) ?_ hm⟩
    rw [grouped, Deck.length_flatten hnodup hsize hperm (sh.perm 0 tests), min_eq_left hle]

end Groups

/-- Three workloads. -/
def workloadTree : TestFileExplorer where
  iglob _ := ["a.js", "b.js", "c.js"]
  isfile path := path ∈ ["a.js", "b.js", "c.js"]
  readRootFile _ := []
  getTags _ := []

/-- Groups of two. -/
def pairs (m : ℚ) : MultiSelectorConfig where
  root := none
  roots := some ["*.js"]
  includeFiles := []
  excludeFiles := []
  tagsExpression := none
  groupSize := some 2
  groupCountMultiplier := m

theorem jsSelect_pairs (m : ℚ) :
    jsSelect workloadTree ⟨none, none, false, id⟩ (pairs m).toSelectorConfig =
      .ok (["a.js", "b.js", "c.js"], []) := by
  show jsSelect workloadTree ⟨none, none, false, id⟩ ⟨none, some ["*.js"], [], [], none⟩ = _
  decide +kernel

/-- With the multiplier `5 / 3` there are three groups of two workloads. -/
theorem groups_cover_pairs :
    ∃ groups, Returns workloadTree ⟨none, none, false, id⟩ (pairs (5 / 3)) (.rotating String 1)
        groups [] ∧ groups.length = 3 ∧ ∀ test ∈ ["a.js", "b.js", "c.js"],
          ∃ group ∈ groups, test ∈ group := by
  obtain ⟨groups, hgroups, hlength, -, hcover⟩ := groups_cover (jsSelect_pairs (5 / 3))
    (List.cons_ne_nil _ _) (fun size hsize => by cases hsize; decide) (by norm_num [pairs])
    (.rotating String 1)
  refine ⟨groups, hgroups, hlength.trans ?_, hcover⟩
  rw [Nat.ceil_eq_iff (by decide)]
  norm_num [pairs, MultiSelectorConfig.multi, MultiSelectorConfig.size]

/-- Two groups are balanced: the corpus is turned once. -/
theorem groups_balanced_twice :
    2 ≤ 2 * (3 / 2) ∧ ∀ sh, ∃ groups,
      Returns workloadTree ⟨none, none, false, id⟩ (pairs (4 / 3)) sh groups [] ∧
        Balanced (4 / 3) ["a.js", "b.js", "c.js"] groups :=
  ⟨by decide, (groups_balanced_iff (k := 2) (jsSelect_pairs (4 / 3)) (List.cons_ne_nil _ _) rfl rfl
    (by decide) (by decide) (by norm_num [pairs])).mpr (.inr (by decide))⟩

/-- **Three groups need not be balanced**: one workload is in all of them, another one in one. -/
theorem groups_unbalanced :
    Returns workloadTree ⟨none, none, false, id⟩ (pairs 2) (.rotating String 1)
        [["a.js", "b.js"], ["c.js", "b.js"], ["a.js", "b.js"]] [] ∧
      ¬ Balanced 2 ["a.js", "b.js", "c.js"]
        [["a.js", "b.js"], ["c.js", "b.js"], ["a.js", "b.js"]] := by
  have hnum : ⌈(["a.js", "b.js", "c.js"].length : ℚ) * (pairs 2).multi /
      (pairs 2).size ["a.js", "b.js", "c.js"].length⌉₊ = 3 := by
    rw [Nat.ceil_eq_iff (by decide)]
    norm_num [pairs, MultiSelectorConfig.multi, MultiSelectorConfig.size]
  constructor
  · have hreturns := returns_grouped (jsSelect_pairs 2) (by decide) (.rotating String 1)
    rwa [hnum] at hreturns
  · intro h
    have hcount := h.count_le (x := "b.js") (y := "c.js") (by simp) (by simp)
    revert hcount
    decide

end MongoTests.Suites
