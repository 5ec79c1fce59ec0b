import Mathlib.Algebra.Order.Round
import Mathlib.Data.Rat.Floor
import MongoTests.Lib.Loop
import MongoTests.Lib.Rotation

/-!
# Scheduling workloads

`scheduleWorkloads` of `runner.js`, which takes subsets of the workloads that are run together. The
outcomes of `Array.shuffle` are the environment's.

* `subsetSize`, `numSubsets`: the options with their defaults; `scheduleRound`, `scheduleWorkloads`.
* `returns_scheduled`: the subsets are those that are dealt from a deck.
* `Fairly`: what the comments in the source promise.
* **`schedule_fair_iff`**: for which numbers of workloads and subsets it holds, whatever the
  shuffles. `schedule_unfair`: three workloads in subsets of two.
-/

namespace MongoTests.Fsm

open MongoTests.Lib

variable {α : Type}

/-- The options that `scheduleWorkloads` reads. -/
structure ScheduleOptions where
  subsetSize : Option ℕ := none
  numSubsets : Option ℕ := none

/-- `x || d` for an optional number. -/
def orDefault (x : Option ℕ) (d : ℕ) : ℕ := if x.getD 0 = 0 then d else x.getD 0

def ScheduleOptions.size (o : ScheduleOptions) : ℕ := orDefault o.subsetSize 10

/-- `numSubsets`, or `Math.ceil(2.5 * workloads.length / subsetSize)`. -/
def ScheduleOptions.count (o : ScheduleOptions) (n : ℕ) : ℕ :=
  orDefault o.numSubsets ⌈(5 / 2 : ℚ) * n / o.size⌉₊

section Schedule

variable (sh : Shuffler α)

/-- A round of the `while` loop. The deck has the workloads, `start` and the schedule; `end` is
`start + subsetSize`. -/
def scheduleRound (subsetSize numSubsets : ℕ) (d : Deck α) : Deck α × Option Unit :=
  if d.dealt.length < numSubsets then
    let pushed := d.deal subsetSize
    (pushed.refill (sh.shuffle (pushed.dealt.length + 1)) subsetSize, none)
  else (d, some ())

/-- The subsets, if the fuel suffices; the first shuffle has the number 0. -/
def scheduleWorkloads (fuel : ℕ) (workloads : List α) (serial : Bool) (o : ScheduleOptions) :
    Option (List (List α)) :=
  if serial then some ((sh.shuffle 0 workloads).map fun workload => [workload])
  else (loop (scheduleRound sh o.size (o.count workloads.length)) fuel
    (.new (sh.shuffle 0 workloads))).map fun r => r.1.dealt

end Schedule

/-! ## The loop -/

section Loop

variable {sh : Shuffler α} {size : ℕ} {workloads : List α}

variable (sh size workloads) in
/-- The deck after some subsets. -/
def scheduled (k : ℕ) : Deck α :=
  Deck.rounds (fun k => sh.shuffle (k + 1)) size (.new (sh.shuffle 0 workloads)) k

theorem length_scheduled (k : ℕ) : (scheduled sh size workloads k).dealt.length = k := by
  rw [scheduled, Deck.length_dealt_rounds]
  simp [Deck.new]

/-- The source turns the deck after a subset, not before the next one. Before the first subset there
is nothing to turn. -/
theorem refill_new (hsize : 1 ≤ size) (f : List α → List α) (hf : ∀ l, (f l).Perm l) (c : List α) :
    (Deck.new c).refill f size = .new c := by
  have hat : (Deck.new c).At size c 0 0 := .new (.refl c)
  rw [hat.refill_eq hsize hf, if_neg (Nat.ne_of_lt one_le_lap)]

theorem loop_scheduleRound {fuel numSubsets : ℕ} (hsize : 1 ≤ size) (hfuel : numSubsets < fuel) :
    loop (scheduleRound sh size numSubsets) fuel (.new (sh.shuffle 0 workloads)) =
      some ((scheduled sh size workloads numSubsets).refill (sh.shuffle (numSubsets + 1)) size,
        ()) := by
  have hstart : (scheduled sh size workloads 0).refill (sh.shuffle 1) size =
      .new (sh.shuffle 0 workloads) := refill_new hsize _ (sh.perm 1) _
  rw [← hstart]
  refine loop_eq_of_states (t := fun k => (scheduled sh size workloads k).refill
    (sh.shuffle (k + 1)) size) (fun k hk => ?_) ?_ hfuel
  · have hnext : ((scheduled sh size workloads k).refill (sh.shuffle (k + 1)) size).deal size =
        scheduled sh size workloads (k + 1) := rfl
    rw [scheduleRound, Deck.dealt_refill, length_scheduled, if_pos hk]
    dsimp only
    rw [hnext, length_scheduled]
  · rw [scheduleRound, Deck.dealt_refill, length_scheduled, if_neg (lt_irrefl _)]

end Loop

/-! ## Fair schedules -/

section Fair

variable {workloads : List α} {o : ScheduleOptions}

variable (workloads o) in
/-- With enough fuel, `scheduleWorkloads` returns this schedule, in a mode that is not serial. -/
def Returns (sh : Shuffler α) (schedule : List (List α)) : Prop :=
  ∃ bound, ∀ fuel > bound, scheduleWorkloads sh fuel workloads false o = some schedule

theorem Returns.unique {sh : Shuffler α} {schedule schedule' : List (List α)}
    (h : Returns workloads o sh schedule) (h' : Returns workloads o sh schedule') :
    schedule = schedule' := by
  obtain ⟨m, hm⟩ := h
  obtain ⟨n, hn⟩ := h'
  exact Option.some.inj ((hm (max m n + 1) (by omega)).symm.trans (hn (max m n + 1) (by omega)))

theorem one_le_size (o : ScheduleOptions) : 1 ≤ o.size := by
  unfold ScheduleOptions.size orDefault
  split_ifs <;> omega

theorem returns_scheduled (sh : Shuffler α) :
    Returns workloads o sh (scheduled sh o.size workloads (o.count workloads.length)).dealt := by
  refine ⟨o.count workloads.length, fun fuel hfuel => ?_⟩
  rw [scheduleWorkloads, if_neg (by decide), loop_scheduleRound (one_le_size o) hfuel,
    Option.map_some, Deck.dealt_refill]

variable [DecidableEq α]

/-- What the source says about the schedule. -/
structure Fairly (workloads : List α) (o : ScheduleOptions) (schedule : List (List α)) : Prop where
  length : ∀ k ∈ o.numSubsets, schedule.length = k
  nodup : ∀ subset ∈ schedule, subset.Nodup
  /-- Each workload must get scheduled once before any workload can be scheduled again. -/
  fair : Fair workloads schedule.flatten
  /-- If the number of subsets is not specified, each workload gets scheduled 2 to 3 times. -/
  twice : o.numSubsets = none → ∀ workload ∈ workloads,
    schedule.flatten.count workload = 2 ∨ schedule.flatten.count workload = 3

/-- The numbers for which schedules are fair. -/
def Schedulable (n size : ℕ) (numSubsets : Option ℕ) : Prop :=
  size ∣ n ∨ match numSubsets with
    | some k => n < size ∨ k ≤ 2 * (n / size)
    | none => n < size ∧ 2 * size < 5 * n

theorem count_some {k n : ℕ} (hk : o.numSubsets = some k) (hpos : 1 ≤ k) : o.count n = k := by
  rw [ScheduleOptions.count, orDefault, hk, Option.getD_some, if_neg (by omega)]

/-- The default is `⌈5 n / 2 size⌉`. -/
theorem count_none {n : ℕ} (h : o.numSubsets = none) :
    5 * n ≤ 2 * (o.count n * o.size) ∧ 2 * (o.count n * o.size) < 5 * n + 2 * o.size := by
  have hpos : (0 : ℚ) < o.size := by exact_mod_cast one_le_size o
  have hcount : o.count n = ⌈(5 / 2 : ℚ) * n / o.size⌉₊ := by
    rw [ScheduleOptions.count, orDefault, h]
    rfl
  have hle : (5 / 2 : ℚ) * n / o.size ≤ o.count n := hcount ▸ Nat.le_ceil _
  have hlt : (o.count n : ℚ) < (5 / 2 : ℚ) * n / o.size + 1 :=
    hcount ▸ Nat.ceil_lt_add_one (by positivity)
  rw [div_le_iff₀ hpos] at hle
  rw [← sub_lt_iff_lt_add, lt_div_iff₀ hpos] at hlt
  constructor
  · have hcast : (5 * n : ℚ) ≤ 2 * (o.count n * o.size) := by linarith
    exact_mod_cast hcast
  · have hcast : (2 * (o.count n * o.size) : ℚ) < 5 * n + 2 * o.size := by linarith
    exact_mod_cast hcast

theorem Schedulable.laps {n k size : ℕ} (hsize : 1 ≤ size) (h : Schedulable n size (some k)) :
    n ≤ lap size n * size ∨ k ≤ 2 * lap size n := by
  rw [le_lap_mul_iff hsize]
  obtain hdvd | hlt | hle := h
  · exact .inl (.inl hdvd)
  · exact .inl (.inr hlt)
  · exact .inr (hle.trans (Nat.mul_le_mul_left 2 (le_max_right _ _)))

/-- With the default number of subsets, fair schedules have each workload twice or three times. -/
theorem twice_of_fair {s : List α} (hnodup : workloads.Nodup) (hnone : o.numSubsets = none)
    (hfair : Fair workloads s) (hsub : s ⊆ workloads)
    (hlength : s.length = o.count workloads.length * min o.size workloads.length)
    (h : Schedulable workloads.length o.size none) {workload : α} (hmem : workload ∈ workloads) :
    s.count workload = 2 ∨ s.count workload = 3 := by
  obtain ⟨hlt, hgt⟩ := hfair.count_bounds hnodup hsub hmem
  obtain ⟨hmin, hmax⟩ := count_none (n := workloads.length) hnone
  have hpos := List.length_pos_of_mem hmem
  rw [hlength] at hlt hgt
  obtain ⟨q, hq⟩ | ⟨hsmall, hlarge⟩ := h
  · have hle : o.size ≤ workloads.length := Nat.le_of_dvd hpos ⟨q, hq⟩
    rw [min_eq_left hle] at hlt hgt
    have hupper : o.count workloads.length * o.size ≤ 3 * workloads.length := by
      have hqpos : 1 ≤ q := by
        refine Nat.pos_of_ne_zero fun hzero => ?_
        rw [hzero, Nat.mul_zero] at hq
        omega
      have hcount : o.count workloads.length ≤ 3 * q := by
        by_contra hnot
        have hmul := Nat.mul_le_mul_right o.size (Nat.succ_le_of_lt (not_le.mp hnot))
        rw [Nat.succ_mul, Nat.mul_assoc, Nat.mul_comm q, ← hq] at hmul
        have hone := Nat.mul_le_mul_left o.size hqpos
        omega
      calc o.count workloads.length * o.size ≤ 3 * q * o.size := Nat.mul_le_mul_right _ hcount
        _ = 3 * workloads.length := by rw [hq, Nat.mul_assoc, Nat.mul_comm q]
    have hlow : 2 ≤ s.count workload := by
      by_contra hnot
      have hmul := Nat.mul_le_mul_left workloads.length
        (show s.count workload + 1 ≤ 2 by omega)
      omega
    have hhigh : s.count workload ≤ 3 := by
      by_contra hnot
      have hmul := Nat.mul_le_mul_left workloads.length
        (show 4 ≤ s.count workload by omega)
      omega
    omega
  · -- Every subset has all workloads.
    rw [min_eq_right hsmall.le] at hlt hgt
    have hcount : s.count workload = o.count workloads.length := by
      have hle : workloads.length * s.count workload <
          workloads.length * (o.count workloads.length + 1) := by
        rw [Nat.mul_succ, Nat.mul_comm _ (o.count _)]
        exact hlt
      rw [Nat.mul_comm] at hgt
      have h₁ := Nat.lt_of_mul_lt_mul_left hle
      have h₂ := Nat.lt_of_mul_lt_mul_left hgt
      omega
    have hlow : 2 ≤ o.count workloads.length := by
      by_contra hnot
      have hmul := Nat.mul_le_mul_right o.size (show o.count workloads.length ≤ 1 by omega)
      omega
    have hhigh : o.count workloads.length ≤ 3 := by
      by_contra hnot
      have hmul := Nat.mul_le_mul_right o.size (show 4 ≤ o.count workloads.length by omega)
      omega
    omega

theorem fairly_scheduled (sh : Shuffler α) (hnodup : workloads.Nodup)
    (hnum : ∀ k ∈ o.numSubsets, 1 ≤ k)
    (h : Schedulable workloads.length o.size o.numSubsets) :
    Fairly workloads o (scheduled sh o.size workloads (o.count workloads.length)).dealt := by
  have hsize := one_le_size o
  have hperm : ∀ k l, (sh.shuffle (k + 1) l).Perm l := fun k => sh.perm (k + 1)
  have hlaps : workloads.length ≤ lap o.size workloads.length * o.size ∨
      o.count workloads.length ≤ 2 * lap o.size workloads.length := by
    cases hcount : o.numSubsets with
    | none =>
      rw [hcount] at h
      exact .inl ((le_lap_mul_iff hsize).mpr (h.imp_right And.left))
    | some k =>
      rw [count_some hcount (hnum k hcount)]
      exact (hcount ▸ h).laps hsize
  have hfair := Deck.fair_rounds hnodup hsize hperm (sh.perm 0 workloads) hlaps
  refine ⟨fun k hk => ?_, fun subset hsubset => ?_, hfair, fun hnone workload hmem => ?_⟩
  · rw [length_scheduled, count_some hk (hnum k hk)]
  · exact (Deck.window_of_mem hnodup hsize hperm (sh.perm 0 workloads) hsubset).1
  · exact twice_of_fair hnodup hnone hfair
      (Deck.flatten_subset hnodup hsize hperm (sh.perm 0 workloads) _)
      (Deck.length_flatten hnodup hsize hperm (sh.perm 0 workloads) _) (hnone ▸ h) hmem

/-- By default, few workloads that fit into a subset are scheduled once. -/
theorem not_fairly_of_small (sh : Shuffler α) (hnodup : workloads.Nodup)
    (hnone : o.numSubsets = none) (hne : workloads ≠ [])
    (hsmall : 5 * workloads.length ≤ 2 * o.size) :
    ¬ Fairly workloads o (scheduled sh o.size workloads (o.count workloads.length)).dealt := by
  intro h
  obtain ⟨workload, hmem⟩ := List.exists_mem_of_ne_nil workloads hne
  have hpos := List.length_pos_of_mem hmem
  have hperm : ∀ k l, (sh.shuffle (k + 1) l).Perm l := fun k => sh.perm (k + 1)
  have hbound := (h.fair.count_bounds hnodup
    (Deck.flatten_subset hnodup (one_le_size o) hperm (sh.perm 0 workloads) _) hmem).1
  rw [scheduled, Deck.length_flatten hnodup (one_le_size o) hperm (sh.perm 0 workloads),
    min_eq_right (by omega)] at hbound
  have hcount : o.count workloads.length ≤ 1 := by
    by_contra hnot
    have hmax := (count_none (n := workloads.length) hnone).2
    have hmul := Nat.mul_le_mul_right o.size (show 2 ≤ o.count workloads.length by omega)
    omega
  have hmul := Nat.mul_le_mul_right workloads.length hcount
  have htwo : 2 ≤ (scheduled sh o.size workloads
      (o.count workloads.length)).dealt.flatten.count workload := by
    rcases h.twice hnone workload hmem with htwice | htwice <;> omega
  have hmul' := Nat.mul_le_mul_left workloads.length htwo
  rw [scheduled] at hmul'
  omega

/-- Unfair shuffles, for other numbers. -/
theorem exists_not_fairly (hnodup : workloads.Nodup) (hnum : ∀ k ∈ o.numSubsets, 1 ≤ k)
    (h : ¬ Schedulable workloads.length o.size o.numSubsets) :
    ∃ sh : Shuffler α,
      ¬ Fairly workloads o (scheduled sh o.size workloads (o.count workloads.length)).dealt := by
  have hsize := one_le_size o
  obtain ⟨hdvd, hrest⟩ := not_or.mp h
  have hpos : 0 < workloads.length := by
    refine Nat.pos_of_ne_zero fun hzero => hdvd ?_
    rw [hzero]
    exact dvd_zero _
  rcases Nat.lt_or_ge workloads.length o.size with hlt | hle
  · cases hcount : o.numSubsets with
    | none =>
      rw [hcount] at hrest
      have hsmall : 5 * workloads.length ≤ 2 * o.size := not_lt.mp fun hlarge => hrest ⟨hlt, hlarge⟩
      exact ⟨.rotating α 0, not_fairly_of_small _ hnodup hcount (List.length_pos_iff.mp hpos) hsmall⟩
    | some k =>
      rw [hcount] at hrest
      exact absurd (.inl hlt) hrest
  · have hlap : lap o.size workloads.length = workloads.length / o.size :=
      max_eq_right ((Nat.one_le_div_iff hsize).mpr hle)
    have hmul : lap o.size workloads.length * o.size < workloads.length := by
      rw [← not_le, le_lap_mul_iff hsize]
      exact not_or.mpr ⟨hdvd, not_lt.mpr hle⟩
    have hmany : 2 * lap o.size workloads.length < o.count workloads.length := by
      cases hcount : o.numSubsets with
      | none =>
        have hmin := (count_none (n := workloads.length) hcount).1
        by_contra hnot
        have hmul' := Nat.mul_le_mul_right o.size (not_lt.mp hnot)
        rw [Nat.mul_assoc] at hmul'
        omega
      | some k =>
        rw [hcount] at hrest
        rw [count_some hcount (hnum k hcount), hlap]
        exact not_le.mp fun hk => hrest (.inr hk)
    obtain ⟨r, x, hx, y, hy, laps, hlaps, hcx, hcy⟩ :=
      Deck.exists_unfair hnodup hsize hmul hmany
    refine ⟨.rotating α r, fun hfairly => ?_⟩
    have hcount := hfairly.fair.count_le x hy
    have hcx' : (scheduled (.rotating α r) o.size workloads
        (o.count workloads.length)).dealt.flatten.count x = laps := hcx
    have hcy' : (scheduled (.rotating α r) o.size workloads
        (o.count workloads.length)).dealt.flatten.count y = laps / 2 := hcy
    rw [hcx', hcy'] at hcount
    omega

/-- **When schedules are fair.** For all workloads and options, the schedule is as the source says for
all outcomes of the shuffles if and only if the size of the subsets divides the number of workloads,
or all of them fit into a subset, or they are gone through at most twice. With the default number of
subsets, the workloads that fit into one must be more than two fifths of its size. -/
theorem schedule_fair_iff (hnodup : workloads.Nodup) (hnum : ∀ k ∈ o.numSubsets, 1 ≤ k) :
    (∀ sh, ∃ schedule, Returns workloads o sh schedule ∧ Fairly workloads o schedule) ↔
      Schedulable workloads.length o.size o.numSubsets := by
  constructor
  · intro hall
    by_contra hnot
    obtain ⟨sh, hsh⟩ := exists_not_fairly hnodup hnum hnot
    obtain ⟨schedule, hreturns, hfairly⟩ := hall sh
    rw [hreturns.unique (returns_scheduled sh)] at hfairly
    exact hsh hfairly
  · exact fun h sh => ⟨_, returns_scheduled sh, fairly_scheduled sh hnodup hnum h⟩

end Fair

/-- Two subsets of three workloads are fair. -/
theorem schedule_fair_twice :
    2 ≤ 2 * (3 / 2) ∧ ∀ sh, ∃ schedule, Returns ["a", "b", "c"] ⟨some 2, some 2⟩ sh schedule ∧
      Fairly ["a", "b", "c"] ⟨some 2, some 2⟩ schedule :=
  ⟨by decide, (schedule_fair_iff (by decide) fun k hk => by cases hk; decide).mpr
    (.inr (.inr (by decide)))⟩

/-- **Three subsets need not be fair**: a workload is scheduled for the third time before another one
is scheduled again. By default, a single workload is scheduled once. -/
theorem schedule_unfair :
    (Returns ["a", "b", "c"] ⟨some 2, some 3⟩ (.rotating String 1)
        [["a", "b"], ["c", "b"], ["a", "b"]] ∧
      ¬ Fair ["a", "b", "c"] [["a", "b"], ["c", "b"], ["a", "b"]].flatten) ∧
    Returns ["a"] ⟨none, none⟩ (.rotating String 1) [["a"]] := by
  refine ⟨⟨returns_scheduled _, fun h => ?_⟩, ?_⟩
  · have hcount := h.count_le "b" (y := "c") (by simp)
    revert hcount
    decide
  · have hcount : ScheduleOptions.count ⟨none, none⟩ ["a"].length = 1 := by
      show ⌈(5 / 2 : ℚ) * (1 : ℕ) / (10 : ℕ)⌉₊ = 1
      rw [Nat.ceil_eq_iff (by decide)]
      norm_num
    have hreturns : Returns ["a"] ⟨none, none⟩ (.rotating String 1) _ := returns_scheduled _
    rwa [hcount] at hreturns

end MongoTests.Fsm
