import Mathlib.Algebra.Group.Nat.Defs
import Mathlib.Data.Fintype.Basic
import Mathlib.Data.List.Count
import MongoTests.Lib.Machine

/-!
# Test reports

Embeds `TestReport` of `resmokelib/testing/report.py`: the list of `_TestInfo`s and the counters
beside it. Several threads report, a job and its background hooks; a section under the report's lock
is one step, and `setError` and `setFailure` recompute the counters outside of it, one at a time.

* `updateTestInfo`: the last entry of a test, which `find_test_info` returns.
* `addError`, `addFailure`, `addSuccess`: count up; `setError`, `setFailure`: change an outcome.
* `step`: one step of one thread; `Permitted`: the order in which `unittest` and the jobs call.
* **`counters_are_counts`**: the counters are right and `wasSuccessful` tells whether all tests
  passed, in every run in which each test gets one outcome and no thread reports while another one
  recomputes.
* `second_outcome_miscounts`: an error in `tearDown` after a failure, and two threads at once.
-/

namespace MongoTests.Resmoke.Report

open MongoTests.Lib

/-! ## `_TestInfo` -/

inductive Status
  | pass
  | fail
  | error
  /-- Set by `combine` only. -/
  | timeout
  deriving DecidableEq, Repr

/-- What a report reads of a test case. -/
structure Test (Id : Type*) where
  id : Id
  dynamic : Bool
  returnCode : Option ℤ
  deriving DecidableEq, Repr

/-- `_TestInfo`; `ended` says that `end_time` is set. -/
structure TestInfo (Id : Type*) where
  testId : Id
  dynamic : Bool
  ended : Bool
  status : Option Status
  evergreenStatus : Option String
  returnCode : Option ℤ
  deriving DecidableEq, Repr

/-- `TestReport`, without its loggers. -/
structure TestReport (Id : Type*) where
  testInfos : List (TestInfo Id)
  numDynamic : ℕ
  numSucceeded : ℕ
  numFailed : ℕ
  numErrored : ℕ
  numInterrupted : ℕ
  deriving DecidableEq, Repr

variable {Id ι : Type*}

/-- `reset`. -/
def TestReport.reset : TestReport Id := ⟨[], 0, 0, 0, 0, 0⟩

/-- The number of entries with a status, as `get_successful` and its siblings find them. -/
def TestReport.count (r : TestReport Id) (status : Status) : ℕ :=
  r.testInfos.countP fun t => t.status = some status

def TestReport.wasSuccessful (r : TestReport Id) : Bool :=
  r.numFailed = r.numErrored && r.numErrored = r.numInterrupted && r.numInterrupted = 0

section Calls

variable [DecidableEq Id]

/-- Change the entry that `find_test_info` returns, the last one of the test; `none` is its
`ValueError`. -/
def updateTestInfo (id : Id) (f : TestInfo Id → TestInfo Id) :
    List (TestInfo Id) → Option (List (TestInfo Id))
  | [] => none
  | t :: ts =>
    match updateTestInfo id f ts with
    | some ts' => some (t :: ts')
    | none => if t.testId = id then some (f t :: ts) else none

def findTestInfo (id : Id) (infos : List (TestInfo Id)) : Option (TestInfo Id) :=
  infos.reverse.find? fun t => t.testId = id

def TestReport.startTest (r : TestReport Id) (test : Test Id) : TestReport Id :=
  { r with
    testInfos := r.testInfos ++ [⟨test.id, test.dynamic, false, none, none, none⟩]
    numDynamic := if test.dynamic then r.numDynamic + 1 else r.numDynamic }

def TestReport.stopTest (r : TestReport Id) (test : Test Id) : Option (TestReport Id) :=
  (updateTestInfo test.id (fun t => { t with ended := true }) r.testInfos).map
    fun infos => { r with testInfos := infos }

/-- Give the last entry of a test an outcome. -/
def TestReport.setOutcome (r : TestReport Id) (id : Id) (status : Status)
    (evergreenStatus : TestInfo Id → String) (returnCode : Option ℤ) : Option (TestReport Id) :=
  (updateTestInfo id (fun t => { t with
    status := some status
    evergreenStatus := some (evergreenStatus t)
    returnCode := returnCode }) r.testInfos).map fun infos => { r with testInfos := infos }

/-- A failure of a dynamic test, a data consistency check, is never silenced. -/
def failureStatus (reportFailureStatus : String) (t : TestInfo Id) : String :=
  if t.dynamic then "fail" else reportFailureStatus

def TestReport.addError (r : TestReport Id) (test : Test Id) : Option (TestReport Id) :=
  { r with numErrored := r.numErrored + 1 }.setOutcome test.id .error (fun _ => "fail")
    test.returnCode

def TestReport.addFailure (reportFailureStatus : String) (r : TestReport Id) (test : Test Id) :
    Option (TestReport Id) :=
  { r with numFailed := r.numFailed + 1 }.setOutcome test.id .fail
    (failureStatus reportFailureStatus) test.returnCode

def TestReport.addSuccess (r : TestReport Id) (test : Test Id) : Option (TestReport Id) :=
  { r with numSucceeded := r.numSucceeded + 1 }.setOutcome test.id .pass (fun _ => "pass")
    test.returnCode

/-- The lock section of `setError` and `setFailure`, which raise unless `stopTest` was called. -/
def TestReport.changeOutcome (r : TestReport Id) (id : Id) (status : Status)
    (evergreenStatus : TestInfo Id → String) (returnCode : Option ℤ) : Option (TestReport Id) :=
  if (findTestInfo id r.testInfos).any (·.ended) then
    r.setOutcome id status evergreenStatus returnCode
  else none

def TestReport.setError (r : TestReport Id) (test : Test Id) : Option (TestReport Id) :=
  r.changeOutcome test.id .error (fun _ => "fail") (some 2)

def TestReport.setFailure (reportFailureStatus : String) (r : TestReport Id) (test : Test Id)
    (returnCode : ℤ) : Option (TestReport Id) :=
  r.changeOutcome test.id .fail (failureStatus reportFailureStatus) (some returnCode)

end Calls

/-! ## Threads -/

/-- The counters that are recomputed, in their order. -/
inductive Counter
  | succeeded
  | failed
  | errored
  | interrupted
  deriving DecidableEq, Repr

def Counter.index : Counter → ℕ
  | .succeeded => 0
  | .failed => 1
  | .errored => 2
  | .interrupted => 3

/-- The status that a counter counts. -/
def Counter.status : Counter → Status
  | .succeeded => .pass
  | .failed => .fail
  | .errored => .error
  | .interrupted => .timeout

def TestReport.counter (r : TestReport Id) : Counter → ℕ
  | .succeeded => r.numSucceeded
  | .failed => r.numFailed
  | .errored => r.numErrored
  | .interrupted => r.numInterrupted

def TestReport.assign (r : TestReport Id) (n : ℕ) : Counter → TestReport Id
  | .succeeded => { r with numSucceeded := n }
  | .failed => { r with numFailed := n }
  | .errored => { r with numErrored := n }
  | .interrupted => { r with numInterrupted := n }

/-- Where a thread is: outside the report, about to count, or about to assign what it counted. -/
inductive Pc
  | idle
  | count (c : Counter)
  | assign (c : Counter) (n : ℕ)
  deriving DecidableEq, Repr

/-- After a counter was assigned. -/
def Counter.after : Counter → Pc
  | .succeeded => .count .failed
  | .failed => .count .errored
  | .errored => .count .interrupted
  | .interrupted => .idle

structure State (ι Id : Type*) where
  report : TestReport Id
  pc : ι → Pc

/-- A call of the report, or the next step of one. -/
inductive Act (Id : Type*)
  | startTest (test : Test Id)
  | stopTest (test : Test Id)
  | addError (test : Test Id)
  | addFailure (test : Test Id)
  | addSuccess (test : Test Id)
  | setError (test : Test Id)
  | setFailure (test : Test Id) (returnCode : ℤ)
  | next

section Step

variable [DecidableEq Id] [DecidableEq ι] (reportFailureStatus : String)

/-- What a call does under the lock. -/
def Act.call (r : TestReport Id) : Act Id → Option (TestReport Id)
  | .startTest test => some (r.startTest test)
  | .stopTest test => r.stopTest test
  | .addError test => r.addError test
  | .addFailure test => r.addFailure reportFailureStatus test
  | .addSuccess test => r.addSuccess test
  | .setError test => r.setError test
  | .setFailure test returnCode => r.setFailure reportFailureStatus test returnCode
  | .next => none

/-- Where a call leaves its thread. -/
def Act.pc : Act Id → Pc
  | .setError _ | .setFailure _ _ => .count .succeeded
  | _ => .idle

/-- One step of thread `i`; a call that raises is no step. -/
def step (s : State ι Id) : ι × Act Id → Option (State ι Id)
  | (i, a) =>
    match s.pc i with
    | .idle => (a.call reportFailureStatus s.report).map
        fun r => ⟨r, Function.update s.pc i a.pc⟩
    | .count c => match a with
      | .next => some ⟨s.report, Function.update s.pc i (.assign c (s.report.count c.status))⟩
      | _ => none
    | .assign c n => match a with
      | .next => some ⟨s.report.assign n c, Function.update s.pc i c.after⟩
      | _ => none

def initial : State ι Id := ⟨.reset, fun _ => .idle⟩

/-- The order of the calls: a test gets its outcomes between `startTest` and `stopTest`, at least
one, and its outcome is changed after `stopTest`. -/
def permitted (r : TestReport Id) : Act Id → Bool
  | .stopTest test => (findTestInfo test.id r.testInfos).any fun t => t.status.isSome && !t.ended
  | .addError test | .addFailure test | .addSuccess test =>
    (findTestInfo test.id r.testInfos).any fun t => !t.ended
  | .setError test | .setFailure test _ => (findTestInfo test.id r.testInfos).any (·.ended)
  | _ => true

/-- The test has no outcome yet when it gets one. -/
def firstOutcome (r : TestReport Id) : Act Id → Bool
  | .addError test | .addFailure test | .addSuccess test =>
    (findTestInfo test.id r.testInfos).any fun t => t.status.isNone
  | _ => true

/-- The steps that the callers make. -/
def Permitted (s : State ι Id) (a : ι × Act Id) : Prop := permitted s.report a.2 = true

/-- The steps with which the counters stay right: a test gets one outcome, and no other thread is
recomputing the counters. -/
def Counted (s : State ι Id) (a : ι × Act Id) : Prop :=
  permitted s.report a.2 = true ∧ firstOutcome s.report a.2 = true ∧ ∀ j, j ≠ a.1 → s.pc j = .idle

instance (s : State ι Id) (a : ι × Act Id) : Decidable (Permitted s a) :=
  inferInstanceAs (Decidable (_ = true))

instance [Fintype ι] (s : State ι Id) (a : ι × Act Id) : Decidable (Counted s a) :=
  inferInstanceAs (Decidable (_ ∧ _ ∧ _))

end Step

/-! ## The last entry of a test -/

section Update

variable [DecidableEq Id]

theorem ne_of_updateTestInfo_eq_none {id : Id} {f : TestInfo Id → TestInfo Id}
    {infos : List (TestInfo Id)} (h : updateTestInfo id f infos = none) :
    ∀ t ∈ infos, t.testId ≠ id := by
  induction infos with
  | nil => simp
  | cons t ts ih =>
    rw [updateTestInfo] at h
    cases hts : updateTestInfo id f ts with
    | some ts' =>
      rw [hts] at h
      cases h
    | none =>
      rw [hts] at h
      dsimp only at h
      split_ifs at h with ht
      exact List.forall_mem_cons.mpr ⟨ht, ih hts⟩

theorem updateTestInfo_split {id : Id} {f : TestInfo Id → TestInfo Id}
    {infos infos' : List (TestInfo Id)} (h : updateTestInfo id f infos = some infos') :
    ∃ before t after, infos = before ++ t :: after ∧ infos' = before ++ f t :: after ∧
      t.testId = id ∧ ∀ u ∈ after, u.testId ≠ id := by
  induction infos generalizing infos' with
  | nil => cases h
  | cons t ts ih =>
    rw [updateTestInfo] at h
    cases hts : updateTestInfo id f ts with
    | some ts' =>
      rw [hts] at h
      cases h
      obtain ⟨before, u, after, rfl, rfl, hu, hafter⟩ := ih hts
      exact ⟨t :: before, u, after, rfl, rfl, hu, hafter⟩
    | none =>
      rw [hts] at h
      dsimp only at h
      split_ifs at h with ht
      cases h
      exact ⟨[], t, ts, rfl, rfl, ht, ne_of_updateTestInfo_eq_none hts⟩

/-- The last entry of a test is the one that is found. -/
theorem findTestInfo_split {id : Id} {t : TestInfo Id} {after : List (TestInfo Id)}
    (before : List (TestInfo Id)) (ht : t.testId = id) (hafter : ∀ u ∈ after, u.testId ≠ id) :
    findTestInfo id (before ++ t :: after) = some t := by
  have hnone : after.reverse.find? (fun t => t.testId = id) = none := by
    simpa using hafter
  simp [findTestInfo, List.find?_append, hnone, ht]

/-- The entry that is changed is the one that is found. -/
theorem updateTestInfo_eq_some {id : Id} {f : TestInfo Id → TestInfo Id}
    {infos infos' : List (TestInfo Id)} (h : updateTestInfo id f infos = some infos') :
    ∃ before t after, infos = before ++ t :: after ∧ infos' = before ++ f t :: after ∧
      findTestInfo id infos = some t := by
  obtain ⟨before, t, after, rfl, rfl, ht, hafter⟩ := updateTestInfo_split h
  exact ⟨before, t, after, rfl, rfl, findTestInfo_split before ht hafter⟩

end Update

/-! ## The invariant -/

/-- What holds of the entries, whatever the counters say. -/
structure TestReport.Ok (r : TestReport Id) : Prop where
  dynamic : r.numDynamic = r.testInfos.countP (·.dynamic)
  noTimeout : ∀ t ∈ r.testInfos, t.status ≠ some .timeout
  ended : ∀ t ∈ r.testInfos, t.ended = true → t.status ≠ none

/-- The counters that a thread has recomputed, if it is recomputing them. -/
def Pc.done (c : Counter) : Pc → Bool
  | .idle => true
  | .count c' | .assign c' _ => c.index < c'.index

structure Inv (s : State ι Id) : Prop where
  ok : s.report.Ok
  counters : ∀ c, (∀ i, (s.pc i).done c = true) → s.report.counter c = s.report.count c.status
  counted : ∀ i c n, s.pc i = .assign c n → n = s.report.count c.status

theorem inv_initial : Inv (initial : State ι Id) where
  ok := ⟨rfl, by simp [initial, TestReport.reset], by simp [initial, TestReport.reset]⟩
  counters c _ := by cases c <;> rfl
  counted := nofun

/-- The counters of a report are right. -/
def TestReport.Right (r : TestReport Id) : Prop := ∀ c : Counter, r.counter c = r.count c.status

theorem TestReport.Ok.startTest {r : TestReport Id} (h : r.Ok) (test : Test Id) :
    (r.startTest test).Ok := by
  obtain ⟨hd, ht, he⟩ := h
  refine ⟨?_, ?_, ?_⟩
  · unfold TestReport.startTest
    cases hdyn : test.dynamic <;> simp [hd, List.countP_append]
  · simpa [TestReport.startTest, or_imp, forall_and] using ht
  · simpa [TestReport.startTest, or_imp, forall_and] using he

theorem TestReport.Right.startTest {r : TestReport Id} (h : r.Right) (test : Test Id) :
    (r.startTest test).Right := by
  intro c
  have hcount : (r.startTest test).count c.status = r.count c.status := by
    simp [TestReport.count, TestReport.startTest, List.countP_append]
  rw [hcount, ← h c]
  cases c <;> rfl

section Counts

variable [DecidableEq Id] {r r' : TestReport Id}

/-- Giving the found entry an outcome keeps the entries as they should be. -/
theorem TestReport.Ok.setOutcome (h : r.Ok) {id : Id} {status : Status} {e : TestInfo Id → String}
    {code : Option ℤ} (hr : r.setOutcome id status e code = some r') (hs : status ≠ .timeout) :
    r'.Ok := by
  obtain ⟨infos, hu, rfl⟩ := Option.map_eq_some_iff.mp hr
  obtain ⟨before, t, after, hinfos, rfl, -⟩ := updateTestInfo_eq_some hu
  obtain ⟨hd, ht, he⟩ := h
  rw [hinfos] at hd ht he
  refine ⟨?_, ?_, ?_⟩
  · rw [hd]
    simp [List.countP_append, List.countP_cons]
  · simp only [List.forall_mem_append, List.forall_mem_cons] at ht ⊢
    exact ⟨ht.1, fun hc => hs (Option.some.inj hc), ht.2.2⟩
  · simp only [List.forall_mem_append, List.forall_mem_cons] at he ⊢
    exact ⟨he.1, nofun, he.2.2⟩

/-- A first outcome is counted once. -/
theorem count_setOutcome {id : Id} {status st : Status} {e : TestInfo Id → String}
    {code : Option ℤ} (hf : (findTestInfo id r.testInfos).any (fun t => t.status.isNone) = true)
    (hr : r.setOutcome id status e code = some r') :
    r'.count st = r.count st + if status = st then 1 else 0 := by
  obtain ⟨infos, hu, rfl⟩ := Option.map_eq_some_iff.mp hr
  obtain ⟨before, t, after, hinfos, rfl, hfind⟩ := updateTestInfo_eq_some hu
  rw [hfind, Option.any_some, Option.isNone_iff_eq_none] at hf
  unfold TestReport.count
  rw [hinfos]
  simp only [List.countP_append, List.countP_cons, hf]
  simp
  omega

theorem counter_setOutcome {id : Id} {status : Status} {e : TestInfo Id → String}
    {code : Option ℤ} (hr : r.setOutcome id status e code = some r') (c : Counter) :
    r'.counter c = r.counter c := by
  obtain ⟨infos, -, rfl⟩ := Option.map_eq_some_iff.mp hr
  cases c <;> rfl

/-- Counting a first outcome keeps the counters right. -/
theorem TestReport.Right.addOutcome (h : r.Right) {q : TestReport Id} {id : Id} {c : Counter}
    {e : TestInfo Id → String} {code : Option ℤ}
    (hf : (findTestInfo id r.testInfos).any (fun t => t.status.isNone) = true)
    (hq : ∀ c', q.counter c' = r.counter c' + if c = c' then 1 else 0)
    (hinfos : q.testInfos = r.testInfos) (hr : q.setOutcome id c.status e code = some r') :
    r'.Right := by
  intro c'
  have hcount : q.count c'.status = r.count c'.status := by
    unfold TestReport.count
    rw [hinfos]
  rw [← hinfos] at hf
  rw [counter_setOutcome hr, hq, count_setOutcome hf hr, hcount, h c']
  have hinj : c.status = c'.status ↔ c = c' := by cases c <;> cases c' <;> simp [Counter.status]
  simp only [hinj]

/-- A test that is stopped has an outcome. -/
theorem TestReport.Ok.stopTest (h : r.Ok) {test : Test Id} (hr : r.stopTest test = some r')
    (hf : (findTestInfo test.id r.testInfos).any (fun t => t.status.isSome && !t.ended) = true) :
    r'.Ok := by
  obtain ⟨infos, hu, rfl⟩ := Option.map_eq_some_iff.mp hr
  obtain ⟨before, t, after, hinfos, rfl, hfind⟩ := updateTestInfo_eq_some hu
  rw [hfind, Option.any_some, Bool.and_eq_true, Option.isSome_iff_ne_none] at hf
  obtain ⟨hd, ht, he⟩ := h
  rw [hinfos] at hd ht he
  refine ⟨?_, ?_, ?_⟩
  · rw [hd]
    simp [List.countP_append, List.countP_cons]
  · simp only [List.forall_mem_append, List.forall_mem_cons] at ht ⊢
    exact ht
  · simp only [List.forall_mem_append, List.forall_mem_cons] at he ⊢
    exact ⟨he.1, fun _ => hf.1, he.2.2⟩

theorem TestReport.Right.stopTest (h : r.Right) {test : Test Id}
    (hr : r.stopTest test = some r') : r'.Right := by
  obtain ⟨infos, hu, rfl⟩ := Option.map_eq_some_iff.mp hr
  obtain ⟨before, t, after, hinfos, rfl, -⟩ := updateTestInfo_eq_some hu
  intro c
  have hcount : TestReport.count { r with testInfos := before ++ { t with ended := true } :: after }
      c.status = r.count c.status := by
    unfold TestReport.count
    rw [hinfos]
    simp [List.countP_append, List.countP_cons]
  rw [hcount, ← h c]
  cases c <;> rfl

variable {reportFailureStatus : String}

theorem TestReport.Ok.call (h : r.Ok) {a : Act Id} (hp : permitted r a = true)
    (hr : a.call reportFailureStatus r = some r') : r'.Ok := by
  cases a with
  | startTest test =>
    cases hr
    exact h.startTest test
  | stopTest test => exact h.stopTest hr hp
  | addError test =>
    exact TestReport.Ok.setOutcome (r := { r with numErrored := r.numErrored + 1 })
      ⟨h.dynamic, h.noTimeout, h.ended⟩ hr nofun
  | addFailure test =>
    exact TestReport.Ok.setOutcome (r := { r with numFailed := r.numFailed + 1 })
      ⟨h.dynamic, h.noTimeout, h.ended⟩ hr nofun
  | addSuccess test =>
    exact TestReport.Ok.setOutcome (r := { r with numSucceeded := r.numSucceeded + 1 })
      ⟨h.dynamic, h.noTimeout, h.ended⟩ hr nofun
  | setError test =>
    rw [Act.call, TestReport.setError, TestReport.changeOutcome] at hr
    split_ifs at hr
    exact h.setOutcome hr nofun
  | setFailure test returnCode =>
    rw [Act.call, TestReport.setFailure, TestReport.changeOutcome] at hr
    split_ifs at hr
    exact h.setOutcome hr nofun
  | next => cases hr

theorem TestReport.Right.call (h : r.Right) {a : Act Id} (hf : firstOutcome r a = true)
    (ha : a.pc = .idle) (hr : a.call reportFailureStatus r = some r') : r'.Right := by
  cases a with
  | startTest test =>
    cases hr
    exact h.startTest test
  | stopTest test => exact h.stopTest hr
  | addError test =>
    exact h.addOutcome (q := { r with numErrored := r.numErrored + 1 }) (c := .errored) hf
      (fun c' => by cases c' <;> rfl) rfl hr
  | addFailure test =>
    exact h.addOutcome (q := { r with numFailed := r.numFailed + 1 }) (c := .failed) hf
      (fun c' => by cases c' <;> rfl) rfl hr
  | addSuccess test =>
    exact h.addOutcome (q := { r with numSucceeded := r.numSucceeded + 1 }) (c := .succeeded) hf
      (fun c' => by cases c' <;> rfl) rfl hr
  | setError test => cases ha
  | setFailure test returnCode => cases ha
  | next => cases hr

end Counts

/-! ## Steps -/

section Assign

theorem counter_assign (r : TestReport Id) (n : ℕ) (c c' : Counter) :
    (r.assign n c).counter c' = if c' = c then n else r.counter c' := by
  cases c <;> cases c' <;> rfl

theorem done_after {c c' : Counter} (h : c.after.done c' = true) : c' = c ∨ c'.index < c.index := by
  cases c <;> cases c' <;> simp_all [Counter.after, Pc.done, Counter.index]

theorem testInfos_assign (r : TestReport Id) (n : ℕ) (c : Counter) :
    (r.assign n c).testInfos = r.testInfos := by
  cases c <;> rfl

theorem TestReport.Ok.assign {r : TestReport Id} (h : r.Ok) (n : ℕ) (c : Counter) :
    (r.assign n c).Ok := by
  cases c <;> exact ⟨h.dynamic, h.noTimeout, h.ended⟩

/-- While thread `i` moves, the others do not stand in the way of any counter. -/
theorem Inv.counter_of_alone {s : State ι Id} {i : ι} (h : Inv s)
    (ha : ∀ j, j ≠ i → s.pc j = .idle) {c : Counter} (hi : (s.pc i).done c = true) :
    s.report.counter c = s.report.count c.status := by
  refine h.counters c fun j => ?_
  by_cases hj : j = i
  · rw [hj, hi]
  · rw [ha j hj]
    rfl

end Assign

section Steps

variable [DecidableEq Id] [DecidableEq ι] {reportFailureStatus : String} {s s' : State ι Id} {i : ι}

omit [DecidableEq Id] in
/-- The invariant after a step of thread `i`, when no other one is recomputing. -/
theorem inv_of_alone (ha : ∀ j, j ≠ i → s.pc j = .idle) {r : TestReport Id} {p : Pc} (hok : r.Ok)
    (hc : ∀ c, p.done c = true → r.counter c = r.count c.status)
    (hn : ∀ c n, p = .assign c n → n = r.count c.status) :
    Inv (⟨r, Function.update s.pc i p⟩ : State ι Id) := by
  refine ⟨hok, fun c hd => hc c ?_, fun j c n hj => ?_⟩
  · have hi := hd i
    dsimp only at hi
    rwa [Function.update_self] at hi
  · dsimp only at hj
    by_cases hji : j = i
    · rw [hji, Function.update_self] at hj
      exact hn c n hj
    · rw [Function.update_of_ne hji, ha j hji] at hj
      cases hj

theorem Inv.step (h : Inv s) {a : Act Id} (hok : Counted s (i, a))
    (hs : step reportFailureStatus s (i, a) = some s') : Inv s' := by
  obtain ⟨hp, hf, ha⟩ := hok
  dsimp only at hp hf ha
  rw [Report.step] at hs
  cases hpc : s.pc i with
  | idle =>
    rw [hpc] at hs
    obtain ⟨r, hr, rfl⟩ := Option.map_eq_some_iff.mp hs
    have hright : s.report.Right := fun c => h.counter_of_alone ha (by rw [hpc]; rfl)
    refine inv_of_alone ha (h.ok.call hp hr) (fun c hc => ?_) fun c n hn => ?_
    · cases hact : a.pc with
      | idle => exact hright.call hf hact hr c
      | count c' =>
        -- nothing is recomputed yet
        have hc' : c' = .succeeded := by cases a <;> cases hact <;> rfl
        rw [hact, hc'] at hc
        cases c <;> cases hc
      | assign c' n => cases a <;> cases hact
    · cases a <;> cases hn
  | count c =>
    rw [hpc] at hs
    cases a with
    | next =>
      cases hs
      refine inv_of_alone ha h.ok (fun c' hc => ?_) fun c' n hn => ?_
      · exact h.counter_of_alone ha (by rw [hpc]; exact hc)
      · cases hn
        rfl
    | _ => cases hs
  | assign c n =>
    rw [hpc] at hs
    have hn := h.counted i c n hpc
    cases a with
    | next =>
      cases hs
      refine inv_of_alone ha (h.ok.assign n c) (fun c' hc => ?_) fun c' n' hn' => ?_
      · have hcount : (s.report.assign n c).count c'.status = s.report.count c'.status := by
          rw [TestReport.count, testInfos_assign, TestReport.count]
        rw [hcount, counter_assign]
        obtain rfl | hlt := done_after hc
        · rw [if_pos rfl, hn]
        · have hne : c' ≠ c := by
            rintro rfl
            omega
          rw [if_neg hne]
          refine h.counter_of_alone ha ?_
          rw [hpc]
          exact decide_eq_true hlt
      · cases c <;> cases hn'
    | _ => cases hs

theorem inv_of_reach (h : Reach (step reportFailureStatus) Counted (· = initial) s) : Inv s :=
  Reach.inv (fun _ hs => hs ▸ inv_initial) (fun _ _ _ hi hok hs => hi.step hok hs) h

/-- **The counters are the counts.** In every run in which a test gets one outcome and no thread
reports while another one recomputes the counters, whenever no thread does, each counter is the
number of tests with its status, `num_dynamic` is the number of dynamic tests, a test that was
stopped has a status, and `wasSuccessful` holds if and only if every test with an outcome passed. -/
theorem counters_are_counts (h : Reach (step reportFailureStatus) Counted (· = initial) s)
    (hidle : ∀ i, s.pc i = .idle) :
    s.report.numSucceeded = s.report.count .pass ∧ s.report.numFailed = s.report.count .fail ∧
    s.report.numErrored = s.report.count .error ∧ s.report.numInterrupted = s.report.count .timeout ∧
    s.report.numDynamic = s.report.testInfos.countP (·.dynamic) ∧
    (∀ t ∈ s.report.testInfos, t.ended = true → t.status ≠ none) ∧
    (s.report.wasSuccessful = true ↔
      ∀ t ∈ s.report.testInfos, t.status ≠ none → t.status = some .pass) := by
  have hinv := inv_of_reach h
  have hright : s.report.Right := fun c => hinv.counters c fun i => by rw [hidle i]; rfl
  refine ⟨hright .succeeded, hright .failed, hright .errored, hright .interrupted, hinv.ok.dynamic,
    hinv.ok.ended, ?_⟩
  have hzero : s.report.wasSuccessful = true ↔ s.report.count .fail = 0 ∧
      s.report.count .error = 0 ∧ s.report.count .timeout = 0 := by
    have h1 : s.report.numFailed = s.report.count .fail := hright .failed
    have h2 : s.report.numErrored = s.report.count .error := hright .errored
    have h3 : s.report.numInterrupted = s.report.count .timeout := hright .interrupted
    rw [TestReport.wasSuccessful, h1, h2, h3]
    simp only [Bool.and_eq_true, decide_eq_true_iff]
    omega
  rw [hzero]
  simp only [TestReport.count, List.countP_eq_zero, decide_eq_true_iff]
  constructor
  · rintro ⟨hf, he, ht⟩ t hm hn
    cases hst : t.status with
    | none => exact absurd hst hn
    | some st =>
      cases st with
      | pass => rfl
      | fail => exact absurd hst (hf t hm)
      | error => exact absurd hst (he t hm)
      | timeout => exact absurd hst (ht t hm)
  · intro hall
    refine ⟨fun t hm hst => ?_, fun t hm hst => ?_, fun t hm hst => ?_⟩ <;>
      cases hst.symm.trans (hall t hm (by rw [hst]; nofun))

end Steps

/-! ## Examples of runs -/

/-- A test of a suite. -/
def jsTest : Test ℕ := ⟨0, false, some 1⟩

/-- A consistency check of a hook. -/
def hookTest : Test ℕ := ⟨1, true, some 1⟩

/-- A thread recomputes the counters. -/
def recompute (i : Fin 2) : List (Fin 2 × Act ℕ) := List.replicate 8 (i, .next)

/-- A test passes, a hook's test fails, and the hook makes the first one fail too. -/
theorem counters_of_two_tests :
    ∃ s : State (Fin 2) ℕ, s.report.numSucceeded = 0 ∧ s.report.numFailed = 2 ∧
      s.report.numFailed = s.report.count .fail ∧ s.report.wasSuccessful = false := by
  have hrun : ∃ s : State (Fin 2) ℕ, Reach (step "fail") Counted (· = initial) s ∧
      (∀ i, s.pc i = .idle) ∧ s.report.numSucceeded = 0 ∧ s.report.numFailed = 2 ∧
      s.report.wasSuccessful = false :=
    Reach.exists_of_run (.start rfl) (List.flatten [[(0, .startTest jsTest),
      (1, .startTest hookTest), (0, .addSuccess jsTest), (0, .stopTest jsTest),
      (1, .addFailure hookTest), (1, .stopTest hookTest), (0, .setFailure jsTest 2)],
      recompute 0]) (by decide)
  obtain ⟨s, h, hidle, h0, h2, hw⟩ := hrun
  exact ⟨s, h0, h2, (counters_are_counts h hidle).2.1, hw⟩

/-- **A failure that is not there.** A test that fails and then raises in `tearDown` is counted
twice and has one status; and a failure that a hook adds while a job recomputes the counters is
not counted. -/
theorem second_outcome_miscounts :
    (∃ s : State (Fin 2) ℕ, Reach (step "fail") Permitted (· = initial) s ∧
      (∀ i, s.pc i = .idle) ∧ s.report.numFailed = 1 ∧ s.report.count .fail = 0) ∧
    ∃ s : State (Fin 2) ℕ, Reach (step "fail") Permitted (· = initial) s ∧
      (∀ i, s.pc i = .idle) ∧ s.report.numFailed = 1 ∧ s.report.count .fail = 2 := by
  refine ⟨Reach.exists_of_run (.start rfl) [(0, .startTest jsTest), (0, .addFailure jsTest),
    (0, .addError jsTest), (0, .stopTest jsTest)] (by decide), ?_⟩
  exact Reach.exists_of_run (.start rfl) [(0, .startTest jsTest), (1, .startTest hookTest),
    (0, .addSuccess jsTest), (0, .stopTest jsTest), (0, .setFailure jsTest 2),
    (0, .next), (0, .next), (0, .next), (1, .addFailure hookTest), (0, .next),
    (0, .next), (0, .next), (0, .next), (0, .next), (1, .stopTest hookTest)] (by decide)

end MongoTests.Resmoke.Report
