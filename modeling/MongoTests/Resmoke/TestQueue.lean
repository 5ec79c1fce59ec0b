import Mathlib.Algebra.Order.Monoid.Defs
import Mathlib.Data.Int.Basic

/-!
# The test queue

Embeds `resmokelib/utils/queue.py` (`Queue.join`, on top of the operations of `queue.Queue`) and
`resmokelib/testing/queue_element.py`.

* `Queue`: the items and the count of unfinished tasks; `getNowait`, `put`, `taskDone`, `join`.
* `QueueElem`: a plain element or a `QueueElemRepeatTime`; `jobCompleted`, `shouldRequeue`,
  `queueElemFactory`, `makeTestQueue`. Durations are of any type `τ` with the operations the code
  uses, so that the rounding of the real clock is allowed.
* `QueueElem.after`: an element after a list of executions, and `Chain`: all but the last of those
  executions were followed by a requeue.
-/

namespace MongoTests.Resmoke

/-! ## `Queue` -/

/-- `queue.Queue`: its items and `unfinished_tasks`. -/
structure Queue (α : Type*) where
  items : List α
  unfinishedTasks : ℕ
  deriving DecidableEq, Repr

namespace Queue

variable {α : Type*}

/-- A queue filled by `put` on each of `l`. -/
def ofList (l : List α) : Queue α := ⟨l, l.length⟩

def empty (q : Queue α) : Bool := q.items.isEmpty

/-- `queue.get_nowait()`; `none` is the `Empty` exception. -/
def getNowait (q : Queue α) : Option (α × Queue α) :=
  match q.items with
  | [] => none
  | x :: xs => some (x, { q with items := xs })

def put (q : Queue α) (x : α) : Queue α := ⟨q.items ++ [x], q.unfinishedTasks + 1⟩

/-- `queue.task_done()`; `none` is the `ValueError` of a call too many. -/
def taskDone (q : Queue α) : Option (Queue α) :=
  match q.unfinishedTasks with
  | 0 => none
  | n + 1 => some { q with unfinishedTasks := n }

/-- `Queue.join(timeout)` once nobody touches the queue: whether the count has reached zero. -/
def join (q : Queue α) : Bool := q.unfinishedTasks == 0

@[simp] theorem empty_iff (q : Queue α) : q.empty = true ↔ q.items = [] := by
  simp [empty]

@[simp] theorem empty_false_iff (q : Queue α) : q.empty = false ↔ q.items ≠ [] := by
  rw [← Bool.not_eq_true, empty_iff]

theorem getNowait_eq_none {q : Queue α} : q.getNowait = none ↔ q.items = [] := by
  unfold getNowait
  split <;> simp_all

theorem getNowait_eq_some {q q' : Queue α} {x : α} :
    q.getNowait = some (x, q') ↔
      q.items = x :: q'.items ∧ q'.unfinishedTasks = q.unfinishedTasks := by
  obtain ⟨items, n⟩ := q
  obtain ⟨items', n'⟩ := q'
  cases items with
  | nil => simp [getNowait]
  | cons y ys => simp [getNowait, eq_comm, and_assoc]

theorem taskDone_eq_none {q : Queue α} : q.taskDone = none ↔ q.unfinishedTasks = 0 := by
  unfold taskDone
  split <;> simp_all

theorem taskDone_eq_some {q q' : Queue α} :
    q.taskDone = some q' ↔
      q'.items = q.items ∧ q.unfinishedTasks = q'.unfinishedTasks + 1 := by
  obtain ⟨items, n⟩ := q
  obtain ⟨items', n'⟩ := q'
  cases n <;> simp [taskDone, eq_comm]

@[simp] theorem join_iff (q : Queue α) : q.join = true ↔ q.unfinishedTasks = 0 := by
  simp [join]

end Queue

/-! ## `QueueElem` -/

/-- The suite options that the job and its queue elements read. -/
structure SuiteOptions (τ : Type*) where
  failFast : Bool
  numRepeatTestsMin : Option ℤ
  numRepeatTestsMax : Option ℤ
  timeRepeatTestsSecs : Option τ

/-- The fields that `QueueElemRepeatTime` adds to `QueueElem`. -/
structure RepeatTime (τ : Type*) where
  repeatNumMin : Option ℤ
  repeatNumMax : Option ℤ
  repeatSecs : τ
  repeatTimeElapsed : τ
  repeatNum : ℕ
  deriving DecidableEq, Repr

/-- A queue element. `ident` is the identity of the Python object, which a requeue keeps; `repeats`
is `none` for the base class `QueueElem`. -/
structure QueueElem (τ : Type*) where
  ident : ℕ
  repeats : Option (RepeatTime τ)
  deriving DecidableEq, Repr

variable {τ : Type*}

/-- The truth value Python gives to an optional count. -/
def truthy (o : Option ℤ) : Bool := o.getD 0 != 0

namespace RepeatTime

def stillNeedMinimumRuns (r : RepeatTime τ) : Bool :=
  truthy r.repeatNumMin && decide (r.repeatNum < r.repeatNumMin.getD 0)

def haveMaxRunsBeenSatisfied (r : RepeatTime τ) : Bool :=
  truthy r.repeatNumMax && decide (r.repeatNumMax.getD 0 ≤ r.repeatNum)

def hasMinRuntimeBeenSatisfied [LE τ] [DecidableLE τ] (r : RepeatTime τ) : Bool :=
  decide (r.repeatSecs ≤ r.repeatTimeElapsed)

def shouldRequeue [LE τ] [DecidableLE τ] (r : RepeatTime τ) : Bool :=
  if r.stillNeedMinimumRuns then true
  else if r.haveMaxRunsBeenSatisfied then false
  else if r.hasMinRuntimeBeenSatisfied then false
  else true

def jobCompleted [Add τ] (r : RepeatTime τ) (jobTime : τ) : RepeatTime τ :=
  { r with repeatNum := r.repeatNum + 1, repeatTimeElapsed := r.repeatTimeElapsed + jobTime }

end RepeatTime

/-- `queue_elem_factory`: the class is chosen by the truth value of `time_repeat_tests_secs`. -/
def queueElemFactory [Zero τ] [DecidableEq τ] (ident : ℕ) (o : SuiteOptions τ) : QueueElem τ :=
  match o.timeRepeatTestsSecs with
  | none => ⟨ident, none⟩
  | some secs =>
    if secs = 0 then ⟨ident, none⟩
    else ⟨ident, some ⟨o.numRepeatTestsMin, o.numRepeatTestsMax, secs, 0, 0⟩⟩

/-- The queue that the jobs start on: every element is an object of its own. -/
structure InitialQueue (τ : Type*) where
  elems : List (QueueElem τ)
  distinct : (elems.map QueueElem.ident).Nodup

namespace QueueElem

/-- `should_requeue`, dispatched on the class. -/
def shouldRequeue [LE τ] [DecidableLE τ] (e : QueueElem τ) : Bool :=
  match e.repeats with
  | none => false
  | some r => r.shouldRequeue

/-- `job_completed`, dispatched on the class. -/
def jobCompleted [Add τ] (e : QueueElem τ) (jobTime : τ) : QueueElem τ :=
  { e with repeats := e.repeats.map (·.jobCompleted jobTime) }

@[simp] theorem ident_jobCompleted [Add τ] (e : QueueElem τ) (t : τ) :
    (e.jobCompleted t).ident = e.ident := rfl

/-- An element after the executions that took the times `ts`. -/
def after [Add τ] (e : QueueElem τ) (ts : List τ) : QueueElem τ := ts.foldl jobCompleted e

@[simp] theorem after_nil [Add τ] (e : QueueElem τ) : e.after [] = e := rfl

theorem after_concat [Add τ] (e : QueueElem τ) (ts : List τ) (t : τ) :
    e.after (ts ++ [t]) = (e.after ts).jobCompleted t := by
  simp [after]

@[simp] theorem ident_after [Add τ] (e : QueueElem τ) (ts : List τ) :
    (e.after ts).ident = e.ident := by
  induction ts generalizing e with
  | nil => rfl
  | cons t ts ih => exact ih (e.jobCompleted t)

/-- Each of the executions `ts` of `e` but the last was followed by `should_requeue() = True`. -/
def Chain [Add τ] [LE τ] [DecidableLE τ] (e : QueueElem τ) (ts : List τ) : Prop :=
  ∀ us vs, ts = us ++ vs → us ≠ [] → vs ≠ [] → (e.after us).shouldRequeue = true

variable [Add τ] [LE τ] [DecidableLE τ]

theorem chain_nil (e : QueueElem τ) : e.Chain [] := by
  intro us vs h hus
  simp_all

/-- One more execution after a requeue. -/
theorem Chain.concat {e : QueueElem τ} {ts : List τ} (h : e.Chain ts)
    (hr : ts ≠ [] → (e.after ts).shouldRequeue = true) (t : τ) : e.Chain (ts ++ [t]) := by
  intro us vs he hus hvs
  obtain ⟨ws, w, rfl⟩ := List.eq_nil_or_concat vs |>.resolve_left hvs
  rw [List.concat_eq_append, ← List.append_assoc] at he
  obtain ⟨he, -⟩ := List.append_inj' he rfl
  rcases eq_or_ne ws [] with rfl | hws
  · rw [List.append_nil] at he
    exact he ▸ hr (he ▸ hus)
  · exact h us ws he hus hws

/-- **`e` was executed, with the times `ts`, until its `should_requeue()` became false.** -/
def RunUntilDone (e : QueueElem τ) (ts : List τ) : Prop :=
  ts ≠ [] ∧ (e.after ts).shouldRequeue = false ∧ e.Chain ts

end QueueElem

/-- `_make_test_queue`: one new element for every repetition of every test. -/
def makeTestQueue [Zero τ] [DecidableEq τ] (numTimesToRepeatTests numTests : ℕ)
    (o : SuiteOptions τ) : InitialQueue τ where
  elems := (List.range (numTimesToRepeatTests * numTests)).map (queueElemFactory · o)
  distinct := by
    have h : QueueElem.ident ∘ (queueElemFactory · o) = id := by
      funext i
      simp only [Function.comp_apply, queueElemFactory, id]
      split <;> [rfl; split_ifs <;> rfl]
    rw [List.map_map, h, List.map_id]
    exact List.nodup_range

end MongoTests.Resmoke
