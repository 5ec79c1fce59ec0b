import Mathlib.Algebra.Order.BigOperators.Group.Finset
import Mathlib.Data.Fintype.Option
import Mathlib.Data.List.Infix
import Mathlib.Data.List.TakeWhile
import Mathlib.Tactic.Abel
import MongoTests.Lib.Machine

/-!
# Parallel linting

`parallel_process` of `buildscripts/linter/parallel.py`: the main thread fills a queue, starts the
workers, waits for an event and joins them. A worker sets the event when the queue is empty or `func`
has failed; an exception in `func` ends it without.

* `Worker`, `workerStep`, `Main`, `mainStep`, `step`: one statement of a thread.
* `Inv`: where each item is, what the event and the result say, and who has died.
* **`parallel_process_iff`**: it returns and its verdict is right if and only if no item raises, or
  fewer items than there are workers raise before the first one that fails.
* `parallel_process_raises`: an exception is lost, or the main thread waits for ever.
-/

namespace MongoTests.Linter

open MongoTests.Lib

/-- What a call of `func` comes to: a true value, a false value or an exception. -/
inductive Outcome
  | truthy
  | falsy
  | raises
  deriving DecidableEq, Repr

/-- An item in the queue, by its position in `items`, with what `func` does on it. -/
structure Task where
  position : ℕ
  outcome : Outcome
  deriving DecidableEq, Repr

/-- The items, in order. -/
def tasks (outcomes : List Outcome) : List Task := outcomes.mapIdx Task.mk

/-- Where a worker is: at the test of the event, at `get_nowait`, at the handler of `queue.Empty`, at
the call of `func`, at the assignment to `pp_result` or at the last `pp_event.set()`. -/
inductive Worker
  | notStarted
  | test
  | get
  | empty
  | call (task : Task)
  | fail
  | signal
  | returned
  /-- `func` has raised. -/
  | died
  deriving DecidableEq, Repr

inductive Main
  | starting (k : ℕ)
  | waiting
  | joining (k : ℕ)
  | returned (result : Bool)
  deriving DecidableEq, Repr

structure State (n : ℕ) where
  main : Main
  workers : Fin n → Worker
  taskQueue : List Task
  event : Bool
  result : Bool
  /-- The items that were passed to `func`, in order. -/
  calls : List Task
  deriving DecidableEq

def Worker.ended : Worker → Bool
  | .returned | .died => true
  | _ => false

variable {n : ℕ}

def State.goto (s : State n) (i : Fin n) (w : Worker) : State n :=
  { s with workers := Function.update s.workers i w }

/-- One step of a worker. -/
def workerStep (s : State n) (i : Fin n) : Option (State n) :=
  match s.workers i with
  | .test => some (s.goto i (if s.event then .returned else .get))
  | .get =>
    match s.taskQueue with
    | [] => some (s.goto i .empty)
    | task :: rest => some { s.goto i (.call task) with taskQueue := rest }
  | .empty => some { s.goto i .returned with event := true }
  | .call task =>
    let w := match task.outcome with
      | .truthy => Worker.test
      | .falsy => .fail
      | .raises => .died
    some { s.goto i w with calls := s.calls ++ [task] }
  | .fail => some { s.goto i .signal with result := false }
  | .signal => some { s.goto i .returned with event := true }
  | .notStarted | .returned | .died => none

/-- One step of the main thread, after it has filled the queue. It is blocked while the event is not
set, and while a thread that it joins runs. -/
def mainStep (s : State n) : Option (State n) :=
  match s.main with
  | .starting k =>
    if h : k < n then some { s.goto ⟨k, h⟩ .test with main := .starting (k + 1) }
    else some { s with main := .waiting }
  | .waiting => if s.event then some { s with main := .joining 0 } else none
  | .joining k =>
    if h : k < n then
      if (s.workers ⟨k, h⟩).ended then some { s with main := .joining (k + 1) } else none
    else some { s with main := .returned s.result }
  | .returned _ => none

/-- The main thread moves, or a worker. -/
def step (s : State n) : Option (Fin n) → Option (State n)
  | none => mainStep s
  | some i => workerStep s i

def start (n : ℕ) (outcomes : List Outcome) : State n where
  main := .starting 0
  workers _ := .notStarted
  taskQueue := tasks outcomes
  event := false
  result := true
  calls := []

/-- The states of the runs of `parallel_process`. -/
def Reachable (outcomes : List Outcome) (s : State n) : Prop :=
  Reach step Free (· = start n outcomes) s

/-- No thread can move. -/
def Stuck (s : State n) : Prop := ∀ a, step s a = none

instance (s : State n) : Decidable (Stuck s) :=
  inferInstanceAs (Decidable (∀ a : Option (Fin n), step s a = none))

/-! ## What a step can do -/

inductive WorkerStep (s : State n) (i : Fin n) : State n → Prop
  | leave : s.workers i = .test → s.event = true → WorkerStep s i (s.goto i .returned)
  | enter : s.workers i = .test → s.event = false → WorkerStep s i (s.goto i .get)
  | empty : s.workers i = .get → s.taskQueue = [] → WorkerStep s i (s.goto i .empty)
  | take {task rest} : s.workers i = .get → s.taskQueue = task :: rest →
      WorkerStep s i { s.goto i (.call task) with taskQueue := rest }
  | exhausted : s.workers i = .empty → WorkerStep s i { s.goto i .returned with event := true }
  | passed {task} : s.workers i = .call task → task.outcome = .truthy →
      WorkerStep s i { s.goto i .test with calls := s.calls ++ [task] }
  | failed {task} : s.workers i = .call task → task.outcome = .falsy →
      WorkerStep s i { s.goto i .fail with calls := s.calls ++ [task] }
  | raised {task} : s.workers i = .call task → task.outcome = .raises →
      WorkerStep s i { s.goto i .died with calls := s.calls ++ [task] }
  | record : s.workers i = .fail → WorkerStep s i { s.goto i .signal with result := false }
  | signal : s.workers i = .signal → WorkerStep s i { s.goto i .returned with event := true }

inductive MainStep (s : State n) : State n → Prop
  | startThread {k} (h : k < n) : s.main = .starting k →
      MainStep s { s.goto ⟨k, h⟩ .test with main := .starting (k + 1) }
  | started {k} : s.main = .starting k → n ≤ k → MainStep s { s with main := .waiting }
  | wakes : s.main = .waiting → s.event = true → MainStep s { s with main := .joining 0 }
  | joined {k} (h : k < n) : s.main = .joining k → (s.workers ⟨k, h⟩).ended = true →
      MainStep s { s with main := .joining (k + 1) }
  | returns {k} : s.main = .joining k → n ≤ k → MainStep s { s with main := .returned s.result }

theorem workerStep_cases {s s' : State n} {i : Fin n} (h : workerStep s i = some s') :
    WorkerStep s i s' := by
  unfold workerStep at h
  split at h
  · rename_i hw
    cases hevent : s.event with
    | true =>
      rw [hevent, if_pos rfl] at h
      cases h
      exact .leave hw hevent
    | false =>
      rw [hevent, if_neg Bool.false_ne_true] at h
      cases h
      exact .enter hw hevent
  · rename_i hw
    split at h
    · cases h
      exact .empty hw ‹_›
    · cases h
      exact .take hw ‹_›
  · cases h
    exact .exhausted ‹_›
  · rename_i task hw
    cases houtcome : task.outcome with
    | truthy =>
      rw [houtcome] at h
      cases h
      exact .passed hw houtcome
    | falsy =>
      rw [houtcome] at h
      cases h
      exact .failed hw houtcome
    | raises =>
      rw [houtcome] at h
      cases h
      exact .raised hw houtcome
  · cases h
    exact .record ‹_›
  · cases h
    exact .signal ‹_›
  · cases h
  · cases h
  · cases h

theorem mainStep_cases {s s' : State n} (h : mainStep s = some s') : MainStep s s' := by
  unfold mainStep at h
  split at h
  · split_ifs at h with hk
    · cases h
      exact .startThread hk ‹_›
    · cases h
      exact .started ‹_› (not_lt.mp hk)
  · split_ifs at h with hevent
    cases h
    exact .wakes ‹_› hevent
  · split_ifs at h with hk hended
    · cases h
      exact .joined hk ‹_› hended
    · cases h
      exact .returns ‹_› (not_lt.mp hk)
  · cases h

/-! ## Where each item is -/

/-- The item that a worker is about to pass to `func`. -/
def Worker.held : Worker → Multiset Task
  | .call task => {task}
  | _ => 0

def Worker.dead : Worker → ℕ
  | .died => 1
  | _ => 0

/-- The calls of `func` that raised. -/
def raised (ts : List Task) : ℕ := ts.countP (·.outcome = .raises)

/-- Every item is in the queue, held by a worker or was passed to `func`; they leave the queue in
order, and each exception has ended a worker. -/
structure Accounted (outcomes : List Outcome) (s : State n) : Prop where
  items : (s.calls : Multiset Task) + ∑ i, (s.workers i).held + (s.taskQueue : Multiset Task) =
    (tasks outcomes : Multiset Task)
  suffix : s.taskQueue <:+ tasks outcomes
  died : ∑ i, (s.workers i).dead = raised s.calls

section Accounted

variable {outcomes : List Outcome} {s s' : State n} {i : Fin n} {w : Worker} {task : Task}

theorem raised_append (ts : List Task) (t : Task) :
    raised (ts ++ [t]) = raised ts + if t.outcome = .raises then 1 else 0 := by
  rw [raised, List.countP_append, List.countP_singleton]
  simp [raised]

theorem accounted_start (outcomes : List Outcome) : Accounted outcomes (start n outcomes) where
  items := by simp [start, Worker.held]
  suffix := List.suffix_refl _
  died := by simp [start, Worker.dead, raised]

theorem Accounted.congr (h : Accounted outcomes s) (hcalls : s'.calls = s.calls)
    (hworkers : s'.workers = s.workers) (hqueue : s'.taskQueue = s.taskQueue) :
    Accounted outcomes s' := by
  constructor
  · rw [hcalls, hworkers, hqueue]
    exact h.items
  · rw [hqueue]
    exact h.suffix
  · rw [hcalls, hworkers]
    exact h.died

/-- A thread moves without an item. -/
theorem Accounted.move (h : Accounted outcomes s) (hheld : w.held = (s.workers i).held)
    (hdead : w.dead = (s.workers i).dead) : Accounted outcomes (s.goto i w) := by
  have hsum := sum_threads_update s.workers Worker.held i w
  have hcount := sum_threads_update s.workers Worker.dead i w
  rw [hheld] at hsum
  rw [hdead] at hcount
  refine ⟨?_, h.suffix, ?_⟩
  · rw [State.goto]
    dsimp only
    rw [add_right_cancel hsum]
    exact h.items
  · rw [State.goto]
    dsimp only
    rw [add_right_cancel hcount]
    exact h.died

/-- A worker takes the first item of the queue. -/
theorem Accounted.take {rest : List Task} (h : Accounted outcomes s) (hw : s.workers i = .get)
    (hq : s.taskQueue = task :: rest) :
    Accounted outcomes { s.goto i (.call task) with taskQueue := rest } := by
  have hsum := sum_threads_update s.workers Worker.held i (.call task)
  have hcount := sum_threads_update s.workers Worker.dead i (.call task)
  rw [hw, show Worker.get.held = 0 from rfl, show (Worker.call task).held = {task} from rfl,
    add_zero] at hsum
  rw [hw, show (Worker.call task).dead = Worker.get.dead from rfl] at hcount
  refine ⟨?_, ?_, ?_⟩
  · have hitems := h.items
    rw [hq, ← Multiset.cons_coe, ← Multiset.singleton_add] at hitems
    rw [← hitems, State.goto]
    dsimp only
    rw [hsum]
    abel
  · have hsuffix := h.suffix
    rw [hq] at hsuffix
    exact (List.suffix_cons task rest).trans hsuffix
  · rw [State.goto]
    dsimp only
    rw [add_right_cancel hcount]
    exact h.died

/-- A worker calls `func`. -/
theorem Accounted.call (h : Accounted outcomes s) (hw : s.workers i = .call task)
    (hheld : w.held = 0) (hdead : w.dead = if task.outcome = .raises then 1 else 0) :
    Accounted outcomes { s.goto i w with calls := s.calls ++ [task] } := by
  have hsum := sum_threads_update s.workers Worker.held i w
  have hcount := sum_threads_update s.workers Worker.dead i w
  rw [hw, hheld, add_zero] at hsum
  rw [hw, hdead] at hcount
  refine ⟨?_, h.suffix, ?_⟩
  · rw [← h.items, State.goto, ← hsum, ← Multiset.coe_add, Multiset.coe_singleton,
      show (Worker.call task).held = {task} from rfl]
    abel
  · rw [State.goto, raised_append, ← h.died]
    exact hcount

theorem Accounted.workerStep (h : Accounted outcomes s) (hs : WorkerStep s i s') :
    Accounted outcomes s' := by
  cases hs with
  | leave hw | enter hw | empty hw =>
    refine h.move ?_ ?_ <;>
      · rw [hw]
        rfl
  | exhausted hw | signal hw =>
    refine (h.move (w := .returned) (i := i) ?_ ?_).congr rfl rfl rfl <;>
      · rw [hw]
        rfl
  | record hw =>
    refine (h.move (w := .signal) (i := i) ?_ ?_).congr rfl rfl rfl <;>
      · rw [hw]
        rfl
  | take hw hq => exact h.take hw hq
  | passed hw ho | failed hw ho | raised hw ho =>
    refine h.call hw rfl ?_
    rw [ho]
    rfl

end Accounted

/-! ## The event and the result -/

/-- `func` has returned a false value. -/
def State.Failed (s : State n) : Prop := ∃ t ∈ s.calls, t.outcome = .falsy

/-- What the place of a worker says about what the threads share. -/
structure Worker.Local (s : State n) (w : Worker) : Prop where
  empty : w = .empty → s.taskQueue = []
  fail : w = .fail → s.Failed
  signal : w = .signal → s.result = false
  returned : w = .returned → s.event = true

/-- The worker is about to record a failure, or it has done so. -/
def Worker.noticing (result : Bool) : Worker → Bool
  | .fail => true
  | .signal | .returned => !result
  | _ => false

/-- The event is set by a worker that returns, after the queue was empty or a failure was recorded; a
failure is noticed by a worker, which records it. -/
structure Signals (s : State n) : Prop where
  workers : ∀ i, (s.workers i).Local s
  event : s.event = true → (s.taskQueue = [] ∨ s.result = false) ∧ ∃ i, s.workers i = .returned
  result : s.result = false → s.Failed
  noticed : s.Failed → ∃ i, (s.workers i).noticing s.result = true

section Signals

variable {s s' : State n} {i : Fin n} {w : Worker}

/-- What the threads share grows, and worker `i` has moved to `w`. -/
structure Grows (s s' : State n) (i : Fin n) (w : Worker) : Prop where
  workers : s'.workers = Function.update s.workers i w
  taskQueue : s.taskQueue = [] → s'.taskQueue = []
  result : s.result = false → s'.result = false
  event : s.event = true → s'.event = true
  failed : s.Failed → s'.Failed

theorem Worker.Local.mono {v : Worker} (h : v.Local s) (hg : Grows s s' i w) : v.Local s' where
  empty hv := hg.taskQueue (h.empty hv)
  fail hv := hg.failed (h.fail hv)
  signal hv := hg.result (h.signal hv)
  returned hv := hg.event (h.returned hv)

/-- A worker that runs moves: what it sets and what it notices are its own. -/
theorem Signals.move (h : Signals s) (hg : Grows s s' i w) (hw : w.Local s')
    (hevent : s'.event = true → s.event = true ∧ s.workers i ≠ .returned ∨
      w = .returned ∧ (s'.taskQueue = [] ∨ s'.result = false))
    (hresult : s'.result = false → s'.Failed)
    (hnoticed : s'.Failed → s.Failed ∧ (s.workers i).noticing s.result = false ∨
      w.noticing s'.result = true) : Signals s' := by
  have hself : s'.workers i = w := by rw [hg.workers, Function.update_self]
  have hother : ∀ j, j ≠ i → s'.workers j = s.workers j := by
    intro j hj
    rw [hg.workers, Function.update_of_ne hj]
  refine ⟨fun j => ?_, fun he => ?_, hresult, fun hf => ?_⟩
  · by_cases hj : j = i
    · rw [hj, hself]
      exact hw
    · rw [hother j hj]
      exact (h.workers j).mono hg
  · obtain ⟨he, hi⟩ | ⟨hreturned, hwhy⟩ := hevent he
    · obtain ⟨hwhy, j, hj⟩ := h.event he
      have hne : j ≠ i := by
        rintro rfl
        exact hi hj
      refine ⟨hwhy.imp hg.taskQueue hg.result, j, ?_⟩
      rw [hother j hne]
      exact hj
    · exact ⟨hwhy, i, hself.trans hreturned⟩
  · obtain ⟨hf, hi⟩ | hw := hnoticed hf
    · obtain ⟨j, hj⟩ := h.noticed hf
      have hne : j ≠ i := by
        rintro rfl
        rw [hi] at hj
        cases hj
      refine ⟨j, ?_⟩
      rw [hother j hne]
      cases hr : s.result with
      | true =>
        -- Only a worker that is about to record can have noticed it.
        rw [hr] at hj
        cases hwj : s.workers j with
        | fail => rfl
        | _ =>
          rw [hwj] at hj
          cases hj
      | false =>
        rw [hg.result hr, ← hr]
        exact hj
    · refine ⟨i, ?_⟩
      rw [hself]
      exact hw

/-- A worker that neither sets the event nor sees a failure moves. -/
theorem Signals.quiet (h : Signals s) (hworkers : s'.workers = Function.update s.workers i w)
    (hqueue : s.taskQueue = [] → s'.taskQueue = []) (hevent : s'.event = s.event)
    (hresult : s'.result = s.result) (hfailed : s'.Failed ↔ s.Failed) (hw : w.Local s')
    (hreturned : s.workers i ≠ .returned)
    (hnoticing : (s.workers i).noticing s.result = false) : Signals s' := by
  refine h.move ⟨hworkers, hqueue, hresult.trans, hevent.trans, hfailed.mpr⟩ hw ?_ ?_ ?_
  · exact fun he => .inl ⟨hevent.symm.trans he, hreturned⟩
  · exact fun hr => hfailed.mpr (h.result (hresult.symm.trans hr))
  · exact fun hf => .inl ⟨hfailed.mp hf, hnoticing⟩

theorem failed_append {calls : List Task} {t : Task} :
    (∃ u ∈ calls ++ [t], u.outcome = .falsy) ↔
      (∃ u ∈ calls, u.outcome = .falsy) ∨ t.outcome = .falsy := by
  simp [List.mem_append, or_and_right, exists_or]

/-- A call that returns no false value is no failure. -/
theorem failed_call {task : Task} (houtcome : task.outcome ≠ .falsy) :
    ({ s.goto i w with calls := s.calls ++ [task] } : State n).Failed ↔ s.Failed :=
  failed_append.trans (or_iff_left houtcome)

theorem Signals.workerStep (h : Signals s) (hs : WorkerStep s i s') : Signals s' := by
  have hi := h.workers i
  cases hs with
  | leave hw hevent =>
    refine h.quiet rfl id rfl rfl Iff.rfl ⟨nofun, nofun, nofun, fun _ => hevent⟩ ?_ ?_ <;> rw [hw]
    · nofun
    · rfl
  | enter hw hevent =>
    refine h.quiet rfl id rfl rfl Iff.rfl ⟨nofun, nofun, nofun, nofun⟩ ?_ ?_ <;> rw [hw]
    · nofun
    · rfl
  | empty hw hqueue =>
    refine h.quiet rfl id rfl rfl Iff.rfl ⟨fun _ => hqueue, nofun, nofun, nofun⟩ ?_ ?_ <;> rw [hw]
    · nofun
    · rfl
  | take hw hqueue =>
    have hne : s.taskQueue ≠ [] := by simp [hqueue]
    refine h.quiet rfl (fun hnil => absurd hnil hne) rfl rfl Iff.rfl ⟨nofun, nofun, nofun, nofun⟩
      ?_ ?_ <;> rw [hw]
    · nofun
    · rfl
  | exhausted hw =>
    refine h.move ⟨rfl, id, id, fun _ => rfl, id⟩ ⟨nofun, nofun, nofun, fun _ => rfl⟩ ?_ h.result ?_
    · exact fun _ => .inr ⟨rfl, .inl (hi.empty hw)⟩
    · exact fun hf => .inl ⟨hf, by rw [hw]; rfl⟩
  | passed hw houtcome | raised hw houtcome =>
    refine h.quiet rfl id rfl rfl (failed_call (by simp [houtcome])) ⟨nofun, nofun, nofun, nofun⟩
      ?_ ?_ <;> rw [hw]
    · nofun
    · rfl
  | @failed task hw houtcome =>
    have hf : ({ s.goto i .fail with calls := s.calls ++ [task] } : State n).Failed :=
      failed_append.mpr (.inr houtcome)
    refine h.move ⟨rfl, id, id, id, fun _ => hf⟩ ⟨nofun, fun _ => hf, nofun, nofun⟩ ?_
      (fun _ => hf) (fun _ => .inr rfl)
    exact fun he => .inl ⟨he, by simp [hw]⟩
  | record hw =>
    refine h.move ⟨rfl, id, fun _ => rfl, id, id⟩ ⟨nofun, nofun, fun _ => rfl, nofun⟩ ?_
      (fun _ => hi.fail hw) (fun _ => .inr rfl)
    exact fun he => .inl ⟨he, by simp [hw]⟩
  | signal hw =>
    have hr : s.result = false := hi.signal hw
    refine h.move ⟨rfl, id, id, fun _ => rfl, id⟩ ⟨nofun, nofun, nofun, fun _ => rfl⟩ ?_ h.result ?_
    · exact fun _ => .inr ⟨rfl, .inr hr⟩
    · exact fun _ => .inr (by simp [State.goto, Worker.noticing, hr])

end Signals

/-! ## The main thread -/

/-- Which threads the main thread has started, and which ones have ended. -/
structure Joins (s : State n) : Prop where
  starting : ∀ k, s.main = .starting k → ∀ i : Fin n, s.workers i = .notStarted ↔ k ≤ i
  started : (∀ k, s.main ≠ .starting k) → ∀ i, s.workers i ≠ .notStarted
  joining : ∀ k, s.main = .joining k →
    s.event = true ∧ ∀ i : Fin n, i < k → (s.workers i).ended = true
  returned : ∀ result, s.main = .returned result →
    s.event = true ∧ (∀ i, (s.workers i).ended = true) ∧ result = s.result

structure Inv (outcomes : List Outcome) (s : State n) : Prop where
  accounted : Accounted outcomes s
  signals : Signals s
  joins : Joins s

section Joins

variable {outcomes : List Outcome} {s s' : State n} {i : Fin n}

/-- A worker that moves was running; it keeps the event, and it does not touch the main thread. -/
theorem WorkerStep.running (hs : WorkerStep s i s') :
    (s.workers i).ended = false ∧ s.workers i ≠ .notStarted ∧ s'.main = s.main ∧
      (s.event = true → s'.event = true) ∧ (∀ j, j ≠ i → s'.workers j = s.workers j) ∧
      s'.workers i ≠ .notStarted := by
  cases hs with
  | leave hw | enter hw | empty hw | take hw | exhausted hw | passed hw | failed hw | raised hw
  | record hw | signal hw =>
    refine ⟨by rw [hw]; rfl, by simp [hw], rfl, ?_, fun j hj => Function.update_of_ne hj _ _, ?_⟩
    · first
      | exact id
      | exact fun _ => rfl
    · simp [State.goto]

theorem Joins.workerStep (h : Joins s) (hs : WorkerStep s i s') : Joins s' := by
  obtain ⟨hrun, hbefore, hmain, hevent, hother, hself⟩ := hs.running
  refine ⟨fun k hk j => ?_, fun hk j => ?_, fun k hk => ?_, fun result hr => ?_⟩
  · have hj := h.starting k (hmain ▸ hk) j
    by_cases hji : j = i
    · subst hji
      exact iff_of_false hself fun hle => hbefore (hj.mpr hle)
    · rw [hother j hji]
      exact hj
  · by_cases hji : j = i
    · rw [hji]
      exact hself
    · rw [hother j hji]
      exact h.started (hmain ▸ hk) j
  · obtain ⟨he, hended⟩ := h.joining k (hmain ▸ hk)
    refine ⟨hevent he, fun j hj => ?_⟩
    have hji : j ≠ i := by
      rintro rfl
      rw [hended j hj] at hrun
      cases hrun
    rw [hother j hji]
    exact hended j hj
  · obtain ⟨-, hended, -⟩ := h.returned result (hmain ▸ hr)
    rw [hended i] at hrun
    cases hrun

theorem Joins.mainStep (h : Joins s) (hs : MainStep s s') : Joins s' := by
  cases hs with
  | @startThread k hk hmain =>
    refine ⟨?_, fun hne => absurd rfl (hne _), nofun, nofun⟩
    rintro _ ⟨⟩ i
    by_cases heq : i = ⟨k, hk⟩
    · subst heq
      simp [State.goto]
    · have hvalue : (i : ℕ) ≠ k := fun hik => heq (Fin.ext hik)
      have hother : (s.goto ⟨k, hk⟩ .test).workers i = s.workers i := Function.update_of_ne heq _ _
      have hi := h.starting k hmain i
      dsimp only
      rw [hother, hi]
      omega
  | @started k hmain hk =>
    refine ⟨nofun, fun _ i hi => ?_, nofun, nofun⟩
    have hle := (h.starting k hmain i).mp hi
    omega
  | wakes hmain hevent =>
    refine ⟨nofun, fun _ => h.started (by simp [hmain]), ?_, nofun⟩
    rintro _ ⟨⟩
    exact ⟨hevent, fun i hi => absurd hi (Nat.not_lt_zero _)⟩
  | @joined k hk hmain hended =>
    obtain ⟨hevent, hbefore⟩ := h.joining k hmain
    refine ⟨nofun, fun _ => h.started (by simp [hmain]), ?_, nofun⟩
    rintro _ ⟨⟩
    refine ⟨hevent, fun i hi => ?_⟩
    by_cases heq : i = ⟨k, hk⟩
    · rw [heq]
      exact hended
    · have hvalue : (i : ℕ) ≠ k := fun hik => heq (Fin.ext hik)
      exact hbefore i (by omega)
  | @returns k hmain hk =>
    obtain ⟨hevent, hbefore⟩ := h.joining k hmain
    refine ⟨nofun, fun _ => h.started (by simp [hmain]), nofun, ?_⟩
    rintro _ ⟨⟩
    exact ⟨hevent, fun i => hbefore i (by omega), rfl⟩

theorem Signals.congr (h : Signals s) (hworkers : s'.workers = s.workers)
    (hqueue : s'.taskQueue = s.taskQueue) (hevent : s'.event = s.event)
    (hresult : s'.result = s.result) (hcalls : s'.calls = s.calls) : Signals s' := by
  have hfailed : s'.Failed ↔ s.Failed := by rw [State.Failed, State.Failed, hcalls]
  refine ⟨fun i => ?_, ?_, ?_, ?_⟩
  · obtain ⟨hempty, hfail, hsignal, hreturned⟩ := h.workers i
    rw [hworkers]
    exact ⟨hqueue ▸ hempty, fun hw => hfailed.mpr (hfail hw), hresult ▸ hsignal, hevent ▸ hreturned⟩
  · rw [hevent, hqueue, hresult, hworkers]
    exact h.event
  · rw [hresult, hfailed]
    exact h.result
  · rw [hresult, hfailed, hworkers]
    exact h.noticed

theorem Inv.step {a : Option (Fin n)} (h : Inv outcomes s) (hs : Linter.step s a = some s') :
    Inv outcomes s' := by
  cases a with
  | some i =>
    have hstep := workerStep_cases hs
    exact ⟨h.accounted.workerStep hstep, h.signals.workerStep hstep, h.joins.workerStep hstep⟩
  | none =>
    have hstep := mainStep_cases hs
    refine ⟨?_, ?_, h.joins.mainStep hstep⟩
    · cases hstep with
      | @startThread k hk hmain =>
        have hw : s.workers ⟨k, hk⟩ = .notStarted := (h.joins.starting k hmain ⟨k, hk⟩).mpr le_rfl
        refine (h.accounted.move (w := .test) (i := ⟨k, hk⟩) ?_ ?_).congr rfl rfl rfl <;>
          · rw [hw]
            rfl
      | started | wakes | joined | returns => exact h.accounted.congr rfl rfl rfl
    · cases hstep with
      | @startThread k hk hmain =>
        have hw : s.workers ⟨k, hk⟩ = .notStarted := (h.joins.starting k hmain ⟨k, hk⟩).mpr le_rfl
        refine h.signals.move ⟨rfl, id, id, id, id⟩ ⟨nofun, nofun, nofun, nofun⟩ ?_
          h.signals.result ?_
        · exact fun he => .inl ⟨he, by simp [hw]⟩
        · exact fun hf => .inl ⟨hf, by rw [hw]; rfl⟩
      | started | wakes | joined | returns => exact h.signals.congr rfl rfl rfl rfl rfl

theorem inv_of_reach (h : Reachable outcomes s) : Inv outcomes s := by
  refine Reach.inv (I := Inv outcomes) ?_ (fun _ _ _ hinv _ hs => hinv.step hs) h
  rintro _ rfl
  refine ⟨accounted_start outcomes, ⟨fun i => ⟨nofun, nofun, nofun, nofun⟩, nofun, nofun, ?_⟩, ?_⟩
  · rintro ⟨t, ht, -⟩
    cases ht
  · refine ⟨?_, fun hne => absurd rfl (hne 0), nofun, nofun⟩
    rintro _ ⟨⟩ i
    exact iff_of_true rfl (Nat.zero_le _)

end Joins

/-! ## Every run ends -/

def Worker.weight : Worker → ℕ
  | .call _ => 4
  | .notStarted | .test => 3
  | .get | .fail => 2
  | .empty | .signal => 1
  | .returned | .died => 0

def Main.weight (n : ℕ) : Main → ℕ
  | .starting k => (n - k) + (n + 3)
  | .waiting => n + 2
  | .joining k => (n - k) + 1
  | .returned _ => 0

/-- A bound on the steps that are left. -/
def measure (s : State n) : ℕ :=
  s.main.weight n + ∑ i, (s.workers i).weight + 3 * s.taskQueue.length

section Measure

variable {outcomes : List Outcome} {s s' : State n} {i : Fin n}

theorem WorkerStep.weight_lt (hs : WorkerStep s i s') :
    ∃ w, s'.main = s.main ∧ s'.workers = Function.update s.workers i w ∧
      w.weight + 3 * s'.taskQueue.length < (s.workers i).weight + 3 * s.taskQueue.length := by
  cases hs with
  | leave hw | enter hw | empty hw | exhausted hw | passed hw | failed hw | raised hw | record hw
  | signal hw =>
    refine ⟨_, rfl, rfl, ?_⟩
    rw [hw]
    exact Nat.add_lt_add_right (by simp [Worker.weight]) _
  | take hw hqueue =>
    refine ⟨_, rfl, rfl, ?_⟩
    rw [hw, hqueue, List.length_cons]
    simp only [Worker.weight]
    omega

/-- **Every step uses up some of what is left.** -/
theorem measure_lt (h : Inv outcomes s) {a : Option (Fin n)} (hs : step s a = some s') :
    measure s' < measure s := by
  unfold measure
  cases a with
  | some i =>
    obtain ⟨w, hmain, hworkers, hlt⟩ := (workerStep_cases hs).weight_lt
    have hsum := sum_threads_update s.workers Worker.weight i w
    rw [hmain, hworkers]
    omega
  | none =>
    cases mainStep_cases hs with
    | @startThread k hk hmain =>
      have hsum := sum_threads_update s.workers Worker.weight ⟨k, hk⟩ .test
      rw [(h.joins.starting k hmain ⟨k, hk⟩).mpr le_rfl] at hsum
      have hworkers := add_right_cancel hsum
      rw [hmain, State.goto]
      dsimp only
      rw [hworkers]
      simp only [Main.weight]
      omega
    | started hmain hk | wakes hmain | joined hk hmain | returns hmain hk =>
      rw [hmain]
      simp only [Main.weight]
      omega

end Measure

/-! ## The verdict -/

/-- All threads have ended. -/
def State.Ended (s : State n) : Prop := ∀ i, (s.workers i).ended = true

section Verdict

variable {outcomes : List Outcome} {s : State n}

theorem map_outcome_tasks (outcomes : List Outcome) :
    (tasks outcomes).map (·.outcome) = outcomes := by
  rw [tasks, List.mapIdx_eq_zipIdx_map, List.map_map]
  exact List.zipIdx_map_fst 0 outcomes

theorem nodup_tasks (outcomes : List Outcome) : (tasks outcomes).Nodup := by
  refine List.Nodup.of_map (·.position) ?_
  rw [tasks, List.mapIdx_eq_zipIdx_map, List.map_map]
  exact (List.zipIdx_map_snd 0 outcomes).symm ▸ List.nodup_range'

/-- **No item is passed to `func` twice.** -/
theorem Inv.nodup_calls (h : Inv outcomes s) : s.calls.Nodup := by
  have hnodup : (tasks outcomes : Multiset Task).Nodup := nodup_tasks outcomes
  rw [← h.accounted.items, add_assoc] at hnodup
  exact (Multiset.nodup_add.mp hnodup).1

/-- When all threads have ended, the items that left the queue were passed to `func`. -/
theorem Inv.calls_of_ended (h : Inv outcomes s) (hended : s.Ended) :
    ∃ before, tasks outcomes = before ++ s.taskQueue ∧ s.calls.Perm before := by
  obtain ⟨before, hbefore⟩ := h.accounted.suffix
  have hheld : ∑ i, (s.workers i).held = 0 := by
    refine Finset.sum_eq_zero fun i _ => ?_
    have hi := hended i
    cases hw : s.workers i with
    | call task =>
      rw [hw] at hi
      cases hi
    | _ => rfl
  have hitems := h.accounted.items
  rw [hheld, add_zero, ← hbefore, ← Multiset.coe_add] at hitems
  exact ⟨before, hbefore.symm, Multiset.coe_eq_coe.mp (add_right_cancel hitems)⟩

/-- The worker that set the event has not died. -/
theorem Inv.raised_lt (h : Inv outcomes s) (hevent : s.event = true) : raised s.calls < n := by
  obtain ⟨-, i, hi⟩ := h.signals.event hevent
  have hle : ∀ j ∈ Finset.univ, (s.workers j).dead ≤ 1 := by
    intro j _
    cases s.workers j <;> simp [Worker.dead]
  have hlt : ∑ j, (s.workers j).dead < ∑ _j : Fin n, 1 :=
    Finset.sum_lt_sum hle ⟨i, Finset.mem_univ i, by rw [hi]; decide⟩
  rw [Finset.sum_const, Finset.card_univ, Fintype.card_fin, smul_eq_mul, Nat.mul_one] at hlt
  rw [← h.accounted.died]
  exact hlt

/-- While the event is not set, threads have ended by exceptions only. -/
theorem Inv.raised_of_ended (h : Inv outcomes s) (hended : s.Ended) (hevent : s.event = false) :
    raised s.calls = n := by
  have hdead : ∀ i, (s.workers i).dead = 1 := by
    intro i
    have hi := hended i
    cases hw : s.workers i with
    | died => rfl
    | returned =>
      have hset := (h.signals.workers i).returned hw
      rw [hevent] at hset
      cases hset
    | _ =>
      rw [hw] at hi
      cases hi
  rw [← h.accounted.died, Finset.sum_congr rfl fun i _ => hdead i, Finset.sum_const,
    Finset.card_univ, Fintype.card_fin, smul_eq_mul, Nat.mul_one]

/-- When all threads have ended, a failure was recorded by one that has set the event. -/
theorem Inv.failed_of_ended (h : Inv outcomes s) (hended : s.Ended) (hf : s.Failed) :
    s.result = false ∧ s.event = true := by
  obtain ⟨i, hi⟩ := h.signals.noticed hf
  have hend := hended i
  cases hw : s.workers i with
  | returned =>
    rw [hw, Worker.noticing, Bool.not_eq_true'] at hi
    exact ⟨hi, (h.signals.workers i).returned hw⟩
  | fail | signal =>
    rw [hw] at hend
    cases hend
  | _ =>
    rw [hw] at hi
    cases hi

/-- A state in which no thread can move: the main thread has returned, or it waits for the event and
all threads have ended. -/
theorem Inv.stuck (h : Inv outcomes s) (hstuck : Stuck s) :
    (∃ result, s.main = .returned result) ∨ s.main = .waiting ∧ s.event = false ∧ s.Ended := by
  have hended : (∀ k, s.main ≠ .starting k) → s.Ended := by
    intro hstarted i
    have hi := hstuck (some i)
    rw [Linter.step, Linter.workerStep] at hi
    cases hw : s.workers i with
    | notStarted => exact absurd hw (h.joins.started hstarted i)
    | returned | died => rfl
    | get =>
      rw [hw] at hi
      dsimp only at hi
      split at hi <;> cases hi
    | _ =>
      rw [hw] at hi
      cases hi
  have hmain := hstuck none
  rw [Linter.step, mainStep] at hmain
  cases hm : s.main with
  | starting k =>
    rw [hm] at hmain
    dsimp only at hmain
    split_ifs at hmain
  | waiting =>
    rw [hm] at hmain
    refine .inr ⟨rfl, ?_, hended (by simp [hm])⟩
    cases he : s.event with
    | false => rfl
    | true =>
      rw [he] at hmain
      cases hmain
  | joining k =>
    rw [hm] at hmain
    dsimp only at hmain
    split_ifs at hmain with hk hend
    exact absurd (hended (by simp [hm]) ⟨k, hk⟩) hend
  | returned result => exact .inl ⟨result, rfl⟩

end Verdict

/-! ## When it returns with the right verdict -/

/-- **The contract of `parallel_process`** with `n` workers: every run ends, and when no thread can move
it has returned; no item is passed to `func` twice; and the result is true if and only if `func` was
called on every item and returned a true value for each. -/
structure Correct (n : ℕ) (outcomes : List Outcome) : Prop where
  terminates : ∀ s : State n, Reachable outcomes s → ∀ a s', step s a = some s' →
    measure s' < measure s
  returns : ∀ s : State n, Reachable outcomes s → Stuck s → ∃ result, s.main = .returned result
  once : ∀ s : State n, Reachable outcomes s → s.calls.Nodup
  verdict : ∀ s : State n, Reachable outcomes s → ∀ result, s.main = .returned result →
    (result = true ↔ ∀ t ∈ tasks outcomes, t ∈ s.calls ∧ t.outcome = .truthy)

/-- No item raises, or there is one that fails and fewer than `n` of those before the first such
raise. -/
def Noticed (n : ℕ) (outcomes : List Outcome) : Prop :=
  .raises ∉ outcomes ∨
    .falsy ∈ outcomes ∧ (outcomes.takeWhile (· ≠ .falsy)).count .raises < n

instance (n : ℕ) (outcomes : List Outcome) : Decidable (Noticed n outcomes) :=
  inferInstanceAs (Decidable (_ ∨ _))

section Contract

variable {outcomes : List Outcome} {s : State n}

theorem raised_eq_count (ts : List Task) : raised ts = (ts.map (·.outcome)).count .raises := by
  rw [raised, List.count, List.countP_map]
  congr 1

theorem Inv.mem_outcomes (h : Inv outcomes s) {t : Task} (ht : t ∈ s.calls) :
    t.outcome ∈ outcomes := by
  have hmem : t ∈ (tasks outcomes : Multiset Task) := by
    rw [← h.accounted.items, add_assoc]
    exact Multiset.mem_add.mpr (.inl ht)
  have hmap := List.mem_map_of_mem (f := (·.outcome)) (Multiset.mem_coe.mp hmem)
  rwa [map_outcome_tasks] at hmap

/-- The main thread does not wait for ever. -/
theorem Noticed.returns (hn : 0 < n) (hcond : Noticed n outcomes) (h : Inv outcomes s)
    (hstuck : Stuck s) : ∃ result, s.main = .returned result := by
  refine (h.stuck hstuck).resolve_right ?_
  rintro ⟨-, hevent, hended⟩
  have hraised := h.raised_of_ended hended hevent
  obtain ⟨before, hbefore, hperm⟩ := h.calls_of_ended hended
  have houtcomes : outcomes = before.map (·.outcome) ++ s.taskQueue.map (·.outcome) := by
    rw [← List.map_append, ← hbefore, map_outcome_tasks]
  have hcount : (before.map (·.outcome)).count .raises = n := by
    rw [← raised_eq_count, ← hraised]
    exact (hperm.countP_eq _).symm
  obtain hnone | ⟨-, hlt⟩ := hcond
  · have hmem : .raises ∈ before.map (·.outcome) := by
      rw [← List.count_pos_iff, hcount]
      exact hn
    rw [houtcomes] at hnone
    exact hnone (List.mem_append_left _ hmem)
  · -- No item before the queue has failed, so all of them are before the first that does.
    have hpassed : ∀ o ∈ before.map (·.outcome), decide (o ≠ .falsy) = true := by
      intro o ho
      obtain ⟨t, ht, rfl⟩ := List.mem_map.mp ho
      refine decide_eq_true fun hfalsy => ?_
      obtain ⟨-, hset⟩ := h.failed_of_ended hended ⟨t, hperm.mem_iff.mpr ht, hfalsy⟩
      rw [hevent] at hset
      cases hset
    rw [houtcomes, List.takeWhile_append_of_pos hpassed, List.count_append, hcount] at hlt
    omega

/-- A result of `parallel_process` is the verdict. -/
theorem Noticed.verdict (hcond : Noticed n outcomes) (h : Inv outcomes s) {result : Bool}
    (hmain : s.main = .returned result) :
    result = true ↔ ∀ t ∈ tasks outcomes, t ∈ s.calls ∧ t.outcome = .truthy := by
  obtain ⟨hevent, hended, rfl⟩ := h.joins.returned result hmain
  obtain ⟨before, hbefore, hperm⟩ := h.calls_of_ended hended
  constructor
  · intro hresult t ht
    have hpassed : ¬ s.Failed := by
      intro hf
      rw [(h.failed_of_ended hended hf).1] at hresult
      cases hresult
    have hqueue : s.taskQueue = [] := by
      refine (h.signals.event hevent).1.resolve_right ?_
      rw [hresult]
      exact nofun
    rw [hqueue, List.append_nil] at hbefore
    rw [hbefore] at ht
    have hcall := hperm.mem_iff.mpr ht
    have hall : ∀ o ∈ outcomes, ∃ u ∈ s.calls, u.outcome = o := by
      intro o ho
      rw [← map_outcome_tasks outcomes, hbefore] at ho
      obtain ⟨u, hu, rfl⟩ := List.mem_map.mp ho
      exact ⟨u, hperm.mem_iff.mpr hu, rfl⟩
    refine ⟨hcall, ?_⟩
    cases houtcome : t.outcome with
    | truthy => rfl
    | falsy => exact absurd ⟨t, hcall, houtcome⟩ hpassed
    | raises =>
      obtain hnone | ⟨hfalsy, -⟩ := hcond
      · exact absurd (houtcome ▸ h.mem_outcomes hcall) hnone
      · exact absurd (hall _ hfalsy) hpassed
  · intro hall
    by_contra hresult
    obtain ⟨t, ht, hfalsy⟩ := h.signals.result (Bool.not_eq_true _ ▸ hresult)
    have hmem : t ∈ tasks outcomes := by
      rw [hbefore]
      exact List.mem_append_left _ (hperm.mem_iff.mp ht)
    rw [(hall t hmem).2] at hfalsy
    cases hfalsy

/-- Where more exceptions come first than there are workers, nobody is left to set the event. -/
theorem Inv.count_lt (h : Inv outcomes s) {result : Bool} (hmain : s.main = .returned result)
    (hfalsy : .falsy ∈ outcomes) : (outcomes.takeWhile (· ≠ .falsy)).count .raises < n := by
  obtain ⟨hevent, hended, -⟩ := h.joins.returned result hmain
  obtain ⟨before, hbefore, hperm⟩ := h.calls_of_ended hended
  have houtcomes : outcomes = before.map (·.outcome) ++ s.taskQueue.map (·.outcome) := by
    rw [← List.map_append, ← hbefore, map_outcome_tasks]
  have hmem : .falsy ∈ before.map (·.outcome) := by
    obtain hqueue | hresult := (h.signals.event hevent).1
    · rw [hqueue, List.map_nil, List.append_nil] at houtcomes
      rwa [← houtcomes]
    · obtain ⟨t, ht, hfail⟩ := h.signals.result hresult
      exact List.mem_map.mpr ⟨t, hperm.mem_iff.mp ht, hfail⟩
  have hprefix : outcomes.takeWhile (· ≠ .falsy) <+: before.map (·.outcome) := by
    rw [houtcomes, List.takeWhile_append, if_neg]
    · exact List.takeWhile_prefix _
    · intro hlength
      have hself := (List.takeWhile_prefix _).eq_of_length hlength
      exact of_decide_eq_true (List.takeWhile_eq_self_iff.mp hself _ hmem) rfl
  calc (outcomes.takeWhile (· ≠ .falsy)).count .raises
      ≤ (before.map (·.outcome)).count .raises := hprefix.sublist.count_le _
    _ = raised s.calls := by rw [← raised_eq_count]; exact (hperm.countP_eq _).symm
    _ < n := h.raised_lt hevent

end Contract

/-- **When the verdict is right.** For every list of items and every positive number of workers, in
every interleaving `parallel_process` returns, calls `func` at most once on an item and tells whether
all items have passed, if and only if no item raises, or one fails and fewer items than there are
workers raise before the first one that does. -/
theorem parallel_process_iff (outcomes : List Outcome) (hn : 0 < n) :
    Correct n outcomes ↔ Noticed n outcomes := by
  have hdecreases : ∀ s : State n, Reachable outcomes s → ∀ a s', step s a = some s' →
      measure s' < measure s := fun s hs a s' hstep => measure_lt (inv_of_reach hs) hstep
  constructor
  · intro hcorrect
    obtain ⟨s, hs, hstuck⟩ : ∃ s : State n, Reachable outcomes s ∧ Stuck s :=
      Reach.exists_stuck hdecreases (.start rfl)
    have h := inv_of_reach hs
    obtain ⟨result, hmain⟩ := hcorrect.returns s hs hstuck
    have hverdict := hcorrect.verdict s hs result hmain
    by_cases hfalsy : .falsy ∈ outcomes
    · exact .inr ⟨hfalsy, h.count_lt hmain hfalsy⟩
    · -- No failure was recorded, so the result is true and all items have passed.
      have hresult : result = true := by
        obtain ⟨-, -, rfl⟩ := h.joins.returned result hmain
        by_contra hfalse
        obtain ⟨t, ht, hfail⟩ := h.signals.result (Bool.not_eq_true _ ▸ hfalse)
        exact hfalsy (hfail ▸ h.mem_outcomes ht)
      refine .inl fun hraises => ?_
      rw [← map_outcome_tasks outcomes] at hraises
      obtain ⟨t, ht, houtcome⟩ := List.mem_map.mp hraises
      rw [(hverdict.mp hresult t ht).2] at houtcome
      cases houtcome
  · intro hcond
    exact ⟨hdecreases, fun s hs hstuck => hcond.returns hn (inv_of_reach hs) hstuck,
      fun s hs => (inv_of_reach hs).nodup_calls,
      fun s hs result hmain => hcond.verdict (inv_of_reach hs) hmain⟩

/-- An exception before a failure, with a worker left to notice the failure. -/
theorem parallel_process_two_workers : Correct 2 [.raises, .falsy] :=
  (parallel_process_iff [.raises, .falsy] (by decide)).mpr (by decide)

/-- **An exception is lost.** One item, on which `func` raises: with two workers, the other one finds
the queue empty and the result is true; with one worker, the main thread waits for ever. -/
theorem parallel_process_raises :
    (∃ s : State 2, Reachable [.raises] s ∧ s.main = .returned true ∧ s.calls = [⟨0, .raises⟩]) ∧
    (∃ s : State 1, Reachable [.raises] s ∧ Stuck s ∧ s.main = .waiting) ∧
    ¬ Correct 2 [.raises] ∧ ¬ Correct 1 [.raises] := by
  have htwo : ∃ s : State 2, Reachable [.raises] s ∧ s.main = .returned true ∧
      s.calls = [⟨0, .raises⟩] :=
    Reach.exists_of_run (.start rfl) [none, none, none, some 0, some 0, some 0, some 1, some 1,
      some 1, none, none, none, none] (by decide)
  have hone : ∃ s : State 1, Reachable [.raises] s ∧ Stuck s ∧ s.main = .waiting :=
    Reach.exists_of_run (.start rfl) [none, none, some 0, some 0, some 0] (by decide)
  refine ⟨htwo, hone, fun hcorrect => ?_, fun hcorrect => ?_⟩
  · obtain ⟨s, hs, hmain, -⟩ := htwo
    have hall := (hcorrect.verdict s hs true hmain).mp rfl
    have htruthy := (hall ⟨0, .raises⟩ (by decide)).2
    cases htruthy
  · obtain ⟨s, hs, hstuck, hmain⟩ := hone
    obtain ⟨result, hreturned⟩ := hcorrect.returns s hs hstuck
    rw [hmain] at hreturned
    cases hreturned

end MongoTests.Linter
