import Mathlib.Algebra.Order.BigOperators.Group.Finset
import MongoTests.Resmoke.Job

/-!
# No hang at the end of a suite

Whether the main thread's loop over `test_queue.join()` ends once every `Job.__call__` has returned.

* `Counted`: the count of unfinished tasks is the length of the queue plus what the threads owe.
* `Covered`: a queue that is not empty still has a thread that will take its items.
* **`join_of_allReturned`**: if no `put` lands after the flag was set and the drains are over, then
  the count is zero when all threads have returned.
* `put_after_drain_hangs`: without that condition it need not be.
-/

namespace MongoTests.Resmoke.Job

open MongoTests.Lib

variable {n : ℕ} {τ : Type*}

/-- How many `task_done()` calls a thread still owes for items it has taken. -/
def owes : Pc τ → ℕ
  | .execute _ => 1
  | .taskDone _ _ => 1
  | .drainTaskDone => 1
  | _ => 0

/-- The thread is in `_interrupt_all_jobs`. -/
def draining : Pc τ → Bool
  | .interrupt => true
  | .drainEmpty => true
  | .drainGet => true
  | .drainTaskDone => true
  | _ => false

/-- The thread is still to evaluate the test of the loop in `_run`. -/
def inLoop : Pc τ → Bool
  | .setup => true
  | .beforeSuite _ => true
  | .loopEmpty => true
  | .loopIsSet => true
  | .getNowait => true
  | .execute _ => true
  | .taskDone _ _ => true
  | .requeue _ => true
  | .requeueIsSet _ => true
  | .put _ => true
  | _ => false

/-- The thread is about to call `queue.put`. -/
def putting : Pc τ → Bool
  | .put _ => true
  | _ => false

/-- A thread that will take what is in the queue. -/
def Takes (g : Shared τ) (pc : Pc τ) : Prop :=
  draining pc = true ∨ (g.interruptFlag = false ∧ inLoop pc = true)

/-- The count of unfinished tasks is what is in the queue plus what the threads owe. -/
def Counted (s : State n τ) : Prop :=
  s.shared.queue.unfinishedTasks = s.shared.queue.items.length + ∑ i, owes (s.jobs i).pc

/-- Unless the user has interrupted, a nonempty queue has a thread that will take its items. -/
def Covered (s : State n τ) : Prop :=
  s.shared.userInterrupted = false → s.shared.queue.items ≠ [] →
    ∃ i, Takes s.shared (s.jobs i).pc

/-- A `put` happens only while the interrupt flag is unset or some thread is still draining. -/
def PutCovered (s : State n τ) : Act n τ → Prop
  | .job i _ => putting (s.jobs i).pc = true →
      s.shared.interruptFlag = false ∨ ∃ j, draining (s.jobs j).pc = true
  | .userInterrupt => True

instance (s : State n τ) (a : Act n τ) : Decidable (PutCovered s a) :=
  match a with
  | .job _ _ => inferInstanceAs (Decidable (_ → _ ∨ _))
  | .userInterrupt => inferInstanceAs (Decidable True)

section Transitions

variable [Add τ] [LE τ] [DecidableLE τ] {cfg : Config n τ} {i : Fin n} {g g' : Shared τ}
  {k k' : ℕ} {pc pc' : Pc τ} {o : Outcome τ}

/-- The count moves with the queue and with what the thread owes. -/
theorem JobStep.counted (h : JobStep cfg i g k pc o g' pc' k')
    (ho : owes pc ≤ g.queue.unfinishedTasks) :
    g'.queue.unfinishedTasks + (g.queue.items.length + owes pc) =
      g.queue.unfinishedTasks + (g'.queue.items.length + owes pc') := by
  cases h with
  | drainPop hq =>
    obtain ⟨hi, hu⟩ := Queue.getNowait_eq_some.mp hq
    simp only [hi, hu, owes, List.length_cons, Nat.add_assoc]
  | pop hq =>
    obtain ⟨hi, hu⟩ := Queue.getNowait_eq_some.mp hq
    simp only [hi, hu, owes, List.length_cons, Nat.add_assoc]
  | drainTooMany hq | doneTooMany hq =>
    rw [Queue.taskDone_eq_none] at hq
    simp [owes, hq] at ho
  | drainDone hq | doneRaised hq | done hq =>
    obtain ⟨hi, hu⟩ := Queue.taskDone_eq_some.mp hq
    simp only [hi, hu, owes]
    omega
  | putBack =>
    simp only [Queue.put, owes, List.length_append, List.length_singleton]
    omega
  | _ => rfl

/-- A thread that will take the items leaves only once there are none. -/
theorem JobStep.takes (h : JobStep cfg i g k pc o g' pc' k')
    (ho : owes pc ≤ g.queue.unfinishedTasks) (ht : Takes g pc) :
    g'.queue.items = [] ∨ Takes g' pc' := by
  cases h with
  | drained hq | sawEmpty hq => exact .inl hq
  | drainRace hq => exact .inl (Queue.getNowait_eq_none.mp hq)
  | drainTooMany hq =>
    rw [Queue.taskDone_eq_none] at hq
    simp [owes, hq] at ho
  | _ => simp_all [Takes, draining, inLoop]

/-- The interrupt flag is set only by a thread that goes on to drain the queue. -/
theorem JobStep.flag (h : JobStep cfg i g k pc o g' pc' k') :
    g'.interruptFlag = g.interruptFlag ∨ draining pc' = true := by
  cases h with
  | setFlag => exact .inr rfl
  | _ => exact .inl rfl

theorem JobStep.userInterrupted (h : JobStep cfg i g k pc o g' pc' k') :
    g'.userInterrupted = g.userInterrupted := by
  cases h <;> rfl

/-- Only a `put` fills an empty queue. -/
theorem JobStep.items_of_empty (h : JobStep cfg i g k pc o g' pc' k') (hq : g.queue.items = []) :
    g'.queue.items = [] ∨ (putting pc = true ∧ inLoop pc' = true ∧
      g'.interruptFlag = g.interruptFlag) := by
  cases h with
  | drainPop he | pop he =>
    rw [(Queue.getNowait_eq_some.mp he).1] at hq
    cases hq
  | drainDone he | doneRaised he | done he => exact .inl ((Queue.taskDone_eq_some.mp he).1.trans hq)
  | putBack => exact .inr ⟨rfl, rfl, rfl⟩
  | _ => exact .inl hq

end Transitions

/-! ## Invariants -/

section Invariants

variable {q : InitialQueue τ} {s : State n τ}

theorem Counted.owes_le (hc : Counted s) (i : Fin n) :
    owes (s.jobs i).pc ≤ s.shared.queue.unfinishedTasks := by
  have := Finset.single_le_sum (f := fun i => owes (s.jobs i).pc) (fun _ _ => Nat.zero_le _)
    (Finset.mem_univ i)
  rw [hc]
  exact le_add_left this

theorem counted_start (q : InitialQueue τ) : Counted (start n q) := by
  simp [Counted, start, Queue.ofList, owes]

theorem covered_start (hn : 0 < n ∨ q.elems = []) : Covered (start n q) := by
  rintro - hq
  exact ⟨⟨0, hn.resolve_right hq⟩, .inr ⟨rfl, rfl⟩⟩

/-- When all threads have returned, only the queue itself can hold unfinished tasks. -/
theorem Counted.of_allReturned (hc : Counted s) (hr : AllReturned s) :
    s.shared.queue.unfinishedTasks = s.shared.queue.items.length := by
  have : ∀ i, owes (s.jobs i).pc = 0 := fun i => by rw [hr i]; rfl
  simpa only [Counted, this, Finset.sum_const_zero, Nat.add_zero] using hc

/-- When all threads have returned, a covered queue is empty. -/
theorem Covered.of_allReturned (hv : Covered s) (hr : AllReturned s)
    (hu : s.shared.userInterrupted = false) : s.shared.queue.items = [] := by
  by_contra hq
  obtain ⟨i, ht⟩ := hv hu hq
  rw [hr i] at ht
  simp [Takes, draining, inLoop] at ht

end Invariants

section Runs

variable [Add τ] [LE τ] [DecidableLE τ] {cfg : Config n τ} {q : InitialQueue τ}
  {s s' : State n τ} {a : Act n τ}

theorem Counted.step (hc : Counted s) (h : step cfg s a = some s') : Counted s' := by
  obtain ⟨i, o, g', j', -, rfl, hj⟩ | ⟨-, rfl⟩ := step_cases h
  · have hq := hj.counted (hc.owes_le i)
    have hsum := sum_threads_update s.jobs (fun j => owes j.pc) i j'
    simp only [Counted] at hc ⊢
    omega
  · exact hc

theorem Covered.step (hv : Covered s) (hc : Counted s) (hp : PutCovered s a)
    (h : step cfg s a = some s') : Covered s' := by
  obtain ⟨i, o, g', j', rfl, rfl, hj⟩ | ⟨-, rfl⟩ := step_cases h
  · intro hu hq
    rw [hj.userInterrupted] at hu
    have here : Takes g' j'.pc → ∃ t, Takes g' (Function.update s.jobs i j' t).pc :=
      fun ht => ⟨i, by rwa [Function.update_self]⟩
    -- a thread other than `i` keeps its place, and the flag can only change if `i` drains
    have keep : ∀ t, t ≠ i → Takes s.shared (s.jobs t).pc →
        ∃ t, Takes g' (Function.update s.jobs i j' t).pc := by
      intro t hti ht
      obtain hf | hd := hj.flag
      · exact ⟨t, by rwa [Function.update_of_ne hti, Takes, hf]⟩
      · exact here (.inl hd)
    by_cases hq0 : s.shared.queue.items = []
    · obtain hq' | ⟨hput, hl, hf⟩ := hj.items_of_empty hq0
      · exact absurd hq' hq
      · obtain h0 | ⟨t, ht⟩ := hp hput
        · exact here (.inr ⟨hf.trans h0, hl⟩)
        · refine keep t ?_ (.inl ht)
          rintro rfl
          cases hpc : (s.jobs t).pc <;> simp_all [putting, draining]
    · obtain ⟨t, ht⟩ := hv hu hq0
      by_cases hti : t = i
      · subst hti
        obtain hq' | ht' := hj.takes (hc.owes_le t) ht
        · exact absurd hq' hq
        · exact here ht'
      · exact keep t hti ht
  · intro hu
    cases hu

theorem counted_of_reach {ok : State n τ → Act n τ → Prop}
    (h : Reach (step cfg) ok (· = start n q) s) : Counted s := by
  refine h.inv ?_ fun s a s' hc _ hs => hc.step hs
  rintro s rfl
  exact counted_start q

theorem covered_of_reach (hn : 0 < n ∨ q.elems = [])
    (h : Reach (step cfg) PutCovered (· = start n q) s) : Covered s := by
  refine h.inv_of (J := Counted) (fun _ => counted_of_reach) ?_
    fun s a s' hc _ hv hp hs => hv.step hc hp hs
  rintro s rfl
  exact covered_start hn

/-- **The suite does not hang.** If every `put` finds the interrupt flag unset or a thread that is
still draining, then once every `Job.__call__` has returned (and the user has not interrupted the
wait) the count of unfinished tasks is zero and `join` returns. -/
theorem join_of_allReturned (hn : 0 < n ∨ q.elems = [])
    (h : Reach (step cfg) PutCovered (· = start n q) s) (hr : AllReturned s)
    (hu : s.shared.userInterrupted = false) :
    s.shared.queue.unfinishedTasks = 0 ∧ s.shared.queue.join = true := by
  have hq : s.shared.queue.unfinishedTasks = 0 := by
    rw [(counted_of_reach h).of_allReturned hr, (covered_of_reach hn h).of_allReturned hr hu]
    rfl
  exact ⟨hq, (Queue.join_iff _).mpr hq⟩

end Runs

/-! ## Two schedules -/

/-- Two jobs without fixtures or hooks; tests repeat until they have run for five seconds. -/
def twoJobs : Config 2 ℕ where
  options := ⟨true, none, none, some 5⟩
  hasSetupFlag := false
  hasTeardownFlag := false
  numHooks _ := 0
  checkIfFixtureRunning _ := false

/-- Job `0` runs a test and decides to requeue it, up to the `put`. -/
def upToPut : List (Act 2 ℕ) :=
  [.job 0 .tick, .job 0 .tick, .job 0 .tick, .job 0 .tick, .job 0 .tick,
    .job 0 (.executed .healthy), .job 0 (.elapsed 1), .job 0 .succeeds, .job 0 .tick]

/-- Job `1` runs a test that fails, sets the flag, finds nothing to drain and returns. -/
def failAndDrain : List (Act 2 ℕ) :=
  [.job 1 .tick, .job 1 .tick, .job 1 .tick, .job 1 .tick, .job 1 .tick,
    .job 1 (.executed { TestOutcome.healthy with passed := false }), .job 1 (.elapsed 1),
    .job 1 .tick, .job 1 .tick, .job 1 .tick]

/-- The same when there is one element to drain. -/
def failAndDrainOne : List (Act 2 ℕ) := failAndDrain ++ [.job 1 .tick, .job 1 .tick, .job 1 .tick]

/-- Job `0` puts the element back, sees the flag, and returns. -/
def putAndReturn : List (Act 2 ℕ) :=
  [.job 0 .tick, .job 0 .tick, .job 0 .tick, .job 0 .tick, .job 0 .tick]

/-- The element that job `0` puts back is drained by job `1`. -/
theorem put_before_drain_joins :
    ∃ s, Reach (step twoJobs) PutCovered (· = start 2 (makeTestQueue 1 2 twoJobs.options)) s ∧
      AllReturned s ∧ s.shared.queue.unfinishedTasks = 0 ∧ s.shared.queue.join = true := by
  have hrun : ∃ s,
      Reach (step twoJobs) PutCovered (· = start 2 (makeTestQueue 1 2 twoJobs.options)) s ∧
        AllReturned s ∧ s.shared.userInterrupted = false :=
    Reach.exists_of_run (.start rfl) (List.flatten [upToPut, [.job 0 .tick], failAndDrainOne,
      [.job 0 .tick, .job 0 .tick, .job 0 .tick]]) (by decide)
  obtain ⟨s, h, hr, hu⟩ := hrun
  exact ⟨s, h, hr, join_of_allReturned (.inl (by decide)) h hr hu⟩

/-- **A `put` that lands after another job's drain leaves a task nobody will finish.** -/
theorem put_after_drain_hangs :
    ∃ s, Reach (step twoJobs) Free (· = start 2 (makeTestQueue 1 2 twoJobs.options)) s ∧
      AllReturned s ∧ s.shared.userInterrupted = false ∧
      s.shared.queue.unfinishedTasks = 1 ∧ s.shared.queue.join = false := by
  exact Reach.exists_of_run (.start rfl) (upToPut ++ failAndDrain ++ putAndReturn) (by decide)

end MongoTests.Resmoke.Job
