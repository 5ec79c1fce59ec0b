import MongoTests.Resmoke.JobDrain

/-!
# A healthy run loses no test

What a run does in which every fixture, hook and test succeeds and the user does not interrupt.

* `Healthy`: such a step, and `get_nowait()` in the loop of `_run` is only called on a queue that
  is not empty.
* `AtMostOnce`: an element is in at most one place, the queue or the hands of one thread.
* `Located`: every element of the initial queue is in the queue, in the hands of a thread, or done.
* **`healthy_run_complete`**: every element ran until `should_requeue()` was false, the flag was
  never set, and `after_suite` ran on every hook of every job.
* `pop_race_loses_tests`: two jobs that race for the last element break all of this.
-/

namespace MongoTests.Resmoke.Job

open MongoTests.Lib

variable {n : ℕ} {τ : Type*}

/-- Nothing fails. -/
def Outcome.healthy : Outcome τ → Bool
  | .tick => true
  | .succeeds => true
  | .fails => false
  | .executed o => o == .healthy
  | .elapsed _ => true

/-- A step in which nothing fails and the user does not interrupt. -/
def Succeeds : Act n τ → Prop
  | .job _ o => o.healthy = true
  | .userInterrupt => False

instance (a : Act n τ) : Decidable (Succeeds a) :=
  match a with
  | .job _ o => inferInstanceAs (Decidable (o.healthy = true))
  | .userInterrupt => inferInstanceAs (Decidable False)

/-- The thread is about to call `queue.get_nowait()` in the loop of `_run`. -/
def popping : Pc τ → Bool
  | .getNowait => true
  | _ => false

/-- The step does not lose the race between `queue.empty()` and `queue.get_nowait()`. -/
def WinsPop (s : State n τ) : Act n τ → Prop
  | .job i _ => popping (s.jobs i).pc = true → s.shared.queue.items ≠ []
  | .userInterrupt => True

instance [DecidableEq τ] (s : State n τ) (a : Act n τ) : Decidable (WinsPop s a) :=
  match a with
  | .job i _ =>
    inferInstanceAs (Decidable (popping (s.jobs i).pc = true → s.shared.queue.items ≠ []))
  | .userInterrupt => inferInstanceAs (Decidable True)

/-- A step of a healthy run that loses no race for the head of the queue. -/
def Healthy (s : State n τ) (a : Act n τ) : Prop := Succeeds a ∧ WinsPop s a

instance [DecidableEq τ] (s : State n τ) (a : Act n τ) : Decidable (Healthy s a) :=
  inferInstanceAs (Decidable (_ ∧ _))

/-! ## The positions of a healthy run -/

/-- Where a thread can be when nothing has failed, with the number of `after_suite` calls made. -/
def PcHealthy (numHooks k : ℕ) : Pc τ → Prop
  | .interrupt => False
  | .drainEmpty => False
  | .drainGet => False
  | .drainTaskDone => False
  | .taskDone _ raised => raised = false ∧ k = 0
  | .afterSuite m => k = m ∧ m ≤ numHooks
  | .teardown => k = numHooks
  | .returned => k = numHooks
  | _ => k = 0

/-- Nothing has gone wrong: the flag is unset and every thread is at a healthy position. -/
structure AllHealthy (cfg : Config n τ) (s : State n τ) : Prop where
  flag : s.shared.interruptFlag = false
  user : s.shared.userInterrupted = false
  pcs : ∀ i, PcHealthy (cfg.numHooks i) (s.jobs i).afterSuiteRan (s.jobs i).pc

/-! ## Where the elements are -/

/-- The times that the executions of element `x` took. -/
def timesOf (x : ℕ) (h : List (ℕ × τ)) : List τ :=
  h.filterMap fun p => if p.1 = x then some p.2 else none

/-- The element that a thread has taken and neither finished nor put back. -/
def held : Pc τ → Option (QueueElem τ)
  | .execute e => some e
  | .taskDone e _ => some e
  | .requeue e => some e
  | .requeueIsSet e => some e
  | .put e => some e
  | _ => none

/-- Whether a thread has taken element `x`, as a number. -/
def holds (x : ℕ) (pc : Pc τ) : ℕ := ((held pc).toList.map QueueElem.ident).count x

/-- How often element `x` is in the queue. -/
def queued (x : ℕ) (g : Shared τ) : ℕ := (g.queue.items.map QueueElem.ident).count x

/-- In how many places element `x` is. -/
def places (x : ℕ) (s : State n τ) : ℕ := queued x s.shared + ∑ i, holds x (s.jobs i).pc

/-- No element is in two places. -/
def AtMostOnce (s : State n τ) : Prop := ∀ x, places x s ≤ 1

section Places

variable {s : State n τ} {g : Shared τ} {pc : Pc τ} {x : ℕ}

theorem timesOf_concat_self (h : List (ℕ × τ)) (t : τ) :
    timesOf x (h ++ [(x, t)]) = timesOf x h ++ [t] := by
  simp [timesOf]

theorem timesOf_concat_ne {y : ℕ} (hy : y ≠ x) (h : List (ℕ × τ)) (t : τ) :
    timesOf x (h ++ [(y, t)]) = timesOf x h := by
  simp [timesOf, hy]

theorem holds_of_held {e : QueueElem τ} (h : held pc = some e) : 0 < holds e.ident pc := by
  simp [holds, h]

theorem queued_pos {e : QueueElem τ} (h : e ∈ g.queue.items) : 0 < queued e.ident g :=
  List.count_pos_iff.mpr (List.mem_map_of_mem h)

/-- When thread `i` moves, the places change by the queue and by what `i` has taken. -/
theorem places_update (s : State n τ) (x : ℕ) (g' : Shared τ) (i : Fin n) (j' : JobState τ) :
    places x ⟨g', Function.update s.jobs i j'⟩ + (queued x s.shared + holds x (s.jobs i).pc) =
      places x s + (queued x g' + holds x j'.pc) := by
  have hsum := sum_threads_update s.jobs (fun j => holds x j.pc) i j'
  simp only [places]
  omega

theorem holds_le_places (s : State n τ) (x : ℕ) (i : Fin n) :
    queued x s.shared + holds x (s.jobs i).pc ≤ places x s :=
  Nat.add_le_add_left (Finset.single_le_sum (f := fun i => holds x (s.jobs i).pc)
    (fun _ _ => Nat.zero_le _) (Finset.mem_univ i)) _

/-- If one thread has taken `x` then another has not. -/
theorem AtMostOnce.holds_other (ha : AtMostOnce s) {i j : Fin n} (hij : i ≠ j)
    (hj : 0 < holds x (s.jobs j).pc) : holds x (s.jobs i).pc = 0 := by
  have hle : holds x (s.jobs i).pc + holds x (s.jobs j).pc ≤ ∑ i, holds x (s.jobs i).pc :=
    Finset.add_le_sum (f := fun i => holds x (s.jobs i).pc) (fun _ _ => Nat.zero_le _)
      (Finset.mem_univ i) (Finset.mem_univ j) hij
  have := ha x
  simp only [places] at this
  omega

theorem AtMostOnce.holds_queued (ha : AtMostOnce s) (hq : 0 < queued x s.shared) (i : Fin n) :
    holds x (s.jobs i).pc = 0 := by
  have := holds_le_places s x i
  have := ha x
  omega

theorem allHealthy_start (cfg : Config n τ) (q : InitialQueue τ) : AllHealthy cfg (start n q) :=
  ⟨rfl, rfl, fun _ => rfl⟩

theorem atMostOnce_start (q : InitialQueue τ) : AtMostOnce (start n q) := by
  intro x
  have hq : queued x (start n q).shared ≤ 1 := List.nodup_iff_count_le_one.mp q.distinct x
  simpa [places, start, holds, held] using hq

end Places

variable [Add τ] [LE τ] [DecidableLE τ]

/-- `e` is `e₀` after the executions in `h`, each of them but the last followed by a requeue. -/
def IsAfter (h : List (ℕ × τ)) (e₀ e : QueueElem τ) : Prop :=
  e = e₀.after (timesOf e₀.ident h) ∧ e₀.Chain (timesOf e₀.ident h)

/-- `e` is `e₀` so far, and it is to be executed (again). -/
def Ready (h : List (ℕ × τ)) (e₀ e : QueueElem τ) : Prop :=
  IsAfter h e₀ e ∧ (timesOf e₀.ident h ≠ [] → e.shouldRequeue = true)

/-- What a thread knows of the element that it has taken. -/
def InHands (h : List (ℕ × τ)) (e₀ : QueueElem τ) : Pc τ → Prop
  | .execute e => Ready h e₀ e
  | .taskDone e _ => Ready h e₀ e
  | .requeue e => IsAfter h e₀ e ∧ timesOf e₀.ident h ≠ []
  | .requeueIsSet e => Ready h e₀ e
  | .put e => Ready h e₀ e
  | _ => False

/-- Element `e₀` is in the queue, in the hands of a thread, or done and nowhere. -/
def Located (s : State n τ) (e₀ : QueueElem τ) : Prop :=
  (∃ e ∈ s.shared.queue.items, Ready s.shared.history e₀ e) ∨
  (∃ i, InHands s.shared.history e₀ (s.jobs i).pc) ∨
  (e₀.RunUntilDone (timesOf e₀.ident s.shared.history) ∧ places e₀.ident s = 0)

theorem IsAfter.ident {h : List (ℕ × τ)} {e₀ e : QueueElem τ} (he : IsAfter h e₀ e) :
    e.ident = e₀.ident := by
  rw [he.1, QueueElem.ident_after]

theorem InHands.holds_pos {h : List (ℕ × τ)} {e₀ : QueueElem τ} {pc : Pc τ}
    (hh : InHands h e₀ pc) : 0 < holds e₀.ident pc := by
  have key : ∃ e, held pc = some e ∧ e.ident = e₀.ident := by
    cases pc <;> first | exact hh.elim | exact ⟨_, rfl, hh.1.ident⟩
  obtain ⟨e, he, hi⟩ := key
  exact hi ▸ holds_of_held he

/-! ## What a healthy step does -/

section Transitions

variable {cfg : Config n τ} {i : Fin n} {g g' : Shared τ} {k k' x : ℕ} {pc pc' : Pc τ}
  {o : Outcome τ} {e e₀ : QueueElem τ}

/-- A healthy step keeps the thread healthy and the flag unset. -/
theorem JobStep.pcHealthy (h : JobStep cfg i g k pc o g' pc' k') (ho : o.healthy = true)
    (hw : popping pc = true → g.queue.items ≠ []) (hd : owes pc ≤ g.queue.unfinishedTasks)
    (hf : g.interruptFlag = false) (hp : PcHealthy (cfg.numHooks i) k pc) :
    PcHealthy (cfg.numHooks i) k' pc' ∧ g'.interruptFlag = false := by
  cases h with
  | popRace hq => exact absurd (Queue.getNowait_eq_none.mp hq) (hw rfl)
  | doneTooMany hq =>
    rw [Queue.taskDone_eq_none] at hq
    simp [owes, hq] at hd
  | ran =>
    simp only [Outcome.healthy, beq_iff_eq] at ho
    subst ho
    exact ⟨⟨executeTest_healthy _ _, hp⟩, hf⟩
  | leaveRun hm =>
    obtain ⟨rfl, hle⟩ := hp
    exact ⟨le_antisymm hle hm, hf⟩
  | hookAfter hm =>
    obtain ⟨rfl, -⟩ := hp
    exact ⟨⟨rfl, hm⟩, hf⟩
  | _ => simp_all [PcHealthy, Outcome.healthy]

/-- The queue and the thread together never gain an element. -/
theorem JobStep.places_le (h : JobStep cfg i g k pc o g' pc' k') :
    queued x g' + holds x pc' ≤ queued x g + holds x pc := by
  cases h with
  | drainPop hq | pop hq =>
    simp [queued, holds, held, (Queue.getNowait_eq_some.mp hq).1, List.count_cons]
  | drainDone hq | doneRaised hq | done hq =>
    simp [queued, holds, held, (Queue.taskDone_eq_some.mp hq).1]
  | putBack => simp [queued, holds, held, Queue.put]
  | _ => simp [queued, holds, held]

/-- An element stays in the queue until the thread takes it to execute it. -/
theorem JobStep.mem_items (h : JobStep cfg i g k pc o g' pc' k') {m : ℕ}
    (hp : PcHealthy m k pc) (he : e ∈ g.queue.items) :
    e ∈ g'.queue.items ∨ pc' = .execute e := by
  cases h with
  | pop hq =>
    rw [(Queue.getNowait_eq_some.mp hq).1, List.mem_cons] at he
    exact he.symm.imp_right (by rintro rfl; rfl)
  | drainPop hq => exact hp.elim
  | drainDone hq | doneRaised hq | done hq =>
    exact .inl ((Queue.taskDone_eq_some.mp hq).1 ▸ he)
  | putBack => exact .inl (List.mem_append_left _ he)
  | _ => exact .inl he

/-- A step records no execution of an element that its thread has not taken. -/
theorem JobStep.timesOf_eq (h : JobStep cfg i g k pc o g' pc' k') (hx : holds x pc = 0) :
    timesOf x g'.history = timesOf x g.history := by
  cases h with
  | doneTooMany | doneRaised | done =>
    refine timesOf_concat_ne ?_ _ _
    rintro rfl
    exact absurd hx (holds_of_held rfl).ne'
  | _ => rfl

/-- What becomes of the element that the thread has taken. -/
theorem JobStep.inHands (h : JobStep cfg i g k pc o g' pc' k') {m : ℕ} (hp : PcHealthy m k pc)
    (hf : g.interruptFlag = false) (ho : o.healthy = true)
    (hd : owes pc ≤ g.queue.unfinishedTasks) (hh : InHands g.history e₀ pc) :
    (∃ e ∈ g'.queue.items, Ready g'.history e₀ e) ∨ InHands g'.history e₀ pc' ∨
      (e₀.RunUntilDone (timesOf e₀.ident g'.history) ∧
        queued e₀.ident g' + holds e₀.ident pc' < queued e₀.ident g + holds e₀.ident pc) := by
  have hpos := hh.holds_pos
  cases h with
  | ran => exact .inr (.inl hh)
  | done hq =>
    -- the one step that records an execution
    obtain ⟨⟨rfl, hc⟩, hr⟩ := hh
    refine .inr (.inl ?_)
    simp only [InHands, IsAfter, QueueElem.ident_after, timesOf_concat_self,
      QueueElem.after_concat, true_and]
    exact ⟨hc.concat hr _, by simp⟩
  | finished hr =>
    obtain ⟨⟨rfl, hc⟩, hne⟩ := hh
    refine .inr (.inr ⟨⟨hne, hr, hc⟩, ?_⟩)
    have : holds e₀.ident (.loopEmpty : Pc τ) = 0 := rfl
    omega
  | again hr => exact .inr (.inl ⟨hh.1, fun _ => hr⟩)
  | mayPut => exact .inr (.inl hh)
  | putBack => exact .inl ⟨_, List.mem_append_right _ (List.mem_singleton_self _), hh⟩
  | doneTooMany hq =>
    rw [Queue.taskDone_eq_none] at hq
    simp [owes, hq] at hd
  | doneRaised => cases hp.1
  | dropped hs => simp [hf] at hs
  | againFails => cases ho
  | _ => exact hh.elim

end Transitions

/-! ## Invariants -/

section Invariants

variable {cfg : Config n τ} {q : InitialQueue τ} {s s' : State n τ} {a : Act n τ}

/-- What holds in every state of a healthy run. -/
structure HealthyInv (cfg : Config n τ) (q : InitialQueue τ) (s : State n τ) : Prop where
  counted : Counted s
  covered : Covered s
  healthy : AllHealthy cfg s
  once : AtMostOnce s
  located : ∀ e₀ ∈ q.elems, Located s e₀

theorem located_start {e₀ : QueueElem τ} (he : e₀ ∈ q.elems) : Located (start n q) e₀ :=
  .inl ⟨e₀, he, ⟨rfl, QueueElem.chain_nil e₀⟩, fun h => absurd rfl h⟩

theorem AllHealthy.step (hc : Counted s) (hh : AllHealthy cfg s) (hok : Healthy s a)
    (h : step cfg s a = some s') : AllHealthy cfg s' := by
  obtain ⟨i, o, g', j', rfl, rfl, hj⟩ | ⟨rfl, -⟩ := step_cases h
  · obtain ⟨hp, hf⟩ := hj.pcHealthy hok.1 hok.2 (hc.owes_le i) hh.flag (hh.pcs i)
    refine ⟨hf, hj.userInterrupted.trans hh.user, fun t => ?_⟩
    by_cases ht : t = i
    · subst ht
      simpa using hp
    · simpa [Function.update_of_ne ht] using hh.pcs t
  · exact hok.1.elim

theorem AtMostOnce.step (ha : AtMostOnce s) (h : step cfg s a = some s') : AtMostOnce s' := by
  obtain ⟨i, o, g', j', -, rfl, hj⟩ | ⟨-, rfl⟩ := step_cases h
  · intro x
    have hle := hj.places_le (x := x)
    have hupd := places_update s x g' i j'
    have := ha x
    omega
  · exact ha

theorem Located.step {e₀ : QueueElem τ} (hc : Counted s) (hh : AllHealthy cfg s)
    (ha : AtMostOnce s) (hl : Located s e₀) (hok : Healthy s a) (h : step cfg s a = some s') :
    Located s' e₀ := by
  obtain ⟨i, o, g', j', rfl, rfl, hj⟩ | ⟨rfl, -⟩ := step_cases h
  swap
  · exact hok.1.elim
  have hle := hj.places_le (x := e₀.ident)
  have hupd := places_update s e₀.ident g' i j'
  have here : InHands g'.history e₀ j'.pc →
      Located ⟨g', Function.update s.jobs i j'⟩ e₀ :=
    fun hi => .inr (.inl ⟨i, by simpa using hi⟩)
  obtain ⟨e, he, hr⟩ | ⟨t, ht⟩ | ⟨hdone, hz⟩ := hl
  · -- in the queue: it stays there or thread `i` takes it
    have hq : 0 < queued e₀.ident s.shared := hr.1.ident ▸ queued_pos he
    have hts := hj.timesOf_eq (ha.holds_queued hq i)
    have hr' : Ready g'.history e₀ e := by rwa [Ready, IsAfter, hts]
    obtain he' | hpc := hj.mem_items (hh.pcs i) he
    · exact .inl ⟨e, he', hr'⟩
    · exact here (by rwa [hpc])
  · by_cases hti : t = i
    · -- in the hands of the thread that moves
      subst hti
      obtain hq | hi | ⟨hdone, hlt⟩ :=
        hj.inHands (hh.pcs t) hh.flag hok.1 (hc.owes_le t) ht
      · exact .inl hq
      · exact here hi
      · refine .inr (.inr ⟨hdone, ?_⟩)
        have := ha e₀.ident
        omega
    · have hts := hj.timesOf_eq (ha.holds_other (Ne.symm hti) ht.holds_pos)
      refine .inr (.inl ⟨t, ?_⟩)
      simp only [Function.update_of_ne hti]
      revert ht
      cases (s.jobs t).pc <;> simp [InHands, Ready, IsAfter, hts]
  · have hz' := holds_le_places s e₀.ident i
    have hts := hj.timesOf_eq (x := e₀.ident) (by omega)
    refine .inr (.inr ⟨by simpa only [hts] using hdone, by omega⟩)

/-- The run lemma of healthy runs. -/
theorem healthyInv_of_reach (hn : 0 < n) (h : Reach (step cfg) Healthy (· = start n q) s) :
    HealthyInv cfg q s := by
  refine h.inv ?_ ?_
  · rintro s rfl
    exact ⟨counted_start q, covered_start (.inl hn), allHealthy_start cfg q, atMostOnce_start q,
      fun _ he => located_start he⟩
  · intro s a s' hi hok hs
    have hput : PutCovered s a := by
      cases a with
      | job i o => exact fun _ => .inl hi.healthy.flag
      | userInterrupt => trivial
    exact ⟨hi.counted.step hs, hi.covered.step hi.counted hput hs,
      hi.healthy.step hi.counted hok hs, hi.once.step hs,
      fun e₀ he => (hi.located e₀ he).step hi.counted hi.healthy hi.once hok hs⟩

/-- **A healthy run loses no test.** If no thread calls `get_nowait()` on a queue that another has
emptied since its own test of `empty()`, then the interrupt flag is never set, and once every
`Job.__call__` has returned every element has been executed until its `should_requeue()` became
false, and every job has run `after_suite` on each of its hooks. -/
theorem healthy_run_complete (hn : 0 < n) (h : Reach (step cfg) Healthy (· = start n q) s) :
    s.shared.interruptFlag = false ∧
      (AllReturned s →
        (∀ e ∈ q.elems, e.RunUntilDone (timesOf e.ident s.shared.history)) ∧
        ∀ i, (s.jobs i).afterSuiteRan = cfg.numHooks i) := by
  have hi := healthyInv_of_reach hn h
  refine ⟨hi.healthy.flag, fun hr => ⟨fun e he => ?_, fun i => ?_⟩⟩
  · obtain ⟨e', he', -⟩ | ⟨i, hin⟩ | ⟨hdone, -⟩ := hi.located e he
    · rw [hi.covered.of_allReturned hr hi.healthy.user] at he'
      cases he'
    · rw [hr i] at hin
      exact hin.elim
    · exact hdone
  · have := hi.healthy.pcs i
    rwa [hr i] at this

end Invariants

/-! ## Two schedules -/

/-- Two jobs with one hook each; tests repeat until they have run for five seconds. -/
def hookedJobs : Config 2 ℕ := { twoJobs with numHooks := fun _ => 1 }

/-- Job `i` runs `before_suite`. -/
def enter (i : Fin 2) : List (Act 2 ℕ) := [.job i .tick, .job i .succeeds, .job i .tick]

/-- Job `i` finds the queue nonempty and the flag unset. -/
def look (i : Fin 2) : List (Act 2 ℕ) := [.job i .tick, .job i .tick]

/-- Job `i` takes an element and executes it for `t` seconds. -/
def execute (i : Fin 2) (t : ℕ) : List (Act 2 ℕ) :=
  [.job i .tick, .job i (.executed .healthy), .job i (.elapsed t)]

/-- Job `i` puts the element back. -/
def putBack (i : Fin 2) : List (Act 2 ℕ) := [.job i .succeeds, .job i .tick, .job i .tick]

/-- Job `i` finds the queue empty, runs `after_suite` and returns. -/
def leave (i : Fin 2) : List (Act 2 ℕ) :=
  [.job i .tick, .job i .succeeds, .job i .tick, .job i .tick]

/-- Two tests, one of which runs twice. -/
theorem healthy_run_of_two :
    ∃ s, Reach (step hookedJobs) Healthy (· = start 2 (makeTestQueue 1 2 twoJobs.options)) s ∧
      AllReturned s ∧ s.shared.interruptFlag = false ∧
      (∀ e ∈ (makeTestQueue 1 2 twoJobs.options).elems,
        e.RunUntilDone (timesOf e.ident s.shared.history)) ∧
      ∀ i, (s.jobs i).afterSuiteRan = 1 := by
  have hrun : ∃ s,
      Reach (step hookedJobs) Healthy (· = start 2 (makeTestQueue 1 2 twoJobs.options)) s ∧
        AllReturned s :=
    Reach.exists_of_run (.start rfl) (List.flatten [enter 0, enter 1, look 0, execute 0 3,
      putBack 0, look 1, execute 1 6, [.job 1 .tick], look 1, execute 1 2, [.job 1 .tick],
      leave 0, leave 1]) (by decide)
  obtain ⟨s, h, hr⟩ := hrun
  obtain ⟨hf, hall⟩ := healthy_run_complete (by decide) h
  exact ⟨s, h, hr, hf, hall hr⟩

/-- **Two jobs race for the last element.** Nothing fails, but the loser's `Empty` exception sets
the flag, the winner does not requeue its test, and the loser runs no `after_suite`. -/
theorem pop_race_loses_tests :
    ∃ s, Reach (step hookedJobs) (fun _ a => Succeeds a)
        (· = start 2 (makeTestQueue 1 2 twoJobs.options)) s ∧
      AllReturned s ∧ s.shared.interruptFlag = true ∧
      ¬ (∀ e ∈ (makeTestQueue 1 2 twoJobs.options).elems,
        e.RunUntilDone (timesOf e.ident s.shared.history)) ∧
      (s.jobs 0).afterSuiteRan = 0 := by
  have hrun : ∃ s, Reach (step hookedJobs) (fun _ a => Succeeds a)
        (· = start 2 (makeTestQueue 1 2 twoJobs.options)) s ∧
      AllReturned s ∧ s.shared.interruptFlag = true ∧
      (∃ e ∈ (makeTestQueue 1 2 twoJobs.options).elems,
        (e.after (timesOf e.ident s.shared.history)).shouldRequeue = true) ∧
      (s.jobs 0).afterSuiteRan = 0 :=
    Reach.exists_of_run (.start rfl) (List.flatten [enter 0, enter 1, look 0, execute 0 6,
      [.job 0 .tick], look 0, look 1, execute 1 1,
      -- job 0 loses the race, sets the flag, finds nothing to drain and returns
      [.job 0 .tick, .job 0 .tick, .job 0 .tick, .job 0 .tick],
      [.job 1 .succeeds, .job 1 .tick], leave 1]) (by decide)
  obtain ⟨s, h, hr, hf, ⟨e, he, hq⟩, ha⟩ := hrun
  refine ⟨s, h, hr, hf, fun hall => ?_, ha⟩
  obtain ⟨-, hdone, -⟩ := hall e he
  simp [hdone] at hq

end MongoTests.Resmoke.Job
