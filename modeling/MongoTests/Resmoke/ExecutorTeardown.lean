import MongoTests.Resmoke.Executor

/-!
# Tearing the fixtures down

In the last repetition the job threads tear their fixtures down, before that the main thread does
it in the `finally` clause of `TestSuiteExecutor.run`. Whether every fixture that was set up is
covered by one of the two when a user interrupts the executor.

* `Settled`, `Registered`: the jobs whose threads need not be waited for, and those that will be.
* `Harmless`: the interrupts and exceptions after which no fixture is forgotten.
* **`fixtures_torn_down`**: in a run with harmless interrupts only, `teardown_fixture` has been
  called for every job whose fixture was set up.
* `interrupt_forgets_fixture`: an interrupt while the last repetition starts its threads.
-/

namespace MongoTests.Resmoke.Executor

open MongoTests.Lib

variable {n : ℕ} {τ : Type*}

/-! ## Harmless interrupts -/

/-- The thread of job `i` has returned, or it has not been started and the fixture is not set up:
this is the repetition that sets the fixtures up. -/
def JobSettled (s : State n τ) (i : Fin n) : Prop :=
  (s.job.jobs i).pc = .returned ∨ (s.started ≤ i.val ∧ s.threadSetupFlag = true)

def Settled (s : State n τ) : Prop := ∀ i, JobSettled s i

/-- Every thread is either in the list of threads to be joined or needs no waiting. -/
def Registered (s : State n τ) : Prop := ∀ i : Fin n, i.val < s.registered ∨ JobSettled s i

/-- The points of `_run_tests` where an interrupt is not caught. -/
def Pc.exposed : Pc → Bool
  | .entered | .caught | .joining _ => true
  | _ => false

/-- The job whose fixture `_teardown_fixtures` is tearing down. -/
def Pc.tearingJob : Pc → ℕ
  | .tearing k _ _ => k
  | _ => 0

/-- While there is a `teardown_flag`, an interrupt that is caught arrives when the threads are all
registered, and one that is not caught when they are all settled. An exception ends
`_teardown_fixtures` only when none of the later jobs has set its fixture up. -/
def Harmless (s : State n τ) : Act n τ → Prop
  | .interrupt => s.hasTeardownFlag = true →
      (s.pc.catches = true → Registered s) ∧ (s.pc.exposed = true → Settled s)
  | .teardown none => ∀ i : Fin n, s.pc.tearingJob < i.val → s.setup i = none
  | _ => True

/-- `teardown_fixture` has been attempted wherever `setup_fixture` has. -/
def AllTornDown (s : State n τ) : Prop := ∀ i, s.setup i ≠ none → s.teardown i ≠ none

section Decidable

variable [DecidableEq τ] (s : State n τ)

instance (i : Fin n) : Decidable (JobSettled s i) :=
  inferInstanceAs (Decidable ((s.job.jobs i).pc = .returned ∨ _ ∧ _))

instance : Decidable (Settled s) := inferInstanceAs (Decidable (∀ i, JobSettled s i))

instance : Decidable (Registered s) :=
  inferInstanceAs (Decidable (∀ i : Fin n, i.val < s.registered ∨ JobSettled s i))

instance (a : Act n τ) : Decidable (Harmless s a) :=
  match a with
  | .interrupt => inferInstanceAs (Decidable (_ → (_ → Registered s) ∧ (_ → Settled s)))
  | .teardown none => inferInstanceAs (Decidable (∀ i : Fin n, _ < i.val → s.setup i = none))
  | .teardown (some _) | .tick | .report _ _ | .job _ _ => inferInstanceAs (Decidable True)

end Decidable

/-! ## The invariant -/

/-- Who will tear the fixtures down, at each point of `run`. -/
def Guarded (s : State n τ) : Prop :=
  match s.pc with
  | .loop | .ended _ => s.hasTeardownFlag = true → Settled s
  | .caught | .joining _ => s.hasTeardownFlag = true → Registered s
  | .tearing k _ _ => s.hasTeardownFlag = false ∧ ∀ i : Fin n, i.val < k → s.teardown i ≠ none
  | .done _ => AllTornDown s
  | .entered | .starting | .append | .waiting => True

section Main

variable {cfg : Config n τ} {s s' : State n τ} {a : Act n τ}

/-- A settled job has torn its fixture down or never set it up. -/
theorem Threads.allTornDown (h : Threads s) (hf : s.hasTeardownFlag = true) (hs : Settled s) :
    AllTornDown s := by
  intro i hi
  obtain hr | ⟨hst, hflag⟩ := hs i
  · obtain ht | ⟨ht, -⟩ := h.teardown hf i hr <;> simp [ht]
  · exact absurd (h.fresh hflag i (h.idle i hst)) hi

theorem Guarded.leaveTry (h : Threads s) (hs : s.hasTeardownFlag = true → Settled s) (b : Bool) :
    Guarded (s.leaveTry b) := by
  unfold State.leaveTry
  split_ifs with hf
  · exact h.allTornDown hf (hs hf)
  · exact ⟨Bool.eq_false_iff.mpr hf, fun i hi => absurd hi (Nat.not_lt_zero _)⟩

theorem Guarded.endStep {b w : Bool} {r : ℕ} (h : Threads s)
    (hs : s.hasTeardownFlag = true → Settled s) (he : EndStep cfg s b w r s') : Guarded s' := by
  cases he with
  | next => exact hs
  | _ =>
    apply Guarded.leaveTry
    · exact h.congr rfl rfl rfl rfl le_rfl rfl rfl fun hf => ⟨hf, rfl⟩
    · exact hs

variable [Zero τ] [DecidableEq τ]

/-- **The main thread keeps the invariant**, under harmless interrupts. -/
theorem Guarded.mainStep (hg : Guarded s) (h : Threads s) (hp : Phase cfg s) (hok : Harmless s a)
    (hs : MainStep cfg s a s') : Guarded s' := by
  cases hs with
  | finish hpc =>
    rw [Guarded, hpc] at hg
    exact .leaveTry h hg false
  | enter | enterTry | startThread | allStarted | register => trivial
  | queueJoined hpc =>
    rw [Phase, hpc] at hp
    exact fun _ i => .inl (i.isLt.trans_le hp.2)
  | setFlag hpc =>
    rw [Guarded, hpc] at hg
    exact hg
  | threadsJoined hpc hr =>
    rw [Guarded, hpc] at hg
    intro hf i
    obtain hi | hi := hg hf i
    · exact .inl (hr i hi)
    · exact hi
  | report hpc he =>
    rw [Guarded, hpc] at hg
    apply Guarded.endStep _ _ he
    · exact h.congr rfl rfl rfl rfl le_rfl rfl rfl fun hf => ⟨hf, rfl⟩
    · exact hg
  | @tear k success raising ok hk hpc =>
    rw [Guarded, hpc] at hg
    refine ⟨hg.1, fun i hi => ?_⟩
    dsimp only
    by_cases hik : i = ⟨k, hk⟩
    · rw [hik, Function.update_self]
      exact Option.some_ne_none _
    · rw [Function.update_of_ne hik]
      have : i.val ≠ k := fun he => hik (Fin.ext he)
      exact hg.2 i (by omega)
  | @tearRaises k success raising hk hpc =>
    rw [Guarded, hpc] at hg
    rw [Harmless, hpc] at hok
    intro i hi
    dsimp only at hi ⊢
    by_cases hik : i = ⟨k, hk⟩
    · rw [hik, Function.update_self]
      exact Option.some_ne_none _
    · rw [Function.update_of_ne hik]
      have hne : i.val ≠ k := fun he => hik (Fin.ext he)
      by_cases hlt : i.val < k
      · exact hg.2 i hlt
      · exact absurd (hok i (show k < i.val by omega)) hi
  | tornDown hpc hk =>
    rw [Guarded, hpc] at hg
    exact fun i _ => hg.2 i (i.isLt.trans_le hk)
  | caught hpc => exact fun hf => (hok hf).1 hpc
  | escapes hpc =>
    refine .leaveTry h (fun hf => ?_) true
    cases hpc' : s.pc with
    | loop | ended =>
      rw [Guarded, hpc'] at hg
      exact hg hf
    | entered | caught | joining => exact (hok hf).2 (by rw [hpc']; rfl)
    | starting | append | waiting | tearing | done =>
      rw [hpc'] at hpc
      cases hpc

end Main

section Runs

variable [Add τ] [LE τ] [DecidableLE τ] {cfg : Config n τ} {s s' : State n τ} {i t : Fin n}
  {o : Job.Outcome τ} {job : Job.State n τ}

/-- A settled job stays so: its thread does not move. -/
theorem JobSettled.jobStep (h : JobSettled s t) (hi : i.val < s.started)
    (hs : Job.step (s.jobConfig cfg) s.job (.job i o) = some job) :
    JobSettled (s.recordJob i o job) t := by
  obtain ⟨i', o', g', j', ha, rfl, hj⟩ | ⟨ha, -⟩ := Job.step_cases hs
  · cases ha
    obtain hr | hst := h
    · refine .inl ?_
      have hti : t ≠ i := by
        rintro rfl
        exact hj.ne_returned hr
      show (Function.update s.job.jobs i j' t).pc = .returned
      rw [Function.update_of_ne hti]
      exact hr
    · exact .inr hst
  · cases ha

theorem Guarded.jobStep (hg : Guarded s) (hd : ∀ b, s.pc ≠ .done b) (hi : i.val < s.started)
    (hs : Job.step (s.jobConfig cfg) s.job (.job i o) = some job) :
    Guarded (s.recordJob i o job) := by
  have hpc' : (s.recordJob i o job).pc = s.pc := rfl
  cases hpc : s.pc with
  | loop | ended =>
    rw [Guarded, hpc] at hg
    rw [Guarded, hpc', hpc]
    exact fun hf t => (hg hf t).jobStep hi hs
  | caught | joining =>
    rw [Guarded, hpc] at hg
    rw [Guarded, hpc', hpc]
    exact fun hf t => (hg hf t).imp_right fun h => h.jobStep hi hs
  | entered | starting | append | waiting =>
    rw [Guarded, hpc', hpc]
    trivial
  | tearing k success raising =>
    rw [Guarded, hpc] at hg
    rw [Guarded, hpc', hpc]
    refine ⟨hg.1, fun t ht => ?_⟩
    show Function.update s.teardown i _ t ≠ none
    rw [hg.1, Bool.and_false, if_neg Bool.false_ne_true, Function.update_eq_self]
    exact hg.2 t ht
  | done b => exact absurd hpc (hd b)

variable [Zero τ] [DecidableEq τ]

theorem guarded_of_reach (h : Reach (step cfg) Harmless (· = start cfg) s) : Guarded s := by
  refine h.inv_of (fun _ => threads_phase_of_reach) ?_ ?_
  · rintro s rfl hf
    cases hf
  · rintro s a s' ⟨ht, hp⟩ - hg hok hs
    obtain hm | ⟨i, o, job, rfl, hd, hi, hj, rfl⟩ := step_cases hs
    · exact hg.mainStep ht hp hok hm
    · exact hg.jobStep hd hi hj

/-- **Every fixture is torn down**, when all interrupts are harmless: once `run` has returned or
raised, `teardown_fixture` has been attempted for every job whose fixture was set up. -/
theorem fixtures_torn_down {raised : Bool} (h : Reach (step cfg) Harmless (· = start cfg) s)
    (hpc : s.pc = .done raised) (i : Fin n) (hi : s.setup i ≠ none) : s.teardown i ≠ none := by
  have hg := guarded_of_reach h
  rw [Guarded, hpc] at hg
  exact hg i hi

end Runs

/-! ## Two schedules -/

/-- The first of two repetitions, with one job that sets its fixture up and passes. -/
def firstRepetition : List (Act 1 ℕ) :=
  startOne ++ [.tick, .job 0 .succeeds] ++ runTest 0 ++ [.job 0 .tick] ++
    [.tick, .tick, .report true 1]

/-- The user interrupts the last repetition while the job runs: the job tears down. -/
theorem interrupt_while_waiting :
    ∃ s, Reach (step (twice 1)) Harmless (· = start (twice 1)) s ∧ s.pc = .done true ∧
      s.setup 0 ≠ none ∧ s.teardown 0 ≠ none := by
  have hrun : ∃ s, Reach (step (twice 1)) Harmless (· = start (twice 1)) s ∧
      s.pc = .done true ∧ s.setup 0 ≠ none :=
    Reach.exists_of_run (.start rfl)
      (List.flatten [firstRepetition, startOne, [.tick, .job 0 .tick, .interrupt], runTest 0,
        [.job 0 .succeeds, .tick, .tick, .report true 1]]) (by decide)
  obtain ⟨s, h, hpc, hi⟩ := hrun
  exact ⟨s, h, hpc, hi, fixtures_torn_down h hpc 0 hi⟩

/-- Interrupts arrive in `_run_tests` only, and no teardown raises. -/
def InRunTests (s : State n τ) : Act n τ → Prop
  | .interrupt => s.pc.catches = true ∨ s.pc.exposed = true
  | .teardown none => False
  | _ => True

instance (s : State n τ) (a : Act n τ) : Decidable (InRunTests s a) :=
  match a with
  | .interrupt => inferInstanceAs (Decidable (_ ∨ _))
  | .teardown none => inferInstanceAs (Decidable False)
  | .teardown (some _) | .tick | .report _ _ | .job _ _ => inferInstanceAs (Decidable True)

/-- **A fixture that nobody tears down.** The user interrupts the last repetition before its thread
is started: the thread that should tear the fixture down never runs, and the main thread leaves it
to that thread. -/
theorem interrupt_forgets_fixture :
    ∃ s, Reach (step (twice 1)) InRunTests (· = start (twice 1)) s ∧ s.pc = .done true ∧
      s.setup 0 = some true ∧ s.teardown 0 = none := by
  exact Reach.exists_of_run (.start rfl)
    (List.flatten [firstRepetition, [.tick, .tick, .interrupt, .tick, .tick, .report true 0]])
    (by decide)

end MongoTests.Resmoke.Executor
