import MongoTests.Lib.Machine

/-!
# The background job of a hook

Embeds `_BackgroundJob` of `resmokelib/testing/hooks/background_job.py`: the background thread's
`run`, and the owner's `resume`, `pause` and `stop` in the order in which the hooks call them. A
step is one lock section, one access to the fields outside the lock, or the start or end of
`run_dynamic_test`.

* `ThreadPc`, `threadStep`; `OwnerPc`, `ownerStep`; `step_cases`.
* `Progress`: where the run that the last `resume` asked for is.
* **`runs_follow_resumes`**: if `pause` and `stop` do not overtake the last `resume`, every `resume`
  leads to one run of its test case, and none is under way while the job is paused.
* `pause_overtakes_resume`: a `pause` that comes before the thread wakes up returns at once, and the
  test case runs after it.
-/

namespace MongoTests.Hooks.BackgroundJob

open MongoTests.Lib

variable {α : Type*}

/-! ## States -/

/-- The position of the background thread in `run`. -/
inductive ThreadPc (α : Type*)
  /-- In `while not self._should_resume: self._cond.wait()`. -/
  | waiting
  /-- Past the lock section; about to read `_hook_test_case`. -/
  | load
  /-- In `run_dynamic_test` of `c`. -/
  | executing (c : α)
  /-- `finally` clause: about to set `_is_idle`. -/
  | finishing
  | terminated
  deriving DecidableEq, Repr

inductive OwnerPc (α : Type*)
  /-- Not in a method of the job. -/
  | free
  /-- `resume`: about to write `_hook_test_case` and `exc_info`. -/
  | resumeSet (c : α)
  /-- `resume`: about to set `_should_resume`. -/
  | resumeNotify
  /-- `pause`: about to call `signal_stop_test`. -/
  | pauseSignal
  /-- `pause`: in `while not self._is_idle: self._cond.wait()`. -/
  | pauseWait
  /-- `stop`: about to set `_should_stop`. -/
  | stopSet
  /-- `stop`, in `resume`: about to write `_hook_test_case` and `exc_info`. -/
  | stopResume
  /-- `stop`, in `resume`: about to set `_should_resume`. -/
  | stopNotify
  /-- `stop`: in `join`. -/
  | join
  | stopped
  deriving DecidableEq, Repr

/-- How far the calls of the owner have come. -/
inductive Phase
  | started
  | resumed
  /-- `pause` has returned, and no `resume` has begun since. -/
  | paused
  /-- `stop` has called `resume`. -/
  | stopping
  deriving DecidableEq, Repr

/-- The job. `resumes` records the test cases given to `resume`, `runs` those that
`run_dynamic_test` was called on. -/
structure State (α : Type*) where
  thread : ThreadPc α
  owner : OwnerPc α
  phase : Phase
  shouldStop : Bool
  shouldResume : Bool
  isIdle : Bool
  hookTestCase : Option α
  excInfo : Bool
  resumes : List α
  runs : List α
  deriving DecidableEq, Repr

/-- The job after `start`. -/
def start : State α where
  thread := .waiting
  owner := .free
  phase := .started
  shouldStop := false
  shouldResume := false
  isIdle := true
  hookTestCase := none
  excInfo := false
  resumes := []
  runs := []

/-- A step of the background thread; `raises` is an exception of `run_dynamic_test`. -/
inductive ThreadAct
  | tick
  | raises
  deriving DecidableEq, Repr

/-- A step of the owner: a call, or a step of the current call. -/
inductive OwnerAct (α : Type*)
  | callResume (c : α)
  | callPause
  | callStop
  | tick
  deriving DecidableEq, Repr

inductive Act (α : Type*)
  | thread (o : ThreadAct)
  | owner (o : OwnerAct α)
  deriving DecidableEq, Repr

/-! ## Steps -/

def threadStep (s : State α) : ThreadAct → Option (State α)
  | .tick =>
    match s.thread with
    | .waiting =>
      if s.shouldResume then
        if s.shouldStop then some { s with thread := .terminated, shouldResume := false }
        else some { s with thread := .load, shouldResume := false, isIdle := false }
      else some s
    | .load =>
      match s.hookTestCase with
      | some c => some { s with thread := .executing c, runs := s.runs ++ [c] }
      -- the `AttributeError` of calling a method of `None` is caught
      | none => some { s with thread := .finishing, excInfo := true }
    | .executing _ => some { s with thread := .finishing }
    | .finishing => some { s with thread := .waiting, isIdle := true }
    | .terminated => none
  | .raises =>
    match s.thread with
    | .executing _ => some { s with thread := .finishing, excInfo := true }
    | _ => none

/-- One step of the owner, which alternates between `resume` and `pause` and then calls `stop`. -/
def ownerStep [DecidableEq α] (s : State α) : OwnerAct α → Option (State α)
  | .callResume c =>
    if s.owner = .free ∧ (s.phase = .started ∨ s.phase = .paused) then
      some { s with owner := .resumeSet c, phase := .resumed, resumes := s.resumes ++ [c] }
    else none
  | .callPause =>
    if s.owner = .free ∧ s.phase = .resumed then some { s with owner := .pauseSignal } else none
  | .callStop => if s.owner = .free then some { s with owner := .stopSet } else none
  | .tick =>
    match s.owner with
    | .free => none
    | .resumeSet c => some { s with owner := .resumeNotify, hookTestCase := some c, excInfo := false }
    | .resumeNotify => some { s with owner := .free, shouldResume := true }
    | .pauseSignal => some { s with owner := .pauseWait }
    | .pauseWait => if s.isIdle then some { s with owner := .free, phase := .paused } else none
    | .stopSet => some { s with owner := .stopResume, shouldStop := true, phase := .stopping }
    | .stopResume => some { s with owner := .stopNotify, hookTestCase := none, excInfo := false }
    | .stopNotify => some { s with owner := .join, shouldResume := true }
    | .join => if s.thread = .terminated then some { s with owner := .stopped } else none
    | .stopped => none

def step [DecidableEq α] (s : State α) : Act α → Option (State α)
  | .thread o => threadStep s o
  | .owner o => ownerStep s o

/-! ## The condition and the invariant -/

/-- The owner does not overtake the last `resume`: `pause` looks at `_is_idle`, and `stop` sets
`_should_stop`, only after the thread has taken it, and `stop` overwrites the test case only after
the thread has read it. -/
def Prompt (s : State α) : Act α → Prop
  | .owner .tick =>
    match s.owner with
    | .pauseWait => s.shouldResume = false
    | .stopSet => s.shouldResume = false
    | .stopResume => s.thread ≠ .load
    | _ => True
  | _ => True

instance [DecidableEq α] (s : State α) (a : Act α) : Decidable (Prompt s a) := by
  unfold Prompt
  split
  · split <;> infer_instance
  · infer_instance

/-- The last `resume` has given the job a test case that has not been run yet. -/
def Given (s : State α) : Prop := ∃ c, s.hookTestCase = some c ∧ s.resumes = s.runs ++ [c]

/-- The thread has still to take the last `resume`. -/
def Asked (s : State α) : Prop := Given s ∧ s.thread = .waiting ∧ s.shouldResume = true

/-- The thread has taken the last `resume`, and has still to read its test case. -/
def Taken (s : State α) : Prop := Given s ∧ s.thread = .load ∧ s.shouldResume = false

/-- The run of the last `resume` has at least begun. -/
def Begun (s : State α) : Prop :=
  s.runs = s.resumes ∧ s.shouldResume = false ∧ s.thread ≠ .load ∧ s.thread ≠ .terminated

/-- Every run is over, and none is asked for. -/
def Resting (s : State α) : Prop :=
  s.runs = s.resumes ∧ s.shouldResume = false ∧ s.thread = .waiting

/-- Where the run of the last `resume` is, while the owner is not in `resume` or `stop`. -/
def Progress (s : State α) : Prop :=
  match s.phase with
  | .started => Resting s
  | .paused => Resting s
  | .resumed => Asked s ∨ Taken s ∨ Begun s
  | .stopping => False

def OwnerOk (s : State α) : Prop :=
  match s.owner with
  | .free => Progress s
  | .resumeSet c => s.phase = .resumed ∧ s.resumes = s.runs ++ [c] ∧ s.thread = .waiting ∧
      s.shouldResume = false
  | .resumeNotify => s.phase = .resumed ∧ Given s ∧ s.thread = .waiting ∧ s.shouldResume = false
  | .pauseSignal => s.phase = .resumed ∧ Progress s
  | .pauseWait => s.phase = .resumed ∧ Progress s
  | .stopSet => Progress s
  | .stopResume => s.phase = .stopping ∧ (Taken s ∨ Begun s)
  | .stopNotify => s.phase = .stopping ∧ Begun s
  | .join => s.phase = .stopping ∧ s.runs = s.resumes ∧ s.thread ≠ .load
  | .stopped => s.phase = .stopping ∧ s.runs = s.resumes ∧ s.thread = .terminated

structure JobInv (s : State α) : Prop where
  idle : s.isIdle = true → s.thread = .waiting ∨ s.thread = .terminated
  stop : s.shouldStop = true ↔ s.phase = .stopping
  owner : OwnerOk s

theorem jobInv_start : JobInv (start : State α) := 
  ⟨fun _ => .inl rfl, by simp [start], rfl, rfl, rfl⟩

/-! ## Steps of the thread -/

section Thread

variable {s s' : State α} {o : ThreadAct}

theorem threadStep_frame (h : threadStep s o = some s') :
    s'.owner = s.owner ∧ s'.phase = s.phase ∧ s'.shouldStop = s.shouldStop ∧
      s'.resumes = s.resumes := by
  cases o <;> simp only [threadStep] at h <;> split at h <;> (try split_ifs at h) <;>
    (try split at h) <;> cases h <;> exact ⟨rfl, rfl, rfl, rfl⟩

theorem Asked.threadStep (ha : Asked s) (hs : s.shouldStop = false)
    (h : threadStep s o = some s') : Taken s' := by
  obtain ⟨hg, hw, hr⟩ := ha
  cases o with
  | tick =>
    simp only [BackgroundJob.threadStep, hw, hr, hs, if_true, Bool.false_eq_true, if_false] at h
    cases h
    exact ⟨hg, rfl, rfl⟩
  | raises => simp [BackgroundJob.threadStep, hw] at h

theorem Taken.threadStep (ht : Taken s) (h : threadStep s o = some s') : Begun s' := by
  obtain ⟨⟨c, hc, hruns⟩, hl, hr⟩ := ht
  cases o with
  | tick =>
    simp only [BackgroundJob.threadStep, hl, hc] at h
    cases h
    exact ⟨hruns.symm, hr, by simp, by simp⟩
  | raises => simp [BackgroundJob.threadStep, hl] at h

theorem Begun.threadStep (hb : Begun s) (h : threadStep s o = some s') : Begun s' := by
  obtain ⟨hruns, hr, hl, ht⟩ := hb
  cases o <;> cases hpc : s.thread <;>
    simp only [BackgroundJob.threadStep, hpc, hr, Bool.false_eq_true, if_false] at h
  case tick.load => exact absurd hpc hl
  all_goals cases h
  case tick.waiting => exact ⟨hruns, hr, hl, ht⟩
  all_goals exact ⟨hruns, rfl, by simp, by simp⟩

theorem Resting.threadStep (hb : Resting s) (h : threadStep s o = some s') : Resting s' := by
  obtain ⟨hruns, hr, hw⟩ := hb
  cases o with
  | tick =>
    simp only [BackgroundJob.threadStep, hw, hr, Bool.false_eq_true, if_false] at h
    cases h
    exact ⟨hruns, hr, hw⟩
  | raises => simp [BackgroundJob.threadStep, hw] at h

theorem Progress.threadStep (hp : Progress s) (hs : s.shouldStop = true ↔ s.phase = .stopping)
    (h : threadStep s o = some s') : Progress s' := by
  unfold Progress at hp ⊢
  rw [(threadStep_frame h).2.1]
  cases hph : s.phase <;> simp only [hph] at hp ⊢
  case started => exact hp.threadStep h
  case paused => exact hp.threadStep h
  case resumed =>
    have hs' : s.shouldStop = false := by
      by_contra hne
      simp [hs.mp (by simpa using hne)] at hph
    obtain ha | ht | hb := hp
    · exact .inr (.inl (ha.threadStep hs' h))
    · exact .inr (.inr (ht.threadStep h))
    · exact .inr (.inr (hb.threadStep h))

/-- After `stop` the thread begins no run. -/
theorem threadStep_stopped (hs : s.shouldStop = true) (hl : s.thread ≠ .load)
    (h : threadStep s o = some s') : s'.thread ≠ .load ∧ s'.runs = s.runs := by
  cases o <;> cases hpc : s.thread <;> simp only [BackgroundJob.threadStep, hpc, hs] at h
  case tick.load => exact absurd hpc hl
  case tick.waiting =>
    split_ifs at h <;> cases h
    · exact ⟨by simp, rfl⟩
    · exact ⟨hl, rfl⟩
  all_goals cases h
  all_goals exact ⟨by simp, rfl⟩

theorem JobInv.threadStep (hv : JobInv s) (h : threadStep s o = some s') : JobInv s' := by
  obtain ⟨how, hph, hst, hres⟩ := threadStep_frame h
  refine ⟨fun hi => ?_, by rw [hst, hph]; exact hv.stop, ?_⟩
  · obtain ⟨hidle, -, -⟩ := hv
    cases o <;> cases hpc : s.thread <;> simp only [BackgroundJob.threadStep, hpc] at h <;>
      (try split_ifs at h) <;> (try split at h) <;> cases h <;> simp_all
  · have hok := hv.owner
    unfold OwnerOk at hok ⊢
    rw [how]
    cases hown : s.owner <;> simp only [hown] at hok ⊢
    case free | stopSet => exact hok.threadStep hv.stop h
    case pauseSignal | pauseWait => exact ⟨hph.trans hok.1, hok.2.threadStep hv.stop h⟩
    case resumeSet c =>
      -- the thread waits until it is asked
      obtain ⟨hp, hruns, hw, hr⟩ := hok
      cases o <;> simp [BackgroundJob.threadStep, hw, hr] at h
      exact h ▸ ⟨hp, hruns, hw, hr⟩
    case resumeNotify =>
      obtain ⟨hp, hg, hw, hr⟩ := hok
      cases o <;> simp [BackgroundJob.threadStep, hw, hr] at h
      exact h ▸ ⟨hp, hg, hw, hr⟩
    case stopResume =>
      obtain ⟨hp, ht | hb⟩ := hok
      · exact ⟨hph.trans hp, .inr (ht.threadStep h)⟩
      · exact ⟨hph.trans hp, .inr (hb.threadStep h)⟩
    case stopNotify => exact ⟨hph.trans hok.1, hok.2.threadStep h⟩
    case join =>
      obtain ⟨hp, hruns, hl⟩ := hok
      obtain ⟨hl', hruns'⟩ := threadStep_stopped (hv.stop.mpr hp) hl h
      exact ⟨hph.trans hp, by rw [hruns', hres, hruns], hl'⟩
    case stopped =>
      obtain ⟨-, -, ht⟩ := hok
      cases o <;> simp [BackgroundJob.threadStep, ht] at h

/-- What `pause` has established when it returns. -/
theorem Progress.resting (hp : Progress s) (hph : s.phase = .resumed)
    (hidle : s.isIdle = true → s.thread = .waiting ∨ s.thread = .terminated)
    (hi : s.isIdle = true) (hr : s.shouldResume = false) : Resting s := by
  simp only [Progress, hph] at hp
  obtain ⟨-, -, hr'⟩ | ⟨-, hl, -⟩ | ⟨hruns, -, -, ht⟩ := hp
  · simp [hr] at hr'
  · simp [hl] at hidle
    simp [hi] at hidle
  · exact ⟨hruns, hr, (hidle hi).resolve_right ht⟩

end Thread

/-! ## Steps of the owner -/

section Owner

variable [DecidableEq α] {s s' : State α} {a : Act α} {o : OwnerAct α}

theorem JobInv.ownerStep (hv : JobInv s) (hok : Prompt s (.owner o))
    (h : ownerStep s o = some s') : JobInv s' := by
  obtain ⟨hidle, hstop, how⟩ := hv
  unfold OwnerOk at how
  cases o with
  | callResume c =>
    simp only [BackgroundJob.ownerStep] at h
    split_ifs at h with hc
    cases h
    obtain ⟨hfree, hph⟩ := hc
    simp only [hfree] at how
    have hrest : Resting s := by obtain hph | hph := hph <;> simpa [Progress, hph] using how
    obtain ⟨hruns, hr, hw⟩ := hrest
    refine ⟨hidle, ?_, rfl, by simp [hruns], hw, hr⟩
    obtain hph | hph := hph <;> simpa [hph] using hstop
  | callPause =>
    simp only [BackgroundJob.ownerStep] at h
    split_ifs at h with hc
    cases h
    simp only [hc.1] at how
    exact ⟨hidle, hstop, hc.2, how⟩
  | callStop =>
    simp only [BackgroundJob.ownerStep] at h
    split_ifs at h with hc
    cases h
    simp only [hc] at how
    exact ⟨hidle, hstop, how⟩
  | tick =>
    cases hown : s.owner <;> simp only [BackgroundJob.ownerStep, hown] at h how <;>
      simp only [Prompt, hown] at hok
    case resumeSet c =>
      cases h
      obtain ⟨hph, hruns, hw, hr⟩ := how
      exact ⟨hidle, hstop, hph, ⟨c, rfl, hruns⟩, hw, hr⟩
    case resumeNotify =>
      cases h
      obtain ⟨hph, hg, hw, hr⟩ := how
      refine ⟨hidle, hstop, ?_⟩
      simp only [OwnerOk, Progress, hph]
      exact .inl ⟨hg, hw, rfl⟩
    case pauseSignal =>
      cases h
      exact ⟨hidle, hstop, how⟩
    case pauseWait =>
      split_ifs at h with hi
      cases h
      have hrest := how.2.resting how.1 hidle hi hok
      exact ⟨hidle, by simpa [how.1] using hstop, hrest⟩
    case stopSet =>
      cases h
      refine ⟨hidle, by simp, rfl, ?_⟩
      unfold Progress at how
      cases hph : s.phase <;> simp only [hph] at how
      case started | paused =>
        obtain ⟨hruns, hr, hw⟩ := how
        exact .inr ⟨hruns, hr, by simp [hw], by simp [hw]⟩
      case resumed =>
        obtain ⟨-, -, hr⟩ | ht | hb := how
        · simp [hok] at hr
        · exact .inl ht
        · exact .inr hb
    case stopResume =>
      cases h
      exact ⟨hidle, hstop, how.1, how.2.resolve_left fun ht => hok ht.2.1⟩
    case stopNotify =>
      cases h
      obtain ⟨hph, hruns, -, hl, -⟩ := how
      exact ⟨hidle, hstop, hph, hruns, hl⟩
    case join =>
      split_ifs at h with ht
      cases h
      exact ⟨hidle, hstop, how.1, how.2.1, ht⟩
    all_goals cases h

theorem JobInv.step (hv : JobInv s) (hok : Prompt s a) (h : step s a = some s') : JobInv s' := by
  cases a with
  | thread o => exact hv.threadStep h
  | owner o => exact hv.ownerStep hok h

theorem jobInv_of_reach (h : Reach step Prompt (· = start) s) : JobInv s := by
  refine h.inv ?_ fun s a s' hv hok hs => hv.step hok hs
  rintro s rfl
  exact jobInv_start

end Owner

/-! ## Runs follow resumes -/

section Runs

variable {s : State α}

/-- At most the last `resume` has not begun its run. -/
theorem JobInv.runs_prefix (hv : JobInv s) :
    ∃ pending, s.resumes = s.runs ++ pending ∧ pending.length ≤ 1 := by
  have given : Given s → ∃ pending, s.resumes = s.runs ++ pending ∧ pending.length ≤ 1 :=
    fun ⟨c, _, hruns⟩ => ⟨[c], hruns, le_rfl⟩
  have done : s.runs = s.resumes → ∃ pending, s.resumes = s.runs ++ pending ∧ pending.length ≤ 1 :=
    fun hruns => ⟨[], by simp [hruns], by simp⟩
  have progress : Progress s → ∃ pending, s.resumes = s.runs ++ pending ∧ pending.length ≤ 1 := by
    intro hp
    unfold Progress at hp
    cases hph : s.phase <;> simp only [hph] at hp
    case started | paused => exact done hp.1
    case resumed =>
      obtain ⟨hg, -⟩ | ⟨hg, -⟩ | ⟨hruns, -⟩ := hp
      · exact given hg
      · exact given hg
      · exact done hruns
  have how := hv.owner
  unfold OwnerOk at how
  cases hown : s.owner <;> simp only [hown] at how
  case free | stopSet => exact progress how
  case pauseSignal | pauseWait => exact progress how.2
  case resumeSet c => exact ⟨[c], how.2.1, le_rfl⟩
  case resumeNotify => exact given how.2.1
  case stopResume => exact how.2.elim (fun ht => given ht.1) fun hb => done hb.1
  case stopNotify | join | stopped => exact done how.2.1

/-- While the job is paused every run is over. -/
theorem JobInv.paused (hv : JobInv s) (hp : s.phase = .paused) : Resting s := by
  have how := hv.owner
  unfold OwnerOk at how
  cases hown : s.owner <;> simp only [hown, hp, reduceCtorEq, false_and] at how
  case free | stopSet => simpa [Progress, hp] using how

/-- **Every `resume` leads to exactly one run.** If the owner does not overtake its last `resume`,
the test cases that were run are those given to `resume`, in order, but for the last one at most;
while the job is paused, and once `stop` has returned, it is none; and while the job is paused the
thread neither executes a test case nor is about to. -/
theorem runs_follow_resumes [DecidableEq α] (h : Reach step Prompt (· = start) s) :
    (∃ pending, s.resumes = s.runs ++ pending ∧ pending.length ≤ 1) ∧
      (s.phase = .paused → s.thread = .waiting ∧ s.shouldResume = false ∧ s.runs = s.resumes) ∧
      (s.owner = .stopped → s.thread = .terminated ∧ s.runs = s.resumes) := by
  have hv := jobInv_of_reach h
  refine ⟨hv.runs_prefix, fun hp => ?_, fun hs => ?_⟩
  · obtain ⟨hruns, hr, hw⟩ := hv.paused hp
    exact ⟨hw, hr, hruns⟩
  · have how := hv.owner
    simp only [OwnerOk, hs] at how
    exact ⟨how.2.2, how.2.1⟩

def resume (c : ℕ) : List (Act ℕ) := [.owner (.callResume c), .owner .tick, .owner .tick]

/-- The thread wakes up, runs its test case and is idle again. -/
def runOnce : List (Act ℕ) := [.thread .tick, .thread .tick, .thread .tick, .thread .tick]

def pause : List (Act ℕ) := [.owner .callPause, .owner .tick, .owner .tick]

/-- Two test cases, then `stop`. -/
theorem two_resumes_run_once :
    ∃ s, Reach step Prompt (· = start) s ∧ s.owner = .stopped ∧ s.resumes = [1, 2] ∧
      s.runs = s.resumes := by
  have hrun : ∃ s : State ℕ, Reach step Prompt (· = start) s ∧ s.owner = .stopped ∧
      s.resumes = [1, 2] :=
    Reach.exists_of_run (.start rfl) (List.flatten [resume 1, runOnce, pause, resume 2,
      [.thread .tick, .thread .tick, .owner .callStop, .owner .tick, .owner .tick, .owner .tick,
        .thread .tick, .thread .tick, .thread .tick, .owner .tick]]) (by decide)
  obtain ⟨s, h, hs, hres⟩ := hrun
  exact ⟨s, h, hs, hres, ((runs_follow_resumes h).2.2 hs).2⟩

/-- **A `pause` overtakes the wake-up.** The thread has not taken the `resume` yet, `_is_idle` is
still true, `pause` returns, and the test case runs while the job is paused. -/
theorem pause_overtakes_resume :
    ∃ s, Reach step Free (· = start) s ∧ s.phase = .paused ∧ s.owner = .free ∧
      s.thread = .executing 1 :=
  Reach.exists_of_run (.start rfl)
    (List.flatten [resume 1, pause, [.thread .tick, .thread .tick]])
    (by decide)

end Runs

end MongoTests.Hooks.BackgroundJob
