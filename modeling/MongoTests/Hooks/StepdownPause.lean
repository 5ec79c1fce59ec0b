import MongoTests.Hooks.Stepdown

/-!
# Pausing the stepdown thread

* `IdleOk`: what `_is_idle_evt` says about the position of the stepdown thread.
* **`idle_of_terminated`**: if no exception is raised while the event is cleared, a terminated
  thread has left it set, so `pause` does not wait for ever; `raise_leaves_event_cleared`: an
  exception leaves it cleared.
* **`paused_not_stepping`**: with flags, if no wait of `pause` ends between the grant of permission
  and the clearing of the event, no stepdown runs between the return of `pause` and the next
  `resume`; `pause_in_gap_steps_down`: in that gap `pause` returns too early.
-/

namespace MongoTests.Hooks.Stepdown

open MongoTests.Lib

variable {cfg : Config} {s s' : State} {a : Act}

/-! ## The idle event -/

/-- What the position of the thread says about `_is_idle_evt`. -/
def IdleAt : ThreadPc → Bool → Prop
  | .checkFixtures, idle => idle = true
  | .setIdle, _ => True
  | .waitPermitted, idle => idle = true
  | .clearIdle, idle => idle = true
  | .terminated .noFixtures, idle => idle = true
  | .terminated .stopped, idle => idle = true
  | _, idle => idle = false

/-- The invariant of the idle event. -/
def IdleOk (s : State) : Prop := IdleAt s.thread s.isIdleEvt

@[simp] theorem thread_markTestStarted : (markTestStarted cfg s).thread = s.thread := by
  unfold markTestStarted; split <;> rfl

@[simp] theorem isIdleEvt_markTestStarted : (markTestStarted cfg s).isIdleEvt = s.isIdleEvt := by
  unfold markTestStarted; split <;> rfl

@[simp] theorem files_markTestStarted : (markTestStarted cfg s).files = s.files := by
  unfold markTestStarted; split <;> rfl

@[simp] theorem phase_markTestStarted : (markTestStarted cfg s).phase = s.phase := by
  unfold markTestStarted; split <;> rfl

@[simp] theorem shell_markTestStarted : (markTestStarted cfg s).shell = s.shell := by
  unfold markTestStarted; split <;> rfl

@[simp] theorem quiet_markTestStarted : (markTestStarted cfg s).quiet = s.quiet := by
  unfold markTestStarted; split <;> rfl

/-- The job thread does not move the stepdown thread or its event. -/
theorem JobStep.frame {o : JobAct} (h : JobStep cfg s o s') :
    s'.thread = s.thread ∧ s'.isIdleEvt = s.isIdleEvt := by
  cases h <;> simp

/-- The shell touches the files only. -/
theorem ShellStep.frame {o : ShellAct} (h : ShellStep cfg s o s') :
    s'.thread = s.thread ∧ s'.isIdleEvt = s.isIdleEvt ∧ s'.job = s.job ∧
      s'.testStarted = s.testStarted := by
  cases h <;> simp

theorem ThreadStep.frame {o : ThreadAct} (h : ThreadStep cfg s o s') :
    s'.job = s.job ∧ s'.phase = s.phase ∧ s'.shell = s.shell ∧ s'.testStarted = s.testStarted ∧
      s'.quiet = s.quiet := by
  cases h <;> simp

theorem IdleOk.step (hi : IdleOk s) (h : step cfg s a = some s') : IdleOk s' := by
  obtain ⟨o, -, ht⟩ | ⟨o, -, hj⟩ | ⟨o, -, hs⟩ := step_cases h
  · cases ht with
    | idleRequest hpc =>
      rw [IdleOk, hpc] at hi
      simp only [IdleOk, sendIdleAcknowledgement]
      split
      · trivial
      · exact hi
    | raises hpc =>
      simp only [List.mem_cons, List.not_mem_nil, or_false] at hpc
      obtain hpc | hpc | hpc | hpc := hpc <;> · rw [IdleOk, hpc] at hi; exact hi
    | _ => simp_all [IdleOk, IdleAt]
  · rwa [IdleOk, hj.frame.1, hj.frame.2]
  · rwa [IdleOk, hs.frame.1, hs.frame.2.1]

theorem idleOk_of_reach {ok : State → Act → Prop}
    (h : Reach (step cfg) ok (fun s => ∃ files, s = start files) s) : IdleOk s := by
  refine h.inv ?_ fun s a s' hi _ hs => hi.step hs
  rintro s ⟨files, rfl⟩
  rfl

/-! ## Waiting for a dead thread -/

/-- The stepdown thread raises no exception: no call of it fails, and `os.remove` finds its
file. -/
def NoRaise (s : State) : Act → Prop
  | .thread .raises => False
  | .thread _ => s.thread = .ackRemove → s.files.permitted = true
  | _ => True

instance (s : State) (a : Act) : Decidable (NoRaise s a) := by
  unfold NoRaise
  split <;> infer_instance

/-- The thread has not died of an exception. -/
def CleanExit (s : State) : Prop :=
  s.thread ≠ .terminated .raised ∧ s.thread ≠ .terminated .fileNotFound

theorem CleanExit.step (hc : CleanExit s) (hok : NoRaise s a) (h : step cfg s a = some s') :
    CleanExit s' := by
  obtain ⟨o, rfl, ht⟩ | ⟨o, -, hj⟩ | ⟨o, -, hs⟩ := step_cases h
  · cases ht with
    | raises => exact hok.elim
    | ackMissing hpc hp => simp [hok hpc] at hp
    | idleRequest => simp only [CleanExit, sendIdleAcknowledgement]; split <;> simp
    | wait => exact hc
    | _ => simp [CleanExit]
  · rwa [CleanExit, hj.frame.1]
  · rwa [CleanExit, hs.frame.1]

theorem IdleOk.of_cleanExit (hi : IdleOk s) (hc : CleanExit s) (hd : s.thread.dead = true) :
    s.isIdleEvt = true := by
  obtain ⟨h1, h2⟩ := hc
  cases hpc : s.thread with
  | terminated e =>
    rw [IdleOk, hpc] at hi
    cases e with
    | noFixtures | stopped => exact hi
    | raised => exact absurd hpc h1
    | fileNotFound => exact absurd hpc h2
  | _ => simp [hpc, ThreadPc.dead] at hd

/-- **`pause` never waits for a dead thread.** With either lifecycle, if no exception is raised in
the stepdown thread, then whenever the thread has terminated its idle event is set, and the wait of
`pause` returns. -/
theorem idle_of_terminated
    (h : Reach (step cfg) NoRaise (fun s => ∃ files, s = start files) s)
    (hd : s.thread.dead = true) :
    s.isIdleEvt = true ∧
      (s.job = .waitIdle → step cfg s (.job .tick) = some { s with job := .awaitPrimaries }) := by
  have hc : CleanExit s := by
    refine h.inv ?_ fun s a s' hc hok hs => hc.step hok hs
    rintro s ⟨files, rfl⟩
    simp [CleanExit, start]
  have hi := (idleOk_of_reach h).of_cleanExit hc hd
  exact ⟨hi, fun hj => by simp [Stepdown.step, jobStep, hj, hi]⟩

/-- No file exists. -/
def noFiles : StepdownFiles := ⟨false, false, false⟩

/-- The job thread pauses with flags, up to the wait. -/
def pauseUpToWait : List Act := [.job .callPause, .job .tick, .job .tick]

/-- The job thread pauses with flags and resumes. -/
def pauseAndResume : List Act :=
  pauseUpToWait ++ [.job .tick, .job .tick, .job .tick, .job .callResume, .job .tick]

/-- The thread runs into `_step_down_all`. -/
def intoStepDown : List Act :=
  [.thread .tick, .thread .tick, .thread .tick, .thread .tick, .thread .due]

/-- A suite that stops its thread before it waits once more. -/
theorem stopped_thread_is_idle :
    ∃ s, Reach (step ⟨.flagBased, true⟩) NoRaise (fun s => ∃ files, s = start files) s ∧
      s.thread = .terminated .stopped ∧ s.isIdleEvt = true := by
  have hrun : ∃ s, Reach (step ⟨.flagBased, true⟩) NoRaise (fun s => ∃ files, s = start files) s ∧
      s.thread = .terminated .stopped :=
    Reach.exists_of_run (.start ⟨noFiles, rfl⟩) (List.flatten [pauseAndResume, intoStepDown,
      [.thread .tick, .thread .tick, .job .callStop, .job .tick, .thread .tick, .thread .tick,
        .thread .tick, .thread .tick]]) (by decide)
  obtain ⟨s, h, ht⟩ := hrun
  exact ⟨s, h, ht, (idle_of_terminated h (by rw [ht]; rfl)).1⟩

/-- **An exception in `_step_down_all` leaves the event cleared**, and the wait that the job thread
enters after its check of the thread never ends. -/
theorem raise_leaves_event_cleared :
    ∃ s, Reach (step ⟨.flagBased, true⟩) Free (fun s => ∃ files, s = start files) s ∧
      s.thread.dead = true ∧ s.job = .waitIdle ∧ s.isIdleEvt = false :=
  Reach.exists_of_run (.start ⟨noFiles, rfl⟩)
    (List.flatten [pauseAndResume, intoStepDown, pauseUpToWait, [.thread .raises]]) (by decide)

/-! ## Stepping down while paused -/

/-- The thread is outside the body of its loop, and permission is not granted yet. -/
def Resting : ThreadPc → Prop
  | .checkFixtures => True
  | .setIdle => True
  | .waitPermitted => True
  | .terminated _ => True
  | _ => False

/-- The wait of `pause` does not end in the gap between the grant of permission and the clearing of
the event. -/
def NotInGap (s : State) : Act → Prop
  | .job .tick => s.job = .waitIdle → s.thread ≠ .clearIdle
  | _ => True

instance (s : State) (a : Act) : Decidable (NotInGap s a) := by
  unfold NotInGap
  split <;> infer_instance

/-- `pause` has passed its wait, or it has returned and no `resume` has begun. -/
def PastWait (s : State) : Prop :=
  s.job = .awaitPrimaries ∨ s.job = .retarget ∨ s.phase = .paused

/-- What a flag-based `pause` establishes, from its lock section to the next `resume`. -/
structure PauseInv (s : State) : Prop where
  waiting : s.job = .waitIdle → s.testStarted = false
  pastWait : PastWait s → s.testStarted = false ∧ Resting s.thread
  marking : ∀ b, s.job = .markStarted b → s.phase ≠ .paused
  noShell : s.shell = .idle
  noRemoval : s.job ≠ .removePermitted ∧ s.job ≠ .removeIdleRequest ∧ s.job ≠ .removeIdleAck

theorem pauseInv_start (files : StepdownFiles) : PauseInv (start files) := by
  constructor <;> simp [start, PastWait]

/-- Where the thread is when its idle event is set. -/
theorem IdleOk.resting (hi : IdleOk s) (he : s.isIdleEvt = true) (hg : s.thread ≠ .clearIdle) :
    Resting s.thread := by
  unfold IdleOk at hi
  cases hpc : s.thread <;> simp_all [IdleAt, Resting]

/-- Without permission a resting thread stays where it is. -/
theorem ThreadStep.resting {o : ThreadAct} (h : ThreadStep cfg s o s')
    (hp : permission cfg s = false) (hr : Resting s.thread) : Resting s'.thread := by
  cases h with
  | permit _ hp' => simp [hp] at hp'
  | wait => exact hr
  | raises hpc =>
    trivial
  | _ => simp_all [Resting]

theorem PauseInv.thread {o : ThreadAct} (hv : PauseInv s) (hf : cfg.lifecycle = .flagBased)
    (h : ThreadStep cfg s o s') : PauseInv s' := by
  obtain ⟨hj, hph, hsh, hts, -⟩ := h.frame
  refine ⟨by rw [hj, hts]; exact hv.waiting, fun hw => ?_, by rw [hj, hph]; exact hv.marking,
    hsh.trans hv.noShell, by rw [hj]; exact hv.noRemoval⟩
  rw [PastWait, hj, hph] at hw
  obtain ⟨h0, hr⟩ := hv.pastWait hw
  exact ⟨hts.trans h0, h.resting (by simpa [permission, hf] using h0) hr⟩

theorem PauseInv.job {o : JobAct} (hv : PauseInv s) (hi : IdleOk s)
    (hf : cfg.lifecycle = .flagBased) (hg : NotInGap s (.job o)) (h : JobStep cfg s o s') :
    PauseInv s' := by
  obtain ⟨hw, hp, hm, hn, hr⟩ := hv
  simp only [PastWait] at hp
  cases h with
  | waitIdle hj he =>
    exact ⟨by simp, fun _ => ⟨hw hj, hi.resting he (hg hj)⟩, by simp, hn, by simp⟩
  | paused hj => exact ⟨by simp, fun _ => hp (.inr (.inl hj)), by simp, hn, by simp⟩
  | primaries hj => exact ⟨by simp, fun _ => hp (.inl hj), by simp, hn, by simp⟩
  | markStarted b hj =>
    have hne := hm b hj
    cases b <;> constructor <;> simp_all [PastWait, resumeReturns]
  | removePermitted hj => exact absurd hj hr.1
  | removeIdleRequest hj => exact absurd hj hr.2.1
  | removeIdleAck hj => exact absurd hj hr.2.2
  | _ => constructor <;> simp_all [PastWait, markTestFinished]

theorem PauseInv.step (hv : PauseInv s) (hi : IdleOk s) (hf : cfg.lifecycle = .flagBased)
    (hg : NotInGap s a) (h : step cfg s a = some s') : PauseInv s' := by
  obtain ⟨o, -, ht⟩ | ⟨o, rfl, hj⟩ | ⟨o, -, hs⟩ := step_cases h
  · exact hv.thread hf ht
  · exact hv.job hi hf hg hj
  · -- with flags no shell is started
    have := hv.noShell
    cases hs with
    | start hl => simp [hf] at hl
    | _ => simp_all

/-- **A paused thread does not step down.** With the flag-based lifecycle, if no wait of `pause`
ends while the thread is between the grant of permission and the clearing of its event, then from
the return of `pause` to the beginning of the next `resume` the thread is never in
`_step_down_all`. -/
theorem paused_not_stepping (hf : cfg.lifecycle = .flagBased)
    (h : Reach (step cfg) NotInGap (fun s => ∃ files, s = start files) s)
    (hp : s.phase = .paused) : s.thread ≠ .stepDownAll := by
  have hv : PauseInv s := by
    refine h.inv_of (J := IdleOk) (fun _ => idleOk_of_reach) ?_
      fun s a s' hi _ hv hg hs => hv.step hi hf hg hs
    rintro s ⟨files, rfl⟩
    exact pauseInv_start files
  obtain ⟨-, hr⟩ := hv.pastWait (.inr (.inr hp))
  intro hpc
  rw [hpc] at hr
  exact hr

/-- A test with a stepdown, and a pause after it. -/
theorem paused_after_stepdown :
    ∃ s, Reach (step ⟨.flagBased, true⟩) NotInGap (fun s => ∃ files, s = start files) s ∧
      s.phase = .paused ∧ s.thread = .waitPermitted ∧ s.thread ≠ .stepDownAll := by
  have hrun : ∃ s, Reach (step ⟨.flagBased, true⟩) NotInGap (fun s => ∃ files, s = start files) s ∧
      s.phase = .paused ∧ s.thread = .waitPermitted :=
    Reach.exists_of_run (.start ⟨noFiles, rfl⟩)
      (List.flatten [pauseAndResume, intoStepDown, pauseUpToWait,
        [.thread .tick, .thread .tick, .thread .tick, .thread .tick],
        [.job .tick, .job .tick, .job .tick]]) (by decide)
  obtain ⟨s, h, hp, ht⟩ := hrun
  exact ⟨s, h, hp, ht, paused_not_stepping rfl h hp⟩

/-- **A pause in the gap returns too early**: permission was granted before `pause` took it back,
the event is not cleared yet, and the thread steps down after `pause` has returned. -/
theorem pause_in_gap_steps_down :
    ∃ s, Reach (step ⟨.flagBased, true⟩) Free (fun s => ∃ files, s = start files) s ∧
      s.phase = .paused ∧ s.job = .free ∧ s.thread = .stepDownAll :=
  Reach.exists_of_run (.start ⟨noFiles, rfl⟩)
    (List.flatten [pauseAndResume, [.thread .tick, .thread .tick, .thread .tick], pauseUpToWait,
      [.job .tick, .job .tick, .job .tick], [.thread .tick, .thread .due]]) (by decide)

end MongoTests.Hooks.Stepdown
