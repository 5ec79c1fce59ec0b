import MongoTests.Hooks.StepdownPause

/-!
# The file-based stepdown protocol

The stepdown thread, the job thread and the shell coordinate through the existence of three files.

* `FilesInv`: what the position of each party says about the files, over any number of tests and
  any files left over from before the suite.
* **`quiet_not_stepping`**: once a shell has observed `idle_ack`, no stepdown is in progress and
  none starts until a shell creates `permitted` again.
* **`no_missing_file`**: if the job thread removes `permitted` only while the stepdown thread is
  neither acknowledging nor on its way to see an idle request, `os.remove(permitted)` always finds
  its file; `removal_races_with_ack`: otherwise the thread dies.
-/

namespace MongoTests.Hooks.Stepdown

open MongoTests.Lib

variable {cfg : Config} {s s' : State} {a : Act}

/-! ## Positions -/

/-- The thread is in `send_idle_acknowledgement`. -/
def acking : ThreadPc → Bool
  | .ackCreate => true
  | .ackRemove => true
  | _ => false

/-- The thread was granted permission and has not polled for an idle request yet. -/
def beforePoll : ThreadPc → Bool
  | .clearIdle => true
  | .checkTime => true
  | .stepDownAll => true
  | .awaitPrimaries => true
  | .poll => true
  | _ => false

/-- The shell has not created `idle_request` yet. -/
def ShellPc.beforeRequest : ShellPc → Bool
  | .setup => true
  | .prepare => true
  | .working => true
  | .requestIdle => true
  | _ => false

/-- The shell has created `permitted` and not `idle_request`. -/
def ShellPc.permitting : ShellPc → Bool
  | .prepare => true
  | .working => true
  | .requestIdle => true
  | _ => false

/-- `mark_test_finished` has removed `permitted`, and the wait of `pause` has not ended. -/
def JobPc.removedPermitted : JobPc → Bool
  | .removeIdleRequest => true
  | .removeIdleAck => true
  | .waitIdle => true
  | _ => false

/-- `mark_test_finished` has removed `idle_request` as well. -/
def JobPc.removedIdleRequest : JobPc → Bool
  | .removeIdleAck => true
  | .waitIdle => true
  | _ => false

/-- `pause` has ended its wait and not returned. -/
def JobPc.pastWait : JobPc → Bool
  | .awaitPrimaries => true
  | .retarget => true
  | _ => false

/-! ## The invariant -/

/-- No stepdown is in progress, and none can start without a new `permitted` file. -/
def Halted (s : State) : Prop :=
  s.thread = .ackRemove ∨ s.thread.dead = true ∨
    ((s.thread = .setIdle ∨ s.thread = .waitPermitted) ∧ s.files.permitted = false)

/-- From the end of a wait of `pause` to the creation of the next `idle_request`. -/
def Fresh (s : State) : Prop :=
  s.job.pastWait = true ∨ s.phase = .paused ∨ s.phase = .resumed ∨ s.shell.beforeRequest = true

/-- What the positions say about the files. -/
structure FilesInv (s : State) : Prop where
  shell : s.shell ≠ .idle → s.job = .free ∧ s.phase = .tested
  files : s.job ≠ .markFinished
  noPermitted : s.job.removedPermitted = true → s.files.permitted = false
  noRequest : s.job.removedIdleRequest = true → s.files.idleRequest = false
  /-- An acknowledgement after the removals is by a thread that will not set its event again. -/
  lateAck : s.job = .waitIdle → s.files.idleAck = true →
    s.thread = .ackRemove ∨ (s.thread.dead = true ∧ s.isIdleEvt = false)
  fresh : Fresh s →
    s.files.idleRequest = false ∧ s.files.idleAck = false ∧ acking s.thread = false
  acked : s.shell = .waitAck → s.files.idleAck = true → Halted s
  quiet : s.quiet = true → Halted s

theorem filesInv_start (files : StepdownFiles) : FilesInv (start files) := by
  constructor <;> simp [start, Fresh, JobPc.removedPermitted, JobPc.removedIdleRequest,
    JobPc.pastWait, ShellPc.beforeRequest]

theorem ThreadStep.halted {o : ThreadAct} (h : ThreadStep cfg s o s')
    (hf : cfg.lifecycle = .fileBased) (hh : Halted s) : Halted s' := by
  cases h with
  | permit hpc hp =>
    simp only [permission, hf] at hp
    simp [Halted, hpc, hp, ThreadPc.dead] at hh
  | wait => exact hh
  | raises => exact .inr (.inl rfl)
  | _ => simp_all [Halted, ThreadPc.dead]

/-- Without an idle request the thread acknowledges nothing. -/
theorem ThreadStep.not_acking {o : ThreadAct} (h : ThreadStep cfg s o s')
    (hf : cfg.lifecycle = .fileBased) (hr : s.files.idleRequest = false)
    (hn : acking s.thread = false) :
    acking s'.thread = false ∧ s'.files = s.files := by
  cases h with
  | idleRequest _ hp => simp [pollForIdleRequest, hf, hr] at hp
  | _ => simp_all [acking]

theorem ThreadStep.files {o : ThreadAct} (h : ThreadStep cfg s o s') :
    s'.files.idleRequest = s.files.idleRequest ∧
      (s.files.permitted = false → s'.files.permitted = false) := by
  cases h <;> simp

/-- Only the thread at `ackCreate` creates `idle_ack`. -/
theorem ThreadStep.idleAck {o : ThreadAct} (h : ThreadStep cfg s o s')
    (ha : s'.files.idleAck = true) : s.files.idleAck = true ∨ s'.thread = .ackRemove := by
  cases h with
  | ackCreate => exact .inr rfl
  | _ => exact .inl ha

theorem FilesInv.thread {o : ThreadAct} (hv : FilesInv s) (hi : IdleOk s)
    (hf : cfg.lifecycle = .fileBased) (h : ThreadStep cfg s o s') : FilesInv s' := by
  obtain ⟨hj, hph, hsh, -, hq⟩ := h.frame
  obtain ⟨hreq, hperm⟩ := h.files
  refine ⟨by rw [hsh, hj, hph]; exact hv.shell, by rw [hj]; exact hv.files,
    by rw [hj]; exact fun hr => hperm (hv.noPermitted hr),
    by rw [hj, hreq]; exact hv.noRequest, fun hw ha => ?_, fun hfr => ?_, fun hw ha => ?_,
    fun hq' => h.halted hf (hv.quiet (hq ▸ hq'))⟩
  · rw [hj] at hw
    obtain ha | ha := h.idleAck ha
    · have hnp := hv.noPermitted (by rw [hw]; rfl)
      obtain hpc | ⟨hd, he⟩ := hv.lateAck hw ha
      · -- `permitted` is gone, so the removal fails and the event stays cleared
        have he : s.isIdleEvt = false := by rw [IdleOk, hpc] at hi; exact hi
        cases h <;> simp_all [ThreadPc.dead]
      · cases h <;> simp_all [ThreadPc.dead]
    · exact .inl ha
  · rw [Fresh, hj, hph, hsh] at hfr
    obtain ⟨hr, ha, hn⟩ := hv.fresh hfr
    obtain ⟨hn', hfiles⟩ := h.not_acking hf hr hn
    rw [hfiles]
    exact ⟨hr, ha, hn'⟩
  · rw [hsh] at hw
    obtain ha | ha := h.idleAck ha
    · exact h.halted hf (hv.acked hw ha)
    · exact .inl ha

/-- The job thread creates no file. -/
theorem JobStep.files {o : JobAct} (h : JobStep cfg s o s') :
    (s.files.permitted = false → s'.files.permitted = false) ∧
      (s.files.idleRequest = false → s'.files.idleRequest = false) ∧
      (s.files.idleAck = false → s'.files.idleAck = false) := by
  cases h <;> simp

/-- A step of the job thread can only take `permitted` away. -/
theorem JobStep.halted {o : JobAct} (h : JobStep cfg s o s') (hh : Halted s) : Halted s' := by
  rw [Halted, h.frame.1]
  exact hh.imp_right (Or.imp_right (And.imp_right h.files.1))

/-- While a shell runs the job thread waits for it. -/
theorem JobStep.noShell {o : JobAct} (h : JobStep cfg s o s')
    (hs : s.shell ≠ .idle → s.job = .free ∧ s.phase = .tested) :
    s.shell = .idle ∧ s'.shell = .idle ∧ s'.quiet = s.quiet := by
  have hidle : s.shell = .idle := by
    by_contra hne
    obtain ⟨hj, hph⟩ := hs hne
    cases h <;> simp_all
  cases h <;> simp [hidle]

/-- The thread that removes the files reaches each position with the files before it removed. -/
theorem JobStep.removed {o : JobAct} (h : JobStep cfg s o s') (hf : cfg.lifecycle = .fileBased)
    (hm : s.job ≠ .markFinished) :
    s'.job ≠ .markFinished ∧
      (s'.job.removedPermitted = true →
        s'.files.permitted = false ∨ s.job.removedPermitted = true) ∧
      (s'.job.removedIdleRequest = true →
        s'.files.idleRequest = false ∨ s.job.removedIdleRequest = true) ∧
      (s'.job = .waitIdle → s'.files.idleAck = false) := by
  cases h with
  | markFinished hj => exact absurd hj hm
  | check => simp [markTestFinished, hf, JobPc.removedPermitted, JobPc.removedIdleRequest]
  | markStarted b =>
    cases b <;> simp [resumeReturns, JobPc.removedPermitted, JobPc.removedIdleRequest]
  | _ => simp_all [JobPc.removedPermitted, JobPc.removedIdleRequest]

/-- The files are fresh once the wait of `pause` has ended, and not before. -/
theorem JobStep.fresh {o : JobAct} (h : JobStep cfg s o s') (hs : s.shell = .idle)
    (hfr : Fresh s') :
    Fresh s ∨ (s.job = .waitIdle ∧ s.isIdleEvt = true ∧ s'.files = s.files) := by
  cases h with
  | waitIdle hj he => exact .inr ⟨hj, he, rfl⟩
  | callResume _ _ hph => exact .inl (.inr (.inl hph))
  | primaries hj => exact .inl (.inl (by rw [hj]; rfl))
  | paused hj => exact .inl (.inl (by rw [hj]; rfl))
  | check =>
    exact .inl (.inr (hfr.resolve_left (by
      cases hl : cfg.lifecycle <;> simp [markTestFinished, hl, JobPc.pastWait])))
  | markStarted b =>
    have hnp : (resumeReturns b).pastWait ≠ true := by
      cases b <;> simp [resumeReturns, JobPc.pastWait]
    exact .inl (.inr (by simpa using hfr.resolve_left hnp))
  | stopLifecycle => simp [Fresh, hs, JobPc.pastWait, ShellPc.beforeRequest] at hfr
  | _ => exact .inl (.inr (hfr.resolve_left (by simp [JobPc.pastWait])))

/-- At the end of the wait of `pause` nothing is acknowledged: a set event means that the thread is
not acknowledging, and that no late `idle_ack` exists. -/
theorem FilesInv.waited (hv : FilesInv s) (hi : IdleOk s) (hj : s.job = .waitIdle)
    (he : s.isIdleEvt = true) :
    s.files.idleRequest = false ∧ s.files.idleAck = false ∧ acking s.thread = false := by
  have hn : acking s.thread = false := by
    unfold IdleOk at hi
    cases hpc : s.thread <;> simp_all [IdleAt, acking]
  have ha : s.files.idleAck = false := by
    by_contra ha
    obtain hpc | ⟨-, he'⟩ := hv.lateAck hj (by simpa using ha)
    · simp [hpc, acking] at hn
    · simp [he] at he'
  exact ⟨hv.noRequest (by rw [hj]; rfl), ha, hn⟩

theorem FilesInv.job {o : JobAct} (hv : FilesInv s) (hi : IdleOk s)
    (hf : cfg.lifecycle = .fileBased) (h : JobStep cfg s o s') : FilesInv s' := by
  obtain ⟨hs, hs', hq⟩ := h.noShell hv.shell
  obtain ⟨hperm, hreq, hack⟩ := h.files
  obtain ⟨hm, hrp, hrr, hra⟩ := h.removed hf hv.files
  refine ⟨fun hne => absurd hs' hne, hm, fun hr => ?_, fun hr => ?_, fun hw ha => ?_, fun hfr => ?_,
    by simp [hs'], fun hq' => h.halted (hv.quiet (hq ▸ hq'))⟩
  · exact (hrp hr).elim id fun hr => hperm (hv.noPermitted hr)
  · exact (hrr hr).elim id fun hr => hreq (hv.noRequest hr)
  · simp [hra hw] at ha
  · rw [h.frame.1]
    obtain hfr | ⟨hj, he, hfiles⟩ := h.fresh hs hfr
    · obtain ⟨hr, ha, hn⟩ := hv.fresh hfr
      exact ⟨hreq hr, hack ha, hn⟩
    · rw [hfiles]
      exact hv.waited hi hj he

/-- A shell runs while the job thread waits for the test. -/
theorem ShellStep.tested {o : ShellAct} (h : ShellStep cfg s o s')
    (hs : s.shell ≠ .idle → s.job = .free ∧ s.phase = .tested) :
    s'.job = .free ∧ s'.phase = .tested := by
  cases h with
  | start _ hj => exact ⟨hj, rfl⟩
  | fails hpc => exact hs (by rintro h; simp [h] at hpc)
  | crash hpc => exact hs hpc
  | setup hpc => exact hs (by simp [hpc])
  | prepare hpc => exact hs (by simp [hpc])
  | working hpc => exact hs (by simp [hpc])
  | requestIdle hpc => exact hs (by simp [hpc])
  | sawAck hpc => exact hs (by simp [hpc])
  | noAck hpc => exact hs (by simp [hpc])
  | teardown hpc => exact hs (by simp [hpc])

/-- Up to its `idle_request`, a shell leaves the other two files alone. -/
theorem ShellStep.fresh {o : ShellAct} (h : ShellStep cfg s o s')
    (hb : s'.shell.beforeRequest = true) :
    Fresh s ∧ s'.files.idleRequest = s.files.idleRequest ∧ s'.files.idleAck = s.files.idleAck := by
  cases h with
  | start _ _ hph => exact ⟨.inr (.inr (.inl hph)), rfl, rfl⟩
  | setup hpc => exact ⟨.inr (.inr (.inr (by rw [hpc]; rfl))), rfl, rfl⟩
  | prepare hpc => exact ⟨.inr (.inr (.inr (by rw [hpc]; rfl))), rfl, rfl⟩
  | working hpc => exact ⟨.inr (.inr (.inr (by rw [hpc]; rfl))), rfl, rfl⟩
  | noAck hpc => exact ⟨.inr (.inr (.inr hb)), rfl, rfl⟩
  | _ => cases hb

/-- A shell that has just created `idle_request` has not been acknowledged. -/
theorem ShellStep.notAcked {o : ShellAct} (h : ShellStep cfg s o s') (hw : s'.shell = .waitAck) :
    s'.files.idleAck = false ∨ (Fresh s ∧ s'.files.idleAck = s.files.idleAck) := by
  cases h with
  | requestIdle hpc => exact .inr ⟨.inr (.inr (.inr (by rw [hpc]; rfl))), rfl⟩
  | noAck _ ha => exact .inl ha
  | _ => cases hw

/-- `quiet` is set by an acknowledgement only, and cleared when `permitted` is created. -/
theorem ShellStep.quiet {o : ShellAct} (h : ShellStep cfg s o s') (hq : s'.quiet = true) :
    (s.quiet = true ∨ (s.shell = .waitAck ∧ s.files.idleAck = true)) ∧
      s'.files.permitted = s.files.permitted := by
  cases h with
  | setup => cases hq
  | sawAck hpc ha => exact ⟨.inr ⟨hpc, ha⟩, rfl⟩
  | _ => exact ⟨.inl hq, rfl⟩

theorem FilesInv.shellStep {o : ShellAct} (hv : FilesInv s) (h : ShellStep cfg s o s') :
    FilesInv s' := by
  obtain ⟨hj, hph⟩ := h.tested hv.shell
  refine ⟨fun _ => ⟨hj, hph⟩, by simp [hj], by simp [hj, JobPc.removedPermitted],
    by simp [hj, JobPc.removedIdleRequest], by simp [hj], fun hfr => ?_, fun hw ha => ?_,
    fun hq => ?_⟩
  · have hb : s'.shell.beforeRequest = true := by
      simpa [Fresh, hj, hph, JobPc.pastWait] using hfr
    obtain ⟨hfr, hreq, hack⟩ := h.fresh hb
    rw [hreq, hack, h.frame.1]
    exact hv.fresh hfr
  · obtain hna | ⟨hfr, hack⟩ := h.notAcked hw
    · simp [hna] at ha
    · rw [hack, (hv.fresh hfr).2.1] at ha
      cases ha
  · obtain ⟨hq, hperm⟩ := h.quiet hq
    rw [Halted, h.frame.1, hperm]
    exact hq.elim hv.quiet fun ⟨hw, ha⟩ => hv.acked hw ha

theorem FilesInv.step (hv : FilesInv s) (hi : IdleOk s) (hf : cfg.lifecycle = .fileBased)
    (h : step cfg s a = some s') : FilesInv s' := by
  obtain ⟨o, -, ht⟩ | ⟨o, -, hj⟩ | ⟨o, -, hs⟩ := step_cases h
  · exact hv.thread hi hf ht
  · exact hv.job hi hf hj
  · exact hv.shellStep hs

theorem filesInv_of_reach {ok : State → Act → Prop} (hf : cfg.lifecycle = .fileBased)
    (h : Reach (Stepdown.step cfg) ok (fun s => ∃ files, s = start files) s) : FilesInv s := by
  refine h.inv_of (J := IdleOk) (fun _ => idleOk_of_reach) ?_
    fun s a s' hi _ hv _ hs => hv.step hi hf hs
  rintro s ⟨files, rfl⟩
  exact filesInv_start files

/-! ## Quiescence -/

theorem Halted.not_stepping (hh : Halted s) : s.thread ≠ .stepDownAll := by
  intro hpc
  simp [Halted, hpc, ThreadPc.dead] at hh

/-- A step out of a halted state does not enter `_step_down_all`. -/
theorem Halted.step_not_stepping (hh : Halted s) (hf : cfg.lifecycle = .fileBased)
    (h : step cfg s a = some s') : s'.thread ≠ .stepDownAll := by
  obtain ⟨o, -, ht⟩ | ⟨o, -, hj⟩ | ⟨o, -, hs⟩ := step_cases h
  · exact (ht.halted hf hh).not_stepping
  · exact (hj.halted hh).not_stepping
  · rw [hs.frame.1]
    exact hh.not_stepping

/-- **The acknowledgement is final.** With the file-based lifecycle, for every interleaving, any
number of tests and any files from before the suite: once a shell has observed `idle_ack`, and until
a shell creates `permitted` again, no stepdown is in progress and no step starts one. -/
theorem quiet_not_stepping (hf : cfg.lifecycle = .fileBased)
    (h : Reach (step cfg) Free (fun s => ∃ files, s = start files) s) (hq : s.quiet = true) :
    s.thread ≠ .stepDownAll ∧
      ∀ a s', step cfg s a = some s' → s'.thread ≠ .stepDownAll := by
  have hh := (filesInv_of_reach hf h).quiet hq
  exact ⟨hh.not_stepping, fun a s' hs => hh.step_not_stepping hf hs⟩

/-- The job thread pauses with files and resumes. -/
def pauseAndResumeFiles : List Act :=
  [.job .callPause, .job .tick, .job .tick, .job .tick, .job .tick, .job .tick, .job .tick,
    .job .tick, .job .callResume, .job .tick]

/-- A shell runs a test up to its wait for `idle_ack`; the thread steps down meanwhile. -/
def testUpToWait : List Act :=
  [.shell .start, .shell .tick, .thread .tick, .thread .tick, .shell .tick, .thread .tick,
    .thread .tick, .thread .due, .shell .tick, .shell .tick]

/-- The thread finishes its stepdown and creates `idle_ack`, and the shell observes it. -/
def acknowledge : List Act :=
  [.thread .tick, .thread .tick, .thread .tick, .thread .tick, .shell .tick]

/-- The shell observes the acknowledgement of a thread that has stepped down. -/
theorem quiet_after_ack :
    ∃ s, Reach (step ⟨.fileBased, true⟩) Free (fun s => ∃ files, s = start files) s ∧
      s.quiet = true ∧ s.thread ≠ .stepDownAll := by
  have hrun : ∃ s, Reach (step ⟨.fileBased, true⟩) Free (fun s => ∃ files, s = start files) s ∧
      s.quiet = true :=
    Reach.exists_of_run (.start ⟨noFiles, rfl⟩) (pauseAndResumeFiles ++ testUpToWait ++ acknowledge)
      (by decide)
  obtain ⟨s, h, hq⟩ := hrun
  exact ⟨s, h, hq, (quiet_not_stepping rfl h hq).1⟩

/-! ## The removal of `permitted` -/

/-- The job thread removes `permitted` only while the thread is not acknowledging, and not on its
way to an idle request that is already there. -/
def SafeRemoval (s : State) : Act → Prop
  | .job .tick => s.job = .removePermitted →
      acking s.thread = false ∧ ¬ (s.files.idleRequest = true ∧ beforePoll s.thread = true)
  | _ => True

instance (s : State) (a : Act) : Decidable (SafeRemoval s a) :=
  match a with
  | .job .tick => inferInstanceAs (Decidable (_ → _ ∧ ¬ (_ ∧ _)))
  | .job .callPause | .job .callResume | .job .callStop | .job .raises =>
    inferInstanceAs (Decidable True)
  | .thread _ | .shell _ => inferInstanceAs (Decidable True)

/-- The file that `os.remove` will look for is there. -/
structure PermittedInv (s : State) : Prop where
  acking : acking s.thread = true → s.files.permitted = true
  beforePoll : beforePoll s.thread = true → s.files.idleRequest = true → s.files.permitted = true
  permitting : s.shell.permitting = true → s.files.permitted = true
  found : s.thread ≠ .terminated .fileNotFound

theorem permittedInv_start (files : StepdownFiles) : PermittedInv (start files) := by
  constructor <;> simp [start, Stepdown.acking, Stepdown.beforePoll, ShellPc.permitting]

/-- No shell is between its two files while the thread acknowledges. -/
theorem FilesInv.not_permitting (hv : FilesInv s) (ha : acking s.thread = true) :
    s.shell.permitting ≠ true := by
  intro hpm
  have hb : s.shell.beforeRequest = true := by
    cases hsh : s.shell <;> rw [hsh] at hpm <;> first | rfl | cases hpm
  have hn := (hv.fresh (.inr (.inr (.inr hb)))).2.2
  rw [ha] at hn
  cases hn

/-- A thread between the permission and the poll needs the file once there is an idle request. -/
theorem PermittedInv.polling (hn : Stepdown.acking s.thread = false)
    (hb : s.files.idleRequest = true → s.files.permitted = true)
    (hpm : s.shell.permitting = true → s.files.permitted = true)
    (hfo : s.thread ≠ .terminated .fileNotFound) : PermittedInv s := by
  refine ⟨fun ha => ?_, fun _ => hb, hpm, hfo⟩
  rw [hn] at ha
  cases ha

/-- Elsewhere the thread needs no file. -/
theorem PermittedInv.elsewhere (hn : Stepdown.acking s.thread = false)
    (hb : Stepdown.beforePoll s.thread = false)
    (hpm : s.shell.permitting = true → s.files.permitted = true)
    (hfo : s.thread ≠ .terminated .fileNotFound) : PermittedInv s := by
  refine ⟨fun ha => ?_, fun hp => ?_, hpm, hfo⟩
  · rw [hn] at ha
    cases ha
  · rw [hb] at hp
    cases hp

theorem PermittedInv.thread {o : ThreadAct} (hp : PermittedInv s) (hv : FilesInv s)
    (hf : cfg.lifecycle = .fileBased) (h : ThreadStep cfg s o s') : PermittedInv s' := by
  obtain ⟨ha, hb, hpm, hfo⟩ := hp
  cases h with
  | permit hpc hper =>
    simp only [permission, hf] at hper
    exact .polling rfl (fun _ => hper) hpm (by simp)
  | wait => exact ⟨ha, hb, hpm, hfo⟩
  | clearIdle hpc => exact .polling rfl (hb (by rw [hpc]; rfl)) hpm (by simp)
  | due hpc => exact .polling rfl (hb (by rw [hpc]; rfl)) hpm (by simp)
  | notDue hpc => exact .polling rfl (hb (by rw [hpc]; rfl)) hpm (by simp)
  | steppedDown hpc => exact .polling rfl (hb (by rw [hpc]; rfl)) hpm (by simp)
  | primaries hpc => exact .polling rfl (hb (by rw [hpc]; rfl)) hpm (by simp)
  | idleRequest hpc hper =>
    simp only [pollForIdleRequest, hf] at hper
    simp only [sendIdleAcknowledgement, hf]
    have hperm := hb (by rw [hpc]; rfl) hper
    exact ⟨fun _ => hperm, fun _ _ => hperm, hpm, by simp⟩
  | ackCreate hpc =>
    have hperm := ha (by rw [hpc]; rfl)
    exact ⟨fun _ => hperm, fun _ _ => hperm, hpm, by simp⟩
  | ackRemove hpc =>
    have hnp := hv.not_permitting (by rw [hpc]; rfl)
    exact .elsewhere rfl rfl (fun h => absurd h hnp) (by simp)
  | ackMissing hpc hper => simp [hpc, Stepdown.acking, hper] at ha
  | _ => exact .elsewhere rfl rfl hpm (by simp)

theorem PermittedInv.job {o : JobAct} (hp : PermittedInv s) (hv : FilesInv s)
    (hok : SafeRemoval s (.job o)) (h : JobStep cfg s o s') : PermittedInv s' := by
  obtain ⟨hs, hs', -⟩ := h.noShell hv.shell
  obtain ⟨ha, hb, -, hfo⟩ := hp
  have hpm : s'.shell.permitting = true → s'.files.permitted = true := by
    simp [hs', ShellPc.permitting]
  cases h with
  | removePermitted hj =>
    obtain ⟨hna, hnb⟩ := hok hj
    exact ⟨by simp [hna], fun h1 h2 => absurd ⟨h2, h1⟩ hnb, hpm, hfo⟩
  | removeIdleRequest => exact ⟨ha, by simp, hpm, hfo⟩
  | markStarted => exact ⟨by simpa using ha, by simpa using hb, hpm, by simpa using hfo⟩
  | _ => exact ⟨ha, hb, hpm, hfo⟩

theorem PermittedInv.shellStep {o : ShellAct} (hp : PermittedInv s) (h : ShellStep cfg s o s') :
    PermittedInv s' := by
  obtain ⟨ha, hb, hpm, hfo⟩ := hp
  cases h with
  | setup => exact ⟨fun _ => rfl, fun _ _ => rfl, fun _ => rfl, hfo⟩
  | prepare hpc => exact ⟨ha, hb, fun _ => hpm (by rw [hpc]; rfl), hfo⟩
  | working hpc => exact ⟨ha, hb, fun _ => hpm (by rw [hpc]; rfl), hfo⟩
  | requestIdle hpc =>
    have hperm := hpm (by rw [hpc]; rfl)
    exact ⟨ha, fun _ _ => hperm, fun _ => hperm, hfo⟩
  | noAck => exact ⟨ha, hb, hpm, hfo⟩
  | _ => exact ⟨ha, hb, by simp [ShellPc.permitting], hfo⟩

theorem PermittedInv.step (hp : PermittedInv s) (hv : FilesInv s)
    (hf : cfg.lifecycle = .fileBased) (hok : SafeRemoval s a) (h : step cfg s a = some s') :
    PermittedInv s' := by
  obtain ⟨o, -, ht⟩ | ⟨o, rfl, hj⟩ | ⟨o, -, hs⟩ := step_cases h
  · exact hp.thread hv hf ht
  · exact hp.job hv hok hj
  · exact hp.shellStep hs

/-- **`os.remove(permitted)` finds its file.** If the job thread never removes `permitted` while the
stepdown thread is acknowledging an idle request or about to see one, then over any number of tests
the thread never fails on a file. -/
theorem no_missing_file (hf : cfg.lifecycle = .fileBased)
    (h : Reach (step cfg) SafeRemoval (fun s => ∃ files, s = start files) s) :
    s.thread ≠ .terminated .fileNotFound := by
  have hp : PermittedInv s := by
    refine h.inv_of (J := FilesInv) (fun _ => filesInv_of_reach hf) ?_
      fun s a s' hv _ hp hok hs => hp.step hv hf hok hs
    rintro s ⟨files, rfl⟩
    exact permittedInv_start files
  exact hp.found

/-- Two tests, each acknowledged before its files are removed. -/
theorem two_acknowledged_tests :
    ∃ s, Reach (step ⟨.fileBased, true⟩) SafeRemoval (fun s => ∃ files, s = start files) s ∧
      s.quiet = true ∧ s.thread ≠ .terminated .fileNotFound := by
  have hrun : ∃ s,
      Reach (step ⟨.fileBased, true⟩) SafeRemoval (fun s => ∃ files, s = start files) s ∧
        s.quiet = true :=
    Reach.exists_of_run (.start ⟨noFiles, rfl⟩)
      (List.flatten [pauseAndResumeFiles, testUpToWait, acknowledge,
        [.thread .tick, .thread .tick, .shell .tick], pauseAndResumeFiles,
        [.shell .start, .shell .tick, .thread .tick, .thread .tick, .thread .notDue, .shell .tick,
          .shell .tick, .shell .tick, .thread .tick, .thread .tick, .shell .tick]]) (by decide)
  obtain ⟨s, h, hq⟩ := hrun
  exact ⟨s, h, hq, no_missing_file rfl h⟩

/-- **The end of the test races with the acknowledgement**: the shell observes `idle_ack`, finishes,
and `mark_test_finished` removes `permitted` before the thread does. -/
theorem removal_races_with_ack :
    ∃ s, Reach (step ⟨.fileBased, true⟩) Free (fun s => ∃ files, s = start files) s ∧
      s.thread = .terminated .fileNotFound :=
  Reach.exists_of_run (.start ⟨noFiles, rfl⟩)
    (List.flatten [pauseAndResumeFiles, testUpToWait, acknowledge,
      [.shell .tick, .job .callPause, .job .tick, .job .tick, .thread .tick]]) (by decide)

end MongoTests.Hooks.Stepdown
