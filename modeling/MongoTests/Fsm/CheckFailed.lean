import Mathlib.Algebra.Order.Field.Rat
import Mathlib.Tactic.NormNum
import MongoTests.Fsm.ThreadManager

/-!
# The loop of `checkFailed`

`checkFailed` of `thread_mgr.js` in the steps that the workers can come between: it tests the latch,
asks the threads one after the other whether they have failed, counts the latch down for those that
have, sleeps and tests the latch again. The rest of the system is that of `step`.

* `pollStep`: one step of the parent in `checkFailed`, or of the rest of the system. `countDowns`
  records the calls of `latch.countDown()`, with the thread and the caller.
* `system_reach`: the system underneath runs as `step` allows.
* `pollsLeft`: once every thread has arrived or failed, a bound on the steps to the end of the loop.
* **`latch_accounting`**: one count-down for each thread, and when the loop ends and throws.
-/

namespace MongoTests.Fsm

open MongoTests.Lib

variable {n : ℕ}

/-! ## States -/

/-- The position of the parent in `checkFailed`. -/
inductive CheckPc (n : ℕ)
  /-- About to test `latch.getCount() > 0`. -/
  | head
  /-- In `threads.forEach(handleFailedThread)`, at thread `k`. -/
  | scan (k : ℕ)
  /-- `handleFailedThread` has found that thread `i` has failed. -/
  | found (i : Fin n)
  | sleeping
  | ended (threw : Bool)
  deriving DecidableEq, Repr

/-- Who calls `latch.countDown()`. -/
inductive Caller
  | worker
  | parent
  deriving DecidableEq, Repr

structure Polling (n : ℕ) where
  system : State n
  pc : CheckPc n
  countDowns : List (Fin n × Caller)

inductive PollAct (n : ℕ)
  /-- The parent makes its next step in `checkFailed`. -/
  | check
  | system (a : Act n)
  deriving DecidableEq, Repr

/-! ## Steps -/

/-- The length of the list `failedThreadIndexes`. -/
def failedThreads (s : State n) : ℕ := ∑ i, (s.failedThreadIndexes i).toNat

/-- `failedThreads / threads.length > allowedFailurePercent`; no number exceeds `0 / 0`, nor does it
exceed one. -/
def tooManyFailed (allowedFailurePercent : ℚ) (failedThreads threads : ℕ) : Bool :=
  decide (threads ≠ 0 ∧ allowedFailurePercent < (failedThreads : ℚ) / threads)

/-- The next step of the parent in `checkFailed`. -/
def checkStep (allowedFailurePercent : ℚ) (s : Polling n) : Option (Polling n) :=
  match s.pc with
  | .head =>
    if s.system.latch = 0 then
      some { s with
        system := { s.system with parent := .joining 0 }
        pc := .ended (tooManyFailed allowedFailurePercent (failedThreads s.system)
          s.system.threads) }
    else some { s with pc := .scan 0 }
  | .scan k =>
    if h : k < s.system.threads ∧ k < n then
      if s.system.workers ⟨k, h.2⟩ = .failed ∧ s.system.failedThreadIndexes ⟨k, h.2⟩ = false then
        some { s with pc := .found ⟨k, h.2⟩ }
      else some { s with pc := .scan (k + 1) }
    else some { s with pc := .sleeping }
  | .found i => some {
      system := { s.system with
        latch := s.system.latch - 1
        failedThreadIndexes := Function.update s.system.failedThreadIndexes i true }
      pc := .scan (i + 1)
      countDowns := s.countDowns ++ [(i, .parent)] }
  | .sleeping => some { s with pc := .head }
  | .ended _ => none

/-- The count-downs of the other steps. -/
def Act.countDowns : Act n → List (Fin n × Caller)
  | .worker i .countDown => [(i, .worker)]
  | _ => []

/-- The steps of the parent in `checkFailed`, which `checkStep` makes. -/
def Act.polls : Act n → Bool
  | .handleFailedThread _ | .released => true
  | _ => false

def pollStep (allowedFailurePercent : ℚ) (s : Polling n) : PollAct n → Option (Polling n)
  | .check => if s.system.parent = .checking then checkStep allowedFailurePercent s else none
  | .system a =>
    if a.polls then none
    else (step s.system a).map fun system =>
      { s with system, countDowns := s.countDowns ++ a.countDowns }

/-- After `init`. -/
def PollInit (s : Polling n) : Prop := Init s.system ∧ s.pc = .head ∧ s.countDowns = []

/-- `spawnAll` has returned. -/
def SpawnedAll (s : State n) : Prop :=
  (∀ counts, s.parent ≠ .spawning counts) ∧ s.spawnThrew = false

/-- Every thread has reached the barrier or has failed. -/
def Decided (s : State n) : Prop := ∀ i, (s.workers i).arrived = 1 ∨ s.workers i = .failed

/-! ## The system underneath -/

section System

variable {allowedFailurePercent : ℚ} {s s' : Polling n} {a : PollAct n}

/-- A worker that has failed stays so. -/
theorem Step.failed {t t' : State n} {b : Act n} {i : Fin n} (hsp : Spawned t) (h : Step t b t')
    (hw : t.workers i = .failed) : t'.workers i = .failed := by
  cases h with
  | spawnThread hk hp =>
    have hne : i ≠ ⟨t.started, hk⟩ := by
      rintro rfl
      rw [(hsp.notStarted _).mpr le_rfl] at hw
      cases hw
    exact (Function.update_of_ne hne _ _).trans hw
  | @worker j _ _ w hj =>
    have hne : i ≠ j := by
      rintro rfl
      exact hj.ne_failed hw
    exact (Function.update_of_ne hne _ _).trans hw
  | _ => exact hw

/-- What the parent can do in `checkFailed`: it moves on, counts down for a thread, or leaves. -/
inductive CheckStep (allowedFailurePercent : ℚ) (s : Polling n) : Polling n → Prop
  | enter : s.pc = .head → s.system.latch ≠ 0 →
      CheckStep allowedFailurePercent s { s with pc := .scan 0 }
  | leave : s.pc = .head → s.system.latch = 0 → CheckStep allowedFailurePercent s { s with
      system := { s.system with parent := .joining 0 }
      pc := .ended (tooManyFailed allowedFailurePercent (failedThreads s.system) s.system.threads) }
  | find {i : Fin n} : s.pc = .scan i → s.system.workers i = .failed →
      s.system.failedThreadIndexes i = false →
      CheckStep allowedFailurePercent s { s with pc := .found i }
  | pass {k : ℕ} (h : k < n) : s.pc = .scan k →
      ¬ (s.system.workers ⟨k, h⟩ = .failed ∧ s.system.failedThreadIndexes ⟨k, h⟩ = false) →
      CheckStep allowedFailurePercent s { s with pc := .scan (k + 1) }
  | sleep {k : ℕ} : s.pc = .scan k → ¬ (k < s.system.threads ∧ k < n) →
      CheckStep allowedFailurePercent s { s with pc := .sleeping }
  | countDown {i : Fin n} : s.pc = .found i → CheckStep allowedFailurePercent s {
      system := { s.system with
        latch := s.system.latch - 1
        failedThreadIndexes := Function.update s.system.failedThreadIndexes i true }
      pc := .scan (i + 1)
      countDowns := s.countDowns ++ [(i, .parent)] }
  | wake : s.pc = .sleeping → CheckStep allowedFailurePercent s { s with pc := .head }

theorem CheckStep.of_checkStep (h : checkStep allowedFailurePercent s = some s') :
    CheckStep allowedFailurePercent s s' := by
  unfold checkStep at h
  split at h
  · split_ifs at h with h0
    · cases h
      exact .leave ‹_› h0
    · cases h
      exact .enter ‹_› h0
  · split_ifs at h with hk hf
    · cases h
      exact .find (i := ⟨_, hk.2⟩) ‹_› hf.1 hf.2
    · cases h
      exact .pass hk.2 ‹_› hf
    · cases h
      exact .sleep ‹_› hk
  · cases h
    exact .countDown ‹_›
  · cases h
    exact .wake ‹_›
  · cases h

/-- **Every step is one of the parent in `checkFailed`, or one of the system.** -/
theorem pollStep_cases (h : pollStep allowedFailurePercent s a = some s') :
    (a = .check ∧ s.system.parent = .checking ∧ CheckStep allowedFailurePercent s s') ∨
      ∃ b t, a = .system b ∧ b.polls = false ∧ step s.system b = some t ∧
        s' = { s with system := t, countDowns := s.countDowns ++ b.countDowns } := by
  cases a with
  | check =>
    simp only [pollStep] at h
    split_ifs at h with hp
    exact .inl ⟨rfl, hp, .of_checkStep h⟩
  | system b =>
    simp only [pollStep] at h
    split_ifs at h with hb
    obtain ⟨t, ht, rfl⟩ := Option.map_eq_some_iff.mp h
    exact .inr ⟨b, t, rfl, Bool.eq_false_iff.mpr hb, ht, rfl⟩

/-- What the position of the parent says: before `checkFailed` it has not looked at a thread, it
looks before it counts down, and the answer is that of the loop. -/
structure Looked (allowedFailurePercent : ℚ) (s : Polling n) : Prop where
  before : ∀ counts, s.system.parent = .spawning counts → s.pc = .head
  found : s.system.parent = .checking → ∀ i, s.pc = .found i →
    s.system.workers i = .failed ∧ s.system.failedThreadIndexes i = false
  checking : s.system.parent = .checking → ∀ threw, s.pc ≠ .ended threw
  ended : ∀ threw, s.pc = .ended threw →
    s.system.latch = 0 ∧ SpawnedAll s.system ∧
      threw = tooManyFailed allowedFailurePercent (failedThreads s.system) s.system.threads

/-- In the system underneath, a step of `checkFailed` is `released`, `handleFailedThread` or none. -/
theorem CheckStep.system (h : CheckStep allowedFailurePercent s s')
    (hp : s.system.parent = .checking) (hl : Looked allowedFailurePercent s) :
    s'.system = s.system ∨ ∃ b, step s.system b = some s'.system := by
  cases h with
  | leave hpc h0 => exact .inr ⟨.released, by rw [step, if_pos ⟨hp, h0⟩]⟩
  | @countDown i hpc =>
    obtain ⟨hw, hi⟩ := hl.found hp i hpc
    exact .inr ⟨.handleFailedThread i, by rw [step, if_pos ⟨hp, hw, hi⟩]⟩
  | _ => exact .inl rfl

theorem spawned_latch {t : State n} (h : Reach step Free Init t) : Spawned t ∧ Latch t := by
  refine Reach.inv (I := fun t => Spawned t ∧ Latch t) ?_ ?_ h
  · rintro t ⟨threadCounts, hsum, rfl⟩
    exact ⟨spawned_start hsum, latch_start threadCounts⟩
  · rintro t b t' ⟨hsp, hl⟩ - hs
    exact ⟨hsp.step (step_cases hs), hl.step hsp (step_cases hs)⟩

theorem WorkerStep.latch_le {latch latch' : ℕ} {w w' : Worker} {b : WorkerAct}
    (h : WorkerStep latch w b latch' w') : latch' ≤ latch := by
  cases h <;> omega

/-- A step of the system that is not one of `checkFailed`, as far as the parent sees it. -/
theorem Step.outside {t t' : State n} {b : Act n} (h : Step t b t') (hb : b.polls = false) :
    t'.failedThreadIndexes = t.failedThreadIndexes ∧ t'.latch ≤ t.latch ∧
      (t'.parent = .checking → t.parent = .checking ∨ t.parent = .spawning []) ∧
      ∀ counts, t'.parent = .spawning counts → ∃ counts', t.parent = .spawning counts' := by
  cases h with
  | handleFailedThread | released => cases hb
  | worker hw => exact ⟨rfl, hw.latch_le, .inl, fun counts hc => ⟨counts, hc⟩⟩
  | spawnReturns hp | nextWorkload hp | spawnThread _ hp | throw hp | joined _ hp | allJoined hp =>
    simp [hp]

/-- Once all threads are spawned, they stay so. -/
theorem Step.spawnedAll {t t' : State n} {b : Act n} (h : Step t b t') (hs : SpawnedAll t) :
    SpawnedAll t' ∧ t'.threads = t.threads := by
  obtain ⟨hp, hthrew⟩ := hs
  cases h with
  | spawnReturns h | nextWorkload h | spawnThread _ h | throw h => exact absurd h (hp _)
  | released | joined | allJoined => exact ⟨⟨nofun, hthrew⟩, rfl⟩
  | worker | handleFailedThread => exact ⟨⟨hp, hthrew⟩, rfl⟩

theorem Looked.start (h : PollInit s) : Looked allowedFailurePercent s := by
  obtain ⟨⟨threadCounts, -, hs⟩, hpc, -⟩ := h
  refine ⟨fun _ _ => hpc, fun hp => ?_, fun hp => ?_, fun threw ht => ?_⟩
  · rw [hs] at hp
    cases hp
  · rw [hs] at hp
    cases hp
  · rw [hpc] at ht
    cases ht

theorem CheckStep.looked (h : CheckStep allowedFailurePercent s s')
    (hp : s.system.parent = .checking) (hsp : Spawned s.system) :
    Looked allowedFailurePercent s' := by
  have hne : ∀ counts, s.system.parent ≠ .spawning counts := by
    rw [hp]
    exact nofun
  cases h with
  | leave hpc h0 =>
    refine ⟨nofun, nofun, nofun, fun threw ht => ?_⟩
    cases ht
    exact ⟨h0, ⟨nofun, hsp.checking hp⟩, rfl⟩
  | find hpc hw hf =>
    refine ⟨fun counts hc => absurd hc (hne counts), fun _ j hj => ?_, fun _ => nofun, nofun⟩
    cases hj
    exact ⟨hw, hf⟩
  | _ => exact ⟨fun counts hc => absurd hc (hne counts), fun _ => nofun, fun _ => nofun, nofun⟩

theorem Looked.system (hl : Looked allowedFailurePercent s) (hsp : Spawned s.system) {b : Act n}
    {t : State n} (hb : b.polls = false) (h : step s.system b = some t) :
    Looked allowedFailurePercent
      { s with system := t, countDowns := s.countDowns ++ b.countDowns } := by
  have hstep := step_cases h
  obtain ⟨hflags, hlatch, hcheck, hspawn⟩ := hstep.outside hb
  refine ⟨fun counts hc => ?_, fun hp i hi => ?_, fun hp threw ht => ?_, fun threw ht => ?_⟩
  · obtain ⟨counts', hc'⟩ := hspawn counts hc
    exact hl.before counts' hc'
  · obtain hp' | hp' := hcheck hp
    · obtain ⟨hw, hf⟩ := hl.found hp' i hi
      exact ⟨hstep.failed hsp hw, by rw [hflags]; exact hf⟩
    · rw [hl.before _ hp'] at hi
      cases hi
  · obtain hp' | hp' := hcheck hp
    · exact hl.checking hp' threw ht
    · rw [hl.before _ hp'] at ht
      cases ht
  · obtain ⟨h0, hall, hthrew⟩ := hl.ended threw ht
    obtain ⟨hall', hthreads⟩ := hstep.spawnedAll hall
    refine ⟨Nat.le_zero.mp (h0 ▸ hlatch), hall', ?_⟩
    rw [failedThreads, hflags, hthreads]
    exact hthrew

/-- **Underneath, the system runs as `step` allows.** -/
theorem system_reach (h : Reach (pollStep allowedFailurePercent) Free PollInit s) :
    Reach step Free Init s.system ∧ Looked allowedFailurePercent s := by
  refine Reach.inv (I := fun s => Reach step Free Init s.system ∧ Looked allowedFailurePercent s)
    (fun s hs => ⟨.start hs.1, .start hs⟩) ?_ h
  rintro s a s' ⟨hr, hl⟩ - hs
  have hsp := (spawned_latch hr).1
  obtain ⟨-, hp, hc⟩ | ⟨b, t, -, hb, ht, rfl⟩ := pollStep_cases hs
  · refine ⟨?_, hc.looked hp hsp⟩
    obtain heq | ⟨b, hb⟩ := hc.system hp hl
    · rw [heq]
      exact hr
    · exact .next hr trivial hb
  · exact ⟨.next hr trivial ht, hl.system hsp hb ht⟩

end System

/-! ## Count-downs -/

section Counts

variable {allowedFailurePercent : ℚ} {s s' : Polling n}

theorem WorkerStep.countDowns {latch latch' : ℕ} {w w' : Worker} {b : WorkerAct} (i : Fin n)
    (h : WorkerStep latch w b latch' w') :
    w'.arrived = w.arrived + (Act.worker i b).countDowns.length := by
  cases h <;> rfl

/-- The records of a step that is not one of `checkFailed`. -/
theorem Step.countDowns {t t' : State n} {b : Act n} (h : Step t b t') (hb : b.polls = false)
    (hsp : Spawned t) (hl : Latch t) :
    (∀ i, (t'.workers i).arrived = (t.workers i).arrived + b.countDowns.count (i, .worker)) ∧
      (∀ i, b.countDowns.count (i, .parent) = 0) ∧ t'.latch + b.countDowns.length = t.latch := by
  cases h with
  | handleFailedThread | released => cases hb
  | spawnThread hk hp =>
    refine ⟨fun i => ?_, fun i => rfl, rfl⟩
    by_cases hi : i = ⟨t.started, hk⟩
    · subst hi
      rw [(hsp.notStarted _).mpr le_rfl]
      dsimp only
      rw [Function.update_self]
      rfl
    · exact congrArg Worker.arrived (Function.update_of_ne hi _ _)
  | @worker j c latch w hw =>
    have hrec : (Act.worker j c).countDowns = [] ∨
        (Act.worker j c).countDowns = [(j, .worker)] ∧ c = .countDown := by
      cases c with
      | countDown => exact .inr ⟨rfl, rfl⟩
      | _ => exact .inl rfl
    have harr := hw.countDowns j
    have hflag : t.failedThreadIndexes j = false :=
      Bool.eq_false_iff.mpr fun hf => hw.ne_failed (hl.failed j hf)
    have hlatch := hw.arrived fun h0 => hl.pos h0 hflag
    refine ⟨fun i => ?_, fun i => ?_, by dsimp only; omega⟩
    · dsimp only
      by_cases hi : i = j
      · subst hi
        rw [Function.update_self, harr]
        obtain h | ⟨h, -⟩ := hrec <;> simp [h]
      · rw [Function.update_of_ne hi]
        obtain h | ⟨h, -⟩ := hrec <;> simp [h, Ne.symm hi]
    · obtain h | ⟨h, -⟩ := hrec <;> simp [h]
  | _ => exact ⟨fun _ => rfl, fun _ => rfl, rfl⟩

/-- The records agree with the threads and with the latch. -/
structure Counted (s : Polling n) : Prop where
  worker : ∀ i, s.countDowns.count (i, .worker) = (s.system.workers i).arrived
  parent : ∀ i, s.countDowns.count (i, .parent) = (s.system.failedThreadIndexes i).toNat
  latch : s.system.latch + s.countDowns.length = n

theorem Counted.check (hc : Counted s) (hp : s.system.parent = .checking)
    (hk : Looked allowedFailurePercent s) (hl : Latch s.system)
    (h : CheckStep allowedFailurePercent s s') : Counted s' := by
  cases h with
  | @countDown i hpc =>
    obtain ⟨hw, hi⟩ := hk.found hp i hpc
    have hpos := hl.pos (by rw [hw]; rfl) hi
    refine ⟨fun j => ?_, fun j => ?_, ?_⟩
    · rw [List.count_append, hc.worker j]
      simp
    · rw [List.count_append, hc.parent j]
      dsimp only
      by_cases hj : j = i
      · subst hj
        rw [Function.update_self, hi]
        simp
      · rw [Function.update_of_ne hj]
        simp [Ne.symm hj]
    · have := hc.latch
      rw [List.length_append]
      simp only [List.length_singleton]
      omega
  | _ => exact ⟨hc.worker, hc.parent, hc.latch⟩

theorem Counted.system (hc : Counted s) (hsp : Spawned s.system) (hl : Latch s.system) {b : Act n}
    {t : State n} (hb : b.polls = false) (h : step s.system b = some t) :
    Counted { s with system := t, countDowns := s.countDowns ++ b.countDowns } := by
  have hstep := step_cases h
  obtain ⟨hw, hp, hlatch⟩ := hstep.countDowns hb hsp hl
  refine ⟨fun i => ?_, fun i => ?_, ?_⟩
  · rw [List.count_append, hc.worker i]
    exact (hw i).symm
  · rw [List.count_append, hc.parent i, hp i]
    dsimp only
    rw [(hstep.outside hb).1, Nat.add_zero]
  · have := hc.latch
    rw [List.length_append]
    dsimp only
    omega

theorem counted_of_reach (h : Reach (pollStep allowedFailurePercent) Free PollInit s) :
    Counted s := by
  refine h.inv_of (J := fun s => Reach step Free Init s.system ∧ Looked allowedFailurePercent s)
    (fun s hs => system_reach hs) ?_ ?_
  · rintro s ⟨⟨threadCounts, hsum, hs⟩, -, hd⟩
    refine ⟨fun i => ?_, fun i => ?_, ?_⟩ <;> rw [hs, hd] <;> rfl
  · rintro s a s' ⟨hr, hk⟩ - hc - hs
    obtain ⟨hsp, hl⟩ := spawned_latch hr
    obtain ⟨-, hp, hcs⟩ | ⟨b, t, -, hb, ht, rfl⟩ := pollStep_cases hs
    · exact hc.check hp hk hl hcs
    · exact hc.system hsp hl hb ht

end Counts

/-! ## The end of the loop -/

section Loop

variable {allowedFailurePercent : ℚ} {s s' : Polling n}

/-- The thread that the parent looks at next; all of them are behind it at the end of a round. -/
def CheckPc.position : CheckPc n → ℕ
  | .scan k => k
  | .found i => i
  | .head | .sleeping | .ended _ => n

/-- The steps to the end of the round, not counting those that count down. -/
def CheckPc.round : CheckPc n → ℕ
  | .scan k => n - k + 2
  | .found i => n - i + 1
  | .sleeping => 1
  | .head | .ended _ => 0

/-- A failed thread was passed before it had failed. -/
def Missed (s : Polling n) : Prop :=
  ∃ i : Fin n, i.val < s.pc.position ∧ s.system.workers i = .failed ∧
    s.system.failedThreadIndexes i = false

instance (s : Polling n) : Decidable (Missed s) := by
  unfold Missed
  infer_instance

/-- The steps that the parent has left in `checkFailed`, when no more threads will fail: those of
the round, one for each thread to be found, and a second round if one was missed. -/
def pollsLeft (s : Polling n) : ℕ :=
  s.pc.round + s.system.latch + if Missed s then n + 4 else 1

theorem pollsLeft_le (hl : Latch s.system) : pollsLeft s ≤ 3 * n + 6 := by
  have hlatch := hl.count
  have hround : s.pc.round ≤ n + 2 := by
    cases hpc : s.pc <;> simp only [CheckPc.round] <;> omega
  unfold pollsLeft
  split_ifs <;> omega

/-- When no more threads will fail, the latch counts those that are still to be found. -/
theorem Decided.exists_failed (hd : Decided s.system) (hl : Latch s.system)
    (h0 : s.system.latch ≠ 0) :
    ∃ i, s.system.workers i = .failed ∧ s.system.failedThreadIndexes i = false := by
  by_contra hno
  have hone : ∀ j ∈ Finset.univ,
      1 ≤ (s.system.workers j).arrived + (s.system.failedThreadIndexes j).toNat := by
    intro j _
    obtain hj | hj := hd j
    · omega
    · cases hf : s.system.failedThreadIndexes j with
      | true => exact Nat.le_add_left _ _
      | false => exact absurd ⟨j, hj, hf⟩ hno
  have hsum := Finset.sum_le_sum hone
  rw [Finset.sum_add_distrib, Finset.sum_const, Finset.card_univ, Fintype.card_fin, smul_eq_mul,
    Nat.mul_one] at hsum
  have hcount := hl.count
  omega

/-- Once all threads are decided, every step of the parent brings it closer to the end. -/
theorem CheckStep.pollsLeft_lt (h : CheckStep allowedFailurePercent s s') (hd : Decided s.system)
    (hl : Latch s.system) (hk : Looked allowedFailurePercent s)
    (hp : s.system.parent = .checking) (hn : s.system.threads = n) :
    (∃ threw, s'.pc = .ended threw) ∨
      Decided s'.system ∧ s'.system.parent = .checking ∧ pollsLeft s' < pollsLeft s := by
  have hle : ∀ {t t' : Polling n}, (Missed t' → Missed t) →
      (if Missed t' then n + 4 else 1) ≤ if Missed t then n + 4 else 1 := by
    intro t t' hm
    split_ifs with h1 h2
    · exact le_rfl
    · exact absurd (hm h1) h2
    · omega
    · exact le_rfl
  cases h with
  | leave => exact .inl ⟨_, rfl⟩
  | enter hpc h0 =>
    refine .inr ⟨hd, hp, ?_⟩
    have hmissed : Missed s := by
      obtain ⟨i, hw, hf⟩ := hd.exists_failed hl h0
      exact ⟨i, by rw [hpc]; exact i.isLt, hw, hf⟩
    have hmissed' : ¬ Missed { s with pc := .scan 0 } :=
      fun ⟨i, hi, _⟩ => absurd hi (Nat.not_lt_zero _)
    unfold pollsLeft
    rw [if_pos hmissed, if_neg hmissed', hpc]
    simp only [CheckPc.round]
    omega
  | @find i hpc hw hf =>
    refine .inr ⟨hd, hp, ?_⟩
    have hm := @hle s { s with pc := .found i } fun ⟨j, hj, h⟩ => ⟨j, by rwa [hpc], h⟩
    unfold pollsLeft
    rw [hpc]
    simp only [CheckPc.round]
    omega
  | @pass k hk' hpc hnf =>
    refine .inr ⟨hd, hp, ?_⟩
    have hm := @hle s { s with pc := .scan (k + 1) } fun ⟨j, hj, h⟩ => by
      refine ⟨j, ?_, h⟩
      have hjk : j.val ≠ k := by
        rintro rfl
        exact hnf h
      rw [hpc]
      simp only [CheckPc.position] at hj ⊢
      omega
    unfold pollsLeft
    rw [hpc]
    simp only [CheckPc.round]
    omega
  | @sleep k hpc hend =>
    refine .inr ⟨hd, hp, ?_⟩
    have hkn : n ≤ k := by
      rw [hn] at hend
      omega
    have hm := @hle s { s with pc := .sleeping } fun ⟨j, hj, h⟩ => by
      refine ⟨j, ?_, h⟩
      rw [hpc]
      simp only [CheckPc.position] at hj ⊢
      omega
    unfold pollsLeft
    rw [hpc]
    simp only [CheckPc.round]
    omega
  | @countDown i hpc =>
    refine .inr ⟨hd, hp, ?_⟩
    obtain ⟨hw, hf⟩ := hk.found hp i hpc
    have hpos := hl.pos (by rw [hw]; rfl) hf
    have hi := i.isLt
    unfold pollsLeft
    refine Nat.lt_of_lt_of_le (Nat.add_lt_add_of_lt_of_le ?_ (hle ?_)) le_rfl
    · rw [hpc]
      simp only [CheckPc.round]
      omega
    · rintro ⟨j, hj, hjw, hjf⟩
      have hji : j ≠ i := by
        rintro rfl
        dsimp only at hjf
        rw [Function.update_self] at hjf
        cases hjf
      have hjv : j.val ≠ i.val := fun he => hji (Fin.ext he)
      dsimp only at hjf
      rw [Function.update_of_ne hji] at hjf
      refine ⟨j, ?_, hjw, hjf⟩
      rw [hpc]
      simp only [CheckPc.position] at hj ⊢
      omega
  | wake hpc =>
    refine .inr ⟨hd, hp, ?_⟩
    have hm := @hle s { s with pc := .head } fun ⟨j, hj, h⟩ => ⟨j, by rwa [hpc], h⟩
    unfold pollsLeft
    rw [hpc]
    simp only [CheckPc.round]
    omega

/-- A worker that has arrived or failed changes neither. -/
theorem WorkerStep.decided {latch latch' : ℕ} {w w' : Worker} {b : WorkerAct}
    (h : WorkerStep latch w b latch' w') (hd : w.arrived = 1 ∨ w = .failed) :
    latch' = latch ∧ w'.arrived = 1 ∧ w ≠ .failed ∧ w' ≠ .failed := by
  cases h with
  | throws | countDown => obtain hd | hd := hd <;> cases hd
  | wakes | returns => exact ⟨rfl, rfl, nofun, nofun⟩

/-- The workers do not hold the parent up. -/
theorem pollsLeft_system {b : Act n} {t : State n} {log : List (Fin n × Caller)}
    (hd : Decided s.system) (hp : s.system.parent = .checking) (hb : b.polls = false)
    (h : step s.system b = some t) :
    Decided t ∧ t.parent = .checking ∧
      pollsLeft { s with system := t, countDowns := log } = pollsLeft s := by
  have hstep := step_cases h
  cases hstep with
  | handleFailedThread | released => cases hb
  | spawnReturns hq | nextWorkload hq | spawnThread _ hq | throw hq | joined _ hq | allJoined hq =>
    rw [hp] at hq
    cases hq
  | @worker i c latch w hw =>
    obtain ⟨rfl, harr, hnf, hnf'⟩ := hw.decided (hd i)
    refine ⟨fun j => ?_, hp, ?_⟩
    · dsimp only
      by_cases hj : j = i
      · rw [hj, Function.update_self]
        exact .inl harr
      · rw [Function.update_of_ne hj]
        exact hd j
    · have hfailed : ∀ j, Function.update s.system.workers i w j = .failed ↔
          s.system.workers j = .failed := by
        intro j
        by_cases hj : j = i
        · rw [hj, Function.update_self]
          exact iff_of_false hnf' hnf
        · rw [Function.update_of_ne hj]
      simp only [pollsLeft, Missed, hfailed]

theorem threads_eq_started {t : State n} (h : Reach step Free Init t) :
    t.spawnThrew = false → t.threads = t.started := by
  refine Reach.inv (I := fun t => t.spawnThrew = false → t.threads = t.started) ?_ ?_ h
  · rintro t ⟨threadCounts, -, rfl⟩ -
    rfl
  · rintro t b t' ih - hs
    cases step_cases hs with
    | throw => exact nofun
    | spawnThread hk hp => exact fun hthrew => congrArg (· + 1) (ih hthrew)
    | _ => exact ih

/-- All threads are in the list. -/
theorem SpawnedAll.threads_eq {t : State n} (hs : SpawnedAll t) (h : Reach step Free Init t) :
    t.threads = n :=
  (threads_eq_started h hs.2).trans ((spawned_latch h).1.spawned hs.1 hs.2)

/-- The parent is never stuck in `checkFailed`. -/
theorem checkStep_isSome (hpc : ∀ threw, s.pc ≠ .ended threw) :
    (checkStep allowedFailurePercent s).isSome := by
  unfold checkStep
  split
  · split_ifs <;> rfl
  · split_ifs <;> rfl
  · rfl
  · rfl
  · exact absurd ‹_› (hpc _)

/-- The end of `checkFailed` is final. -/
theorem ended_pollStep {a : PollAct n} {threw : Bool}
    (hk : Looked allowedFailurePercent s) (hpc : s.pc = .ended threw)
    (h : pollStep allowedFailurePercent s a = some s') : s'.pc = .ended threw := by
  obtain ⟨-, hp, -⟩ | ⟨b, t, -, -, -, rfl⟩ := pollStep_cases h
  · exact absurd hpc (hk.checking hp threw)
  · exact hpc

/-- **The loop ends.** In a run from a state in which every thread has arrived or failed, the parent
leaves the loop before it has made more steps than are left. -/
theorem ended_of_run (as : List (PollAct n))
    (h : Reach (pollStep allowedFailurePercent) Free PollInit s)
    (hs : (∃ threw, s.pc = .ended threw) ∨
      Decided s.system ∧ s.system.parent = .checking ∧ pollsLeft s ≤ as.count .check)
    (hrun : run (pollStep allowedFailurePercent) Free s as = some s') :
    ∃ threw, s'.pc = .ended threw := by
  induction as generalizing s with
  | nil =>
    cases hrun
    obtain hs | ⟨-, -, hle⟩ := hs
    · exact hs
    · unfold pollsLeft at hle
      rw [List.count_nil] at hle
      split_ifs at hle <;> omega
  | cons a as ih =>
    rw [run, if_pos (show Free s a from trivial)] at hrun
    obtain ⟨t, hst, hrun⟩ := Option.bind_eq_some_iff.mp hrun
    have ht : Reach (pollStep allowedFailurePercent) Free PollInit t := .next h trivial hst
    obtain ⟨hr, hk⟩ := system_reach h
    refine ih ht ?_ hrun
    obtain ⟨threw, hpc⟩ | ⟨hd, hp, hle⟩ := hs
    · exact .inl ⟨threw, ended_pollStep hk hpc hst⟩
    · obtain ⟨hsp, hl⟩ := spawned_latch hr
      have hn : s.system.threads = n :=
        SpawnedAll.threads_eq ⟨by simp [hp], hsp.checking hp⟩ hr
      obtain ⟨rfl, -, hc⟩ | ⟨b, u, rfl, hb, hu, rfl⟩ := pollStep_cases hst
      · rw [List.count_cons_self] at hle
        refine (hc.pollsLeft_lt hd hl hk hp hn).imp_right ?_
        rintro ⟨hd', hp', hlt⟩
        exact ⟨hd', hp', by omega⟩
      · rw [List.count_cons_of_ne (by simp)] at hle
        obtain ⟨hd', hp', heq⟩ := pollsLeft_system hd hp hb hu
        exact .inr ⟨hd', hp', heq.trans_le hle⟩

end Loop

/-! ## Accounting -/

section Accounting

variable {allowedFailurePercent : ℚ} {s s' : Polling n}

theorem count_fst (log : List (Fin n × Caller)) (i : Fin n) :
    (log.map Prod.fst).count i = log.count (i, .worker) + log.count (i, .parent) := by
  induction log with
  | nil => rfl
  | cons c log ih =>
    obtain ⟨j, c⟩ := c
    rw [List.map_cons, List.count_cons, List.count_cons, List.count_cons, ih]
    cases c <;> by_cases hj : j = i <;> simp [hj] <;> omega

/-- Nobody counts down for a thread that has. -/
theorem Latch.arrived_add_le {t : State n} (hl : Latch t) (i : Fin n) :
    (t.workers i).arrived + (t.failedThreadIndexes i).toNat ≤ 1 := by
  cases hf : t.failedThreadIndexes i with
  | true =>
    rw [hl.failed i hf]
    exact le_rfl
  | false => cases t.workers i <;> decide

/-- The latch is open when every thread has been counted. -/
theorem Latch.eq_zero_iff {t : State n} (hl : Latch t) :
    t.latch = 0 ↔ ∀ i, (t.workers i).arrived + (t.failedThreadIndexes i).toNat = 1 := by
  constructor
  · intro h0 i
    by_contra hne
    have hle := hl.arrived_add_le i
    have hw : (t.workers i).arrived = 0 := by omega
    have hf : t.failedThreadIndexes i = false := by
      cases hf : t.failedThreadIndexes i with
      | true =>
        rw [hf, Bool.toNat_true] at hne
        omega
      | false => rfl
    have := hl.pos hw hf
    omega
  · intro hone
    have hsum := Finset.sum_congr rfl fun i (_ : i ∈ Finset.univ) => hone i
    rw [Finset.sum_add_distrib, Finset.sum_const, Finset.card_univ, Fintype.card_fin, smul_eq_mul,
      Nat.mul_one] at hsum
    have hcount := hl.count
    omega

/-- When the latch is open, the threads that were found are those that have failed. -/
theorem Latch.failedThreads_eq {t : State n} (hl : Latch t) (h0 : t.latch = 0) :
    failedThreads t = (Finset.univ.filter fun i => t.workers i = .failed).card := by
  rw [failedThreads, Finset.card_filter]
  refine Finset.sum_congr rfl fun i _ => ?_
  have hone := hl.eq_zero_iff.mp h0 i
  split_ifs with hw
  · rw [hw] at hone
    simpa [Worker.arrived] using hone
  · cases hf : t.failedThreadIndexes i with
    | true => exact absurd (hl.failed i hf) hw
    | false => rfl

/-- **One count-down for each thread.** When `spawnAll` has returned, in every state of every
interleaving: no thread has been counted twice and the latch is what is left; a worker is counted by
itself when it arrives, and by the parent only when it failed before; the latch is open exactly when
every thread has been counted. The loop of `checkFailed` ends only when every thread has arrived or
failed, and then it ends, whatever the workers do; it throws exactly when the failed threads are too
large a part of all. -/
theorem latch_accounting (h : Reach (pollStep allowedFailurePercent) Free PollInit s)
    (hall : SpawnedAll s.system) :
    (∀ i, (s.countDowns.map Prod.fst).count i ≤ 1) ∧
    s.system.latch + s.countDowns.length = n ∧
    (∀ i, (i, .worker) ∈ s.countDowns ↔ (s.system.workers i).arrived = 1) ∧
    (∀ i, (i, .parent) ∈ s.countDowns →
      s.system.workers i = .failed ∧ (i, .worker) ∉ s.countDowns) ∧
    (s.system.latch = 0 ↔ ∀ i, (s.countDowns.map Prod.fst).count i = 1) ∧
    (∀ threw, s.pc = .ended threw →
      s.system.latch = 0 ∧ Decided s.system ∧
        (threw = true ↔ n ≠ 0 ∧ allowedFailurePercent <
          ((Finset.univ.filter fun i => s.system.workers i = .failed).card : ℚ) / n)) ∧
    (s.system.parent = .checking →
      (pollStep allowedFailurePercent s .check).isSome ∧
      (Decided s.system → ∀ as s', run (pollStep allowedFailurePercent) Free s as = some s' →
        3 * n + 6 ≤ as.count .check → ∃ threw, s'.pc = .ended threw)) := by
  obtain ⟨hr, hk⟩ := system_reach h
  obtain ⟨hsp, hl⟩ := spawned_latch hr
  have hc := counted_of_reach h
  have hcount : ∀ i, (s.countDowns.map Prod.fst).count i =
      (s.system.workers i).arrived + (s.system.failedThreadIndexes i).toNat := by
    intro i
    rw [count_fst, hc.worker, hc.parent]
  have hworker : ∀ i, (i, .worker) ∈ s.countDowns ↔ (s.system.workers i).arrived = 1 := by
    intro i
    rw [← List.count_pos_iff, hc.worker]
    cases s.system.workers i <;> decide
  refine ⟨fun i => ?_, hc.latch, hworker, fun i hi => ?_, ?_, fun threw ht => ?_, fun hp => ?_⟩
  · rw [hcount]
    exact hl.arrived_add_le i
  · rw [← List.count_pos_iff, hc.parent] at hi
    have hflag : s.system.failedThreadIndexes i = true := by
      cases hf : s.system.failedThreadIndexes i with
      | true => rfl
      | false =>
        rw [hf] at hi
        exact absurd hi (lt_irrefl 0)
    have hw := hl.failed i hflag
    refine ⟨hw, ?_⟩
    rw [hworker, hw]
    exact Nat.zero_ne_one
  · simp only [hcount]
    exact hl.eq_zero_iff
  · obtain ⟨h0, -, rfl⟩ := hk.ended threw ht
    refine ⟨h0, fun i => ?_, ?_⟩
    · have hone := hl.eq_zero_iff.mp h0 i
      cases hf : s.system.failedThreadIndexes i with
      | true => exact .inr (hl.failed i hf)
      | false =>
        rw [hf] at hone
        exact .inl hone
    · rw [tooManyFailed, decide_eq_true_iff, hall.threads_eq hr, hl.failedThreads_eq h0]
  · constructor
    · rw [pollStep, if_pos hp]
      exact checkStep_isSome (hk.checking hp)
    · intro hd as s' hrun hle
      exact ended_of_run as h (.inr ⟨hd, hp, (pollsLeft_le hl).trans hle⟩) hrun

end Accounting

/-- Three threads: the first arrives, the second fails and is found, the third fails after the
parent has passed it and is found in the next round. -/
theorem latch_accounting_three :
    ∃ s : Polling 3, Reach (pollStep (1 / 5)) Free PollInit s ∧ s.pc = .ended true ∧
      s.countDowns = [(0, .worker), (1, .parent), (2, .parent)] ∧ Decided s.system := by
  have hrun : ∃ s : Polling 3, Reach (pollStep (1 / 5)) Free PollInit s ∧
      (s.pc matches .ended _) = true ∧ s.system.workers 0 = .awaiting ∧
      s.system.workers 1 = .failed ∧ s.system.workers 2 = .failed ∧
      s.countDowns = [(0, .worker), (1, .parent), (2, .parent)] ∧
      s.system.parent = .joining 0 ∧ s.system.spawnThrew = false :=
    Reach.exists_of_run
      (s := ⟨start 3 [2, 1], .head, []⟩) (.start ⟨⟨[2, 1], rfl, rfl⟩, rfl, rfl⟩)
      (List.flatten [List.replicate 6 (.system .spawn),
        [.check, .system (.worker 1 .throws), .check, .system (.worker 0 .countDown)],
        [.check, .check, .check, .check],
        [.system (.worker 2 .throws), .check, .check],
        List.replicate 7 .check]) (by decide)
  obtain ⟨s, h, hpc, hw0, hw1, hw2, hlog, hp, hthrew⟩ := hrun
  have hacc := latch_accounting h ⟨by simp [hp], hthrew⟩
  cases hend : s.pc with
  | ended threw =>
    obtain ⟨-, hd, hthrow⟩ := hacc.2.2.2.2.2.1 threw hend
    have hmany : threw = true := by
      rw [hthrow, Finset.card_filter, Fin.sum_univ_three, hw0, hw1, hw2, if_neg (by decide)]
      norm_num
    exact ⟨s, h, hmany ▸ hend, hlog, hd⟩
  | _ =>
    rw [hend] at hpc
    cases hpc

end MongoTests.Fsm
