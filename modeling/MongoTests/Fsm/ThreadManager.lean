import Mathlib.Algebra.Order.BigOperators.Group.Finset
import MongoTests.Lib.Machine

/-!
# Starting the worker threads

Embeds `ThreadManager` of `jstests/concurrency/fsm_libs/thread_mgr.js`, the start of
`workerThread.main` and the sequence `spawnAll`, `checkFailed`, `joinAll` of `runWorkloadGroup`. All
workers wait on one latch, which is sized for all threads; a worker counts it down for itself, the
parent for those that have failed.

* `Parent`, `Worker`, `step`: the parent and its workers; an idle round of `checkFailed` is no step.
* `Latch`, `Spawned`: the invariants of the latch and of the threads.
* `Survivable`: `spawnAll` throws only when no worker comes to wait on the latch.
* **`spawn_never_hangs`**: then a run ends, with the parent done and no worker blocked.
* `spawn_hangs`: a worker that waits when `spawnAll` throws.
-/

namespace MongoTests.Fsm

open MongoTests.Lib

variable {n : ℕ}

/-! ## States -/

inductive Worker
  | notStarted
  /-- In `main`, before `args.latch.countDown()`. -/
  | starting
  /-- An exception before the latch was counted down, as `hasFailed()` tells. -/
  | failed
  /-- In `args.latch.await()`. -/
  | awaiting
  | running
  | finished
  deriving DecidableEq, Repr

/-- The position of the parent. -/
inductive Parent
  /-- In `spawnAll`, with the numbers of threads that its workloads are still to get. -/
  | spawning (threadCounts : List ℕ)
  /-- In the loop of `checkFailed`. -/
  | checking
  /-- In `joinAll`, about to join thread `k`. -/
  | joining (k : ℕ)
  | done
  deriving DecidableEq, Repr

/-- The parent, the latch and the `n` workers. `threads` is the length of the list of threads,
`failedThreadIndexes` tells for which of them `checkFailed` has counted down. -/
structure State (n : ℕ) where
  parent : Parent
  spawnThrew : Bool
  latch : ℕ
  started : ℕ
  threads : ℕ
  workers : Fin n → Worker
  failedThreadIndexes : Fin n → Bool

inductive WorkerAct
  | throws
  | countDown
  | wakes
  | returns
  deriving DecidableEq, Repr

inductive Act (n : ℕ)
  /-- `spawnAll` starts the next thread, turns to the next workload or returns. -/
  | spawn
  /-- `spawnAll` throws: before the thread is in the list, or in `t.start()`. -/
  | throw (pushed : Bool)
  | worker (i : Fin n) (a : WorkerAct)
  /-- `handleFailedThread` finds that thread `i` has failed. -/
  | handleFailedThread (i : Fin n)
  /-- `checkFailed` finds the latch at zero, and returns or throws. -/
  | released
  | join
  deriving DecidableEq, Repr

/-! ## Steps -/

def workerStep (latch : ℕ) : Worker → WorkerAct → Option (ℕ × Worker)
  | .starting, .throws => some (latch, .failed)
  | .starting, .countDown => some (latch - 1, .awaiting)
  | .awaiting, .wakes => if latch = 0 then some (latch, .running) else none
  | .running, .returns => some (latch, .finished)
  | _, _ => none

/-- `t.join()` returns for a thread that has ended, and throws for one that was not started. -/
def joinStep (s : State n) (k : ℕ) : Option Parent :=
  if h : k < s.threads ∧ k < n then
    match s.workers ⟨k, h.2⟩ with
    | .failed | .finished => some (.joining (k + 1))
    | .notStarted => some .done
    | _ => none
  else some .done

def step (s : State n) : Act n → Option (State n)
  | .spawn =>
    match s.parent with
    | .spawning [] => some { s with parent := .checking }
    | .spawning (0 :: counts) => some { s with parent := .spawning counts }
    | .spawning ((c + 1) :: counts) =>
      if h : s.started < n then
        some { s with
          parent := .spawning (c :: counts)
          started := s.started + 1
          threads := s.threads + 1
          workers := Function.update s.workers ⟨s.started, h⟩ .starting }
      else none
    | _ => none
  | .throw pushed =>
    match s.parent with
    | .spawning ((_ + 1) :: _) => some { s with
        parent := .joining 0
        spawnThrew := true
        threads := s.threads + pushed.toNat }
    | _ => none
  | .worker i a => (workerStep s.latch (s.workers i) a).map fun (latch, w) =>
      { s with latch, workers := Function.update s.workers i w }
  | .handleFailedThread i =>
    if s.parent = .checking ∧ s.workers i = .failed ∧ s.failedThreadIndexes i = false then
      some { s with
        latch := s.latch - 1
        failedThreadIndexes := Function.update s.failedThreadIndexes i true }
    else none
  | .released =>
    if s.parent = .checking ∧ s.latch = 0 then some { s with parent := .joining 0 } else none
  | .join =>
    match s.parent with
    | .joining k => (joinStep s k).map fun parent => { s with parent }
    | _ => none

/-- After `init`: the latch is made for `n` threads. -/
def start (n : ℕ) (threadCounts : List ℕ) : State n where
  parent := .spawning threadCounts
  spawnThrew := false
  latch := n
  started := 0
  threads := 0
  workers _ := .notStarted
  failedThreadIndexes _ := false

/-- `computeNumThreads`: the thread counts of the workloads add up to the number of threads. -/
def Init (s : State n) : Prop := ∃ threadCounts : List ℕ, threadCounts.sum = n ∧
  s = start n threadCounts

/-- No step is possible. -/
def Stuck (s : State n) : Prop := ∀ a, step s a = none

/-- `spawnAll` throws when no worker has counted the latch down, and none does so after. -/
def Survivable (s : State n) : Act n → Prop
  | .throw _ => ∀ i, s.workers i ≠ .awaiting
  | .worker _ .countDown => s.spawnThrew = false
  | _ => True

instance (s : State n) (a : Act n) : Decidable (Survivable s a) :=
  match a with
  | .throw _ => inferInstanceAs (Decidable (∀ i, s.workers i ≠ .awaiting))
  | .worker _ .countDown => inferInstanceAs (Decidable (s.spawnThrew = false))
  | .worker _ .throws | .worker _ .wakes | .worker _ .returns | .spawn | .handleFailedThread _
  | .released | .join => inferInstanceAs (Decidable True)

/-! ## What a step can do -/

/-- The transitions of a worker, with the latch. -/
inductive WorkerStep (latch : ℕ) : Worker → WorkerAct → ℕ → Worker → Prop
  | throws : WorkerStep latch .starting .throws latch .failed
  | countDown : WorkerStep latch .starting .countDown (latch - 1) .awaiting
  | wakes : latch = 0 → WorkerStep latch .awaiting .wakes latch .running
  | returns : WorkerStep latch .running .returns latch .finished

/-- The transitions of the system, with their guards. -/
inductive Step (s : State n) : Act n → State n → Prop
  | spawnReturns : s.parent = .spawning [] → Step s .spawn { s with parent := .checking }
  | nextWorkload {counts} : s.parent = .spawning (0 :: counts) →
      Step s .spawn { s with parent := .spawning counts }
  | spawnThread {c counts} (h : s.started < n) : s.parent = .spawning ((c + 1) :: counts) →
      Step s .spawn { s with
        parent := .spawning (c :: counts)
        started := s.started + 1
        threads := s.threads + 1
        workers := Function.update s.workers ⟨s.started, h⟩ .starting }
  | throw {c counts pushed} : s.parent = .spawning ((c + 1) :: counts) →
      Step s (.throw pushed) { s with
        parent := .joining 0
        spawnThrew := true
        threads := s.threads + pushed.toNat }
  | worker {i a latch w} : WorkerStep s.latch (s.workers i) a latch w →
      Step s (.worker i a) { s with latch, workers := Function.update s.workers i w }
  | handleFailedThread {i} : s.parent = .checking → s.workers i = .failed →
      s.failedThreadIndexes i = false → Step s (.handleFailedThread i) { s with
        latch := s.latch - 1
        failedThreadIndexes := Function.update s.failedThreadIndexes i true }
  | released : s.parent = .checking → s.latch = 0 →
      Step s .released { s with parent := .joining 0 }
  | joined {k} (h : k < n) : s.parent = .joining k → Step s .join { s with parent := .joining (k + 1) }
  | allJoined {k} : s.parent = .joining k → Step s .join { s with parent := .done }

theorem WorkerStep.of_workerStep {latch latch' : ℕ} {w w' : Worker} {a : WorkerAct}
    (h : workerStep latch w a = some (latch', w')) : WorkerStep latch w a latch' w' := by
  unfold workerStep at h
  split at h
  · cases h
    exact .throws
  · cases h
    exact .countDown
  · split_ifs at h with h0
    cases h
    exact .wakes h0
  · cases h
    exact .returns
  · cases h

/-- **Every step is one of the transitions.** -/
theorem step_cases {s s' : State n} {a : Act n} (h : step s a = some s') : Step s a s' := by
  cases a with
  | spawn =>
    simp only [step] at h
    split at h
    · cases h
      exact .spawnReturns ‹_›
    · cases h
      exact .nextWorkload ‹_›
    · split_ifs at h with hn
      cases h
      exact .spawnThread hn ‹_›
    · cases h
  | throw pushed =>
    simp only [step] at h
    split at h
    · cases h
      exact .throw ‹_›
    · cases h
  | worker i a =>
    obtain ⟨⟨latch, w⟩, hw, rfl⟩ := Option.map_eq_some_iff.mp h
    exact .worker (.of_workerStep hw)
  | handleFailedThread i =>
    simp only [step] at h
    split_ifs at h with hc
    cases h
    exact .handleFailedThread hc.1 hc.2.1 hc.2.2
  | released =>
    simp only [step] at h
    split_ifs at h with hc
    cases h
    exact .released hc.1 hc.2
  | join =>
    simp only [step] at h
    split at h
    · rename_i k hk
      obtain ⟨parent, hp, rfl⟩ := Option.map_eq_some_iff.mp h
      unfold joinStep at hp
      split_ifs at hp with hkn
      · split at hp
        · cases hp
          exact .joined hkn.2 hk
        · cases hp
          exact .joined hkn.2 hk
        · cases hp
          exact .allJoined hk
        · cases hp
      · cases hp
        exact .allJoined hk
    · cases h

/-! ## The threads -/

/-- The threads are started in order, and all of them unless `spawnAll` throws. -/
structure Spawned (s : State n) : Prop where
  notStarted : ∀ i : Fin n, s.workers i = .notStarted ↔ s.started ≤ i.val
  spawning : ∀ counts, s.parent = .spawning counts →
    s.started + counts.sum = n ∧ s.spawnThrew = false
  spawned : (∀ counts, s.parent ≠ .spawning counts) → s.spawnThrew = false → s.started = n
  checking : s.parent = .checking → s.spawnThrew = false
  joining : ∀ k, s.parent = .joining k → k ≤ n

theorem WorkerStep.ne_notStarted {latch latch' : ℕ} {w w' : Worker} {a : WorkerAct}
    (h : WorkerStep latch w a latch' w') : w ≠ .notStarted ∧ w' ≠ .notStarted := by
  cases h <;> simp

section Spawned

variable {s s' : State n} {a : Act n}

theorem spawned_start {threadCounts : List ℕ} (h : threadCounts.sum = n) :
    Spawned (start n threadCounts) where
  notStarted i := ⟨fun _ => Nat.zero_le _, fun _ => rfl⟩
  spawning counts hc := by
    cases hc
    exact ⟨(Nat.zero_add _).trans h, rfl⟩
  spawned hc := absurd rfl (hc threadCounts)
  checking hc := by cases hc
  joining _ hk := by cases hk

theorem Spawned.step (h : Spawned s) (hs : Step s a s') : Spawned s' := by
  obtain ⟨hns, hsp, hall, hch, hj⟩ := h
  cases hs with
  | spawnReturns hp =>
    refine ⟨hns, nofun, fun _ _ => ?_, fun _ => (hsp _ hp).2, nofun⟩
    exact (hsp _ hp).1
  | nextWorkload hp =>
    refine ⟨hns, fun counts hc => ?_, fun hc => absurd rfl (hc _), nofun, nofun⟩
    cases hc
    have := hsp _ hp
    rwa [List.sum_cons, Nat.zero_add] at this
  | spawnThread hk hp =>
    refine ⟨fun i => ?_, fun counts hc => ?_, fun hc => absurd rfl (hc _), nofun, nofun⟩
    · dsimp only
      by_cases hi : i = ⟨s.started, hk⟩
      · rw [hi, Function.update_self]
        simp
      · rw [Function.update_of_ne hi, hns i]
        have : i.val ≠ s.started := fun he => hi (Fin.ext he)
        omega
    · cases hc
      obtain ⟨hsum, hthrew⟩ := hsp _ hp
      refine ⟨?_, hthrew⟩
      simp only [List.sum_cons] at hsum ⊢
      omega
  | throw hp =>
    refine ⟨hns, nofun, fun _ => nofun, nofun, fun k hk => ?_⟩
    cases hk
    exact Nat.zero_le _
  | @worker i _ _ w hw =>
    refine ⟨fun t => ?_, hsp, hall, hch, hj⟩
    dsimp only
    by_cases hti : t = i
    · rw [hti, Function.update_self, ← hns i]
      exact iff_of_false hw.ne_notStarted.2 hw.ne_notStarted.1
    · rw [Function.update_of_ne hti]
      exact hns t
  | handleFailedThread => exact ⟨hns, hsp, hall, hch, hj⟩
  | released hp =>
    refine ⟨hns, nofun, fun _ => hall (by rw [hp]; exact nofun), nofun, fun k hk => ?_⟩
    cases hk
    exact Nat.zero_le _
  | joined hk hp =>
    refine ⟨hns, nofun, fun _ => hall (by rw [hp]; exact nofun), nofun, fun k hk' => ?_⟩
    cases hk'
    exact hk
  | allJoined hp =>
    exact ⟨hns, nofun, fun _ => hall (by rw [hp]; exact nofun), nofun, nofun⟩

end Spawned

/-! ## Termination -/

/-- The steps that a worker can still make. -/
def Worker.weight : Worker → ℕ
  | .notStarted => 4
  | .starting => 3
  | .awaiting => 2
  | .running => 1
  | .failed => 0
  | .finished => 0

def Parent.weight (n : ℕ) : Parent → ℕ
  | .spawning counts => counts.sum + counts.length + n + 3
  | .checking => n + 2
  | .joining k => n + 1 - k
  | .done => 0

/-- A bound on the steps that are left. -/
def measure (s : State n) : ℕ :=
  s.parent.weight n + ∑ i, (s.workers i).weight + ∑ i, (!s.failedThreadIndexes i).toNat

theorem WorkerStep.weight_lt {latch latch' : ℕ} {w w' : Worker} {a : WorkerAct}
    (h : WorkerStep latch w a latch' w') : w'.weight < w.weight := by
  cases h <;> decide

/-- **Every step uses up some of what is left**, so no run goes on forever. -/
theorem measure_lt {s s' : State n} {a : Act n} (h : Spawned s) (hs : Step s a s') :
    measure s' < measure s := by
  unfold measure
  cases hs with
  | spawnReturns hp | nextWorkload hp | throw hp =>
    rw [hp]
    simp only [Parent.weight, List.sum_cons, List.length_cons]
    omega
  | released hp =>
    rw [hp]
    simp only [Parent.weight]
    omega
  | spawnThread hk hp =>
    have hsum := sum_threads_update s.workers Worker.weight ⟨s.started, hk⟩ .starting
    rw [(h.notStarted ⟨s.started, hk⟩).mpr le_rfl] at hsum
    rw [hp]
    simp only [Parent.weight, List.sum_cons, List.length_cons]
    simp only [Worker.weight] at hsum ⊢
    omega
  | @worker i _ _ w hw =>
    have hsum := sum_threads_update s.workers Worker.weight i w
    have hlt := hw.weight_lt
    dsimp only
    omega
  | @handleFailedThread i hp hf hi =>
    have hsum := sum_threads_update s.failedThreadIndexes (fun b => (!b).toNat) i true
    rw [hi] at hsum
    simp only [Bool.not_true, Bool.not_false, Bool.toNat_true, Bool.toNat_false] at hsum
    dsimp only
    omega
  | joined hk hp =>
    rw [hp]
    simp only [Parent.weight]
    omega
  | allJoined hp =>
    have := h.joining _ hp
    rw [hp]
    simp only [Parent.weight]
    omega

/-! ## The latch -/

/-- Whether the worker has counted the latch down. -/
def Worker.arrived : Worker → ℕ
  | .awaiting | .running | .finished => 1
  | .notStarted | .starting | .failed => 0

section WorkerStep

variable {latch latch' : ℕ} {w w' : Worker} {a : WorkerAct}

theorem WorkerStep.ne_failed (h : WorkerStep latch w a latch' w') : w ≠ .failed := by
  cases h <;> simp

theorem WorkerStep.latch_zero (h : WorkerStep latch w a latch' w') (h0 : latch = 0) :
    latch' = 0 := by
  cases h <;> omega

/-- A worker that arrives counts the latch down. -/
theorem WorkerStep.arrived (h : WorkerStep latch w a latch' w') (hpos : w.arrived = 0 → 0 < latch) :
    latch' + w'.arrived = latch + w.arrived := by
  cases h with
  | countDown =>
    have := hpos rfl
    simp only [Worker.arrived]
    omega
  | _ => rfl

theorem WorkerStep.woken (h : WorkerStep latch w a latch' w')
    (hw : w' = .running ∨ w' = .finished) (hr : w = .running → latch = 0) : latch' = 0 := by
  cases h with
  | throws | countDown => obtain hw | hw := hw <;> cases hw
  | wakes h0 => exact h0
  | returns => exact hr rfl

end WorkerStep

/-- The latch counts the threads that have neither arrived nor been found to have failed. -/
structure Latch (s : State n) : Prop where
  count : s.latch + ∑ i, (s.workers i).arrived + ∑ i, (s.failedThreadIndexes i).toNat = n
  failed : ∀ i, s.failedThreadIndexes i = true → s.workers i = .failed
  woken : ∀ i, s.workers i = .running ∨ s.workers i = .finished → s.latch = 0
  released : s.spawnThrew = false → (∀ counts, s.parent ≠ .spawning counts) →
    s.parent ≠ .checking → s.latch = 0

section Latch

variable {s s' : State n} {a : Act n}

theorem latch_start (threadCounts : List ℕ) : Latch (start n threadCounts) where
  count := by simp [start, Worker.arrived]
  failed _ h := by cases h
  woken _ h := by
    obtain h | h := h <;> cases h
  released _ h := absurd rfl (h threadCounts)

/-- While a thread is missing, the latch is not open. -/
theorem Latch.pos (h : Latch s) {i : Fin n} (hw : (s.workers i).arrived = 0)
    (hf : s.failedThreadIndexes i = false) : 0 < s.latch := by
  have hle : ∀ j ∈ Finset.univ, (s.workers j).arrived + (s.failedThreadIndexes j).toNat ≤ 1 := by
    intro j _
    cases hj : s.failedThreadIndexes j with
    | true =>
      rw [h.failed j hj]
      exact le_rfl
    | false => cases s.workers j <;> decide
  have hlt : ∑ j, ((s.workers j).arrived + (s.failedThreadIndexes j).toNat) < ∑ _j : Fin n, 1 := by
    refine Finset.sum_lt_sum hle ⟨i, Finset.mem_univ i, ?_⟩
    rw [hw, hf]
    decide
  have hcount := h.count
  rw [Finset.sum_add_distrib, Finset.sum_const, Finset.card_univ, Fintype.card_fin,
    smul_eq_mul, Nat.mul_one] at hlt
  omega

/-- The latch after a step of worker `i`. -/
theorem Latch.workerStep (h : Latch s) {i : Fin n} {b : WorkerAct} {latch : ℕ} {w : Worker}
    (hw : WorkerStep s.latch (s.workers i) b latch w) :
    Latch { s with latch, workers := Function.update s.workers i w } := by
  have hold : s.failedThreadIndexes i = false :=
    Bool.eq_false_iff.mpr fun ht => hw.ne_failed (h.failed i ht)
  refine ⟨?_, fun t ht => ?_, fun t ht => ?_, fun h1 h2 h3 => hw.latch_zero (h.released h1 h2 h3)⟩
  · have hsum := sum_threads_update s.workers Worker.arrived i w
    have harrived := hw.arrived fun h0 => h.pos h0 hold
    have hcount := h.count
    dsimp only
    omega
  · dsimp only at ht ⊢
    have hti : t ≠ i := by
      rintro rfl
      rw [hold] at ht
      cases ht
    rw [Function.update_of_ne hti]
    exact h.failed t ht
  · dsimp only at ht ⊢
    by_cases hti : t = i
    · rw [hti, Function.update_self] at ht
      exact hw.woken ht fun hr => h.woken i (.inl hr)
    · rw [Function.update_of_ne hti] at ht
      exact hw.latch_zero (h.woken t ht)

theorem Latch.step (h : Latch s) (hsp : Spawned s) (hs : Step s a s') : Latch s' := by
  cases hs with
  | spawnReturns => exact ⟨h.count, h.failed, h.woken, fun _ _ h3 => absurd rfl h3⟩
  | nextWorkload => exact ⟨h.count, h.failed, h.woken, fun _ h2 _ => absurd rfl (h2 _)⟩
  | spawnThread hk hp =>
    have hns := (hsp.notStarted ⟨s.started, hk⟩).mpr le_rfl
    refine ⟨?_, fun t ht => ?_, fun t ht => ?_, fun _ h2 _ => absurd rfl (h2 _)⟩
    · have hsum := sum_threads_update s.workers Worker.arrived ⟨s.started, hk⟩ .starting
      rw [hns] at hsum
      simp only [Worker.arrived, Nat.add_zero] at hsum
      exact (congrArg (s.latch + · + _) hsum).trans h.count
    · have hti : t ≠ ⟨s.started, hk⟩ := by
        rintro rfl
        rw [h.failed _ ht] at hns
        cases hns
      dsimp only
      rw [Function.update_of_ne hti]
      exact h.failed t ht
    · dsimp only at ht ⊢
      by_cases hti : t = ⟨s.started, hk⟩
      · rw [hti, Function.update_self] at ht
        obtain ht | ht := ht <;> cases ht
      · rw [Function.update_of_ne hti] at ht
        exact h.woken t ht
  | throw hp => exact ⟨h.count, h.failed, h.woken, nofun⟩
  | worker hw => exact h.workerStep hw
  | @handleFailedThread i hp hf hi =>
    have hpos := h.pos (by rw [hf]; rfl) hi
    refine ⟨?_, fun t ht => ?_, fun t ht => ?_, fun _ _ h3 => absurd hp h3⟩
    · have hsum := sum_threads_update s.failedThreadIndexes Bool.toNat i true
      have hcount := h.count
      rw [hi, Bool.toNat_true, Bool.toNat_false] at hsum
      dsimp only
      omega
    · by_cases hti : t = i
      · rw [hti]
        exact hf
      · dsimp only at ht
        rw [Function.update_of_ne hti] at ht
        exact h.failed t ht
    · have := h.woken t ht
      dsimp only
      omega
  | released hp h0 => exact ⟨h.count, h.failed, h.woken, fun _ _ _ => h0⟩
  | joined hk hp | allJoined hp =>
    refine ⟨h.count, h.failed, h.woken, fun h1 _ _ => ?_⟩
    exact h.released h1 (by rw [hp]; exact nofun) (by rw [hp]; exact nofun)

end Latch

/-! ## No worker stays blocked -/

/-- After `spawnAll` has thrown, no worker has come to the latch. -/
def Unblocked (s : State n) : Prop := s.spawnThrew = true → ∀ i, (s.workers i).arrived = 0

section Runs

variable {s s' : State n} {a : Act n}

theorem Unblocked.step (h : Unblocked s) (hl : Latch s) (hsp : Spawned s) (hok : Survivable s a)
    (hs : Step s a s') : Unblocked s' := by
  cases hs with
  | @throw c counts pushed hp =>
    intro _ i
    -- a thread is missing, so the latch is closed and no worker has been woken
    have hlatch : 0 < s.latch := by
      obtain ⟨hsum, -⟩ := hsp.spawning _ hp
      rw [List.sum_cons] at hsum
      have hk : s.started < n := by omega
      have hns := (hsp.notStarted ⟨s.started, hk⟩).mpr le_rfl
      refine hl.pos (i := ⟨s.started, hk⟩) (by rw [hns]; rfl) (Bool.eq_false_iff.mpr fun ht => ?_)
      rw [hl.failed _ ht] at hns
      cases hns
    cases hw : s.workers i with
    | notStarted | starting | failed => rfl
    | awaiting => exact absurd hw (hok i)
    | running =>
      have := hl.woken i (.inl hw)
      omega
    | finished =>
      have := hl.woken i (.inr hw)
      omega
  | @worker i b latch w hw =>
    intro hthrew t
    have hzero := h hthrew
    dsimp only
    by_cases hti : t = i
    · rw [hti, Function.update_self]
      have hi := hzero i
      generalize s.workers i = v at hw hi
      cases hw with
      | throws => rfl
      | countDown =>
        rw [show s.spawnThrew = false from hok] at hthrew
        cases hthrew
      | wakes | returns => cases hi
    · rw [Function.update_of_ne hti]
      exact hzero t
  | spawnThread hk hp =>
    intro hthrew
    rw [show s.spawnThrew = false from (hsp.spawning _ hp).2] at hthrew
    cases hthrew
  | _ => exact h

structure Inv (s : State n) : Prop where
  spawned : Spawned s
  latch : Latch s
  unblocked : Unblocked s

theorem inv_of_reach (h : Reach step Survivable Init s) : Inv s := by
  refine h.inv ?_ ?_
  · rintro s ⟨threadCounts, hsum, rfl⟩
    exact ⟨spawned_start hsum, latch_start threadCounts, nofun⟩
  · rintro s a s' ⟨hsp, hl, hu⟩ hok hs
    have hstep := step_cases hs
    exact ⟨hsp.step hstep, hl.step hsp hstep, hu.step hl hsp hok hstep⟩

/-! ### Stuck states -/

theorem Stuck.ne_starting (h : Stuck s) (i : Fin n) : s.workers i ≠ .starting := by
  intro hw
  have hstep := h (.worker i .throws)
  rw [step, hw] at hstep
  cases hstep

theorem Stuck.ne_running (h : Stuck s) (i : Fin n) : s.workers i ≠ .running := by
  intro hw
  have hstep := h (.worker i .returns)
  rw [step, hw] at hstep
  cases hstep

/-- A worker is blocked by a closed latch only. -/
theorem Stuck.ne_awaiting (h : Stuck s) (h0 : s.latch = 0) (i : Fin n) :
    s.workers i ≠ .awaiting := by
  intro hw
  have hstep := h (.worker i .wakes)
  rw [step, hw, workerStep, if_pos h0] at hstep
  cases hstep

/-- The loop of `checkFailed` ends: every thread arrives, or fails and is found. -/
theorem Stuck.ne_checking (h : Stuck s) (hi : Inv s) : s.parent ≠ .checking := by
  intro hp
  have hlatch : s.latch ≠ 0 := by
    intro h0
    have hstep := h .released
    rw [step, if_pos ⟨hp, h0⟩] at hstep
    cases hstep
  have hstarted : s.started = n :=
    hi.spawned.spawned (by rw [hp]; exact nofun) (hi.spawned.checking hp)
  have hone : ∀ j ∈ Finset.univ, 1 ≤ (s.workers j).arrived + (s.failedThreadIndexes j).toNat := by
    intro j _
    cases hw : s.workers j with
    | notStarted =>
      have := (hi.spawned.notStarted j).mp hw
      omega
    | starting => exact absurd hw (h.ne_starting j)
    | running | awaiting | finished => exact Nat.le_add_right _ _
    | failed =>
      cases hf : s.failedThreadIndexes j with
      | true => exact le_rfl
      | false =>
        have hstep := h (.handleFailedThread j)
        rw [step, if_pos ⟨hp, hw, hf⟩] at hstep
        cases hstep
  have hsum := Finset.sum_le_sum hone
  rw [Finset.sum_add_distrib, Finset.sum_const, Finset.card_univ, Fintype.card_fin,
    smul_eq_mul, Nat.mul_one] at hsum
  have hcount := hi.latch.count
  omega

theorem Stuck.ne_spawning (h : Stuck s) (hi : Inv s) (counts : List ℕ) :
    s.parent ≠ .spawning counts := by
  intro hp
  have hstep := h .spawn
  rw [step, hp] at hstep
  cases counts with
  | nil => cases hstep
  | cons c counts =>
    cases c with
    | zero => cases hstep
    | succ c =>
      obtain ⟨hsum, -⟩ := hi.spawned.spawning _ hp
      rw [List.sum_cons] at hsum
      have hk : s.started < n := by omega
      dsimp only at hstep
      rw [dif_pos hk] at hstep
      cases hstep

/-- After the threads were spawned, or `spawnAll` has thrown, no worker is blocked. -/
theorem Stuck.ne_awaiting_of_inv (h : Stuck s) (hi : Inv s)
    (hsp : ∀ counts, s.parent ≠ .spawning counts) (hch : s.parent ≠ .checking) (i : Fin n) :
    s.workers i ≠ .awaiting := by
  cases hthrew : s.spawnThrew with
  | false => exact h.ne_awaiting (hi.latch.released hthrew hsp hch) i
  | true =>
    intro hw
    have hzero := hi.unblocked hthrew i
    rw [hw] at hzero
    cases hzero

theorem Stuck.ne_joining (h : Stuck s) (hi : Inv s) (k : ℕ) : s.parent ≠ .joining k := by
  intro hp
  have hstep := h .join
  rw [step, hp] at hstep
  dsimp only at hstep
  rw [Option.map_eq_none_iff, joinStep] at hstep
  split_ifs at hstep with hk
  cases hw : s.workers ⟨k, hk.2⟩ with
  | starting => exact h.ne_starting _ hw
  | running => exact h.ne_running _ hw
  | awaiting =>
    exact h.ne_awaiting_of_inv hi (by rw [hp]; exact nofun) (by rw [hp]; exact nofun) _ hw
  | failed | finished | notStarted =>
    rw [hw] at hstep
    cases hstep

/-- **The workers never hang the runner**, when `spawnAll` throws only where no worker comes to wait
on the latch: every step of such a run uses up some of what is left, and where no step is possible
any more the parent has joined the threads and no worker is blocked. -/
theorem spawn_never_hangs (h : Reach step Survivable Init s) :
    (∀ a s', step s a = some s' → measure s' < measure s) ∧
      (Stuck s → s.parent = .done ∧ ∀ i, s.workers i ≠ .awaiting) := by
  have hi := inv_of_reach h
  refine ⟨fun a s' hs => measure_lt hi.spawned (step_cases hs), fun hst => ?_⟩
  refine ⟨?_, hst.ne_awaiting_of_inv hi (hst.ne_spawning hi) (hst.ne_checking hi)⟩
  cases hp : s.parent with
  | spawning counts => exact absurd hp (hst.ne_spawning hi counts)
  | checking => exact absurd hp (hst.ne_checking hi)
  | joining k => exact absurd hp (hst.ne_joining hi k)
  | done => rfl

end Runs

/-! ## Two schedules -/

/-- Two threads of two workloads: one arrives, the other fails and is found. -/
theorem spawn_two_ends :
    ∃ s : State 2, Reach step Survivable Init s ∧ Stuck s ∧ s.parent = .done ∧
      ∀ i, s.workers i ≠ .awaiting := by
  have hrun : ∃ s : State 2, Reach step Survivable Init s ∧ s.parent = .done ∧
      s.workers 0 = .finished ∧ s.workers 1 = .failed :=
    Reach.exists_of_run (.start ⟨[1, 1], rfl, rfl⟩)
      [.spawn, .spawn, .worker 0 .countDown, .spawn, .worker 1 .throws, .spawn, .spawn,
        .handleFailedThread 1, .released, .worker 0 .wakes, .worker 0 .returns, .join, .join,
        .join] (by decide)
  obtain ⟨s, h, hp, h0, h1⟩ := hrun
  have hstuck : Stuck s := by
    intro a
    cases a with
    | spawn | throw | handleFailedThread | released | join => simp [step, hp]
    | worker i b =>
      have hi : i = 0 ∨ i = 1 := by omega
      obtain rfl | rfl := hi
      · cases b <;> simp [step, workerStep, h0]
      · cases b <;> simp [step, workerStep, h1]
  exact ⟨s, h, hstuck, (spawn_never_hangs h).2 hstuck⟩

/-- **A worker that hangs the runner.** The first of two threads waits on the latch when `spawnAll`
throws instead of starting the second one: the parent is in `joinAll` and no step is possible. -/
theorem spawn_hangs :
    ∃ s : State 2, Reach step Free Init s ∧ Stuck s ∧ s.parent = .joining 0 ∧
      s.workers 0 = .awaiting := by
  have hrun : ∃ s : State 2, Reach step Free Init s ∧ s.parent = .joining 0 ∧ s.threads = 1 ∧
      s.latch = 1 ∧ s.workers 0 = .awaiting ∧ s.workers 1 = .notStarted :=
    Reach.exists_of_run (.start ⟨[2], rfl, rfl⟩)
      [.spawn, .worker 0 .countDown, .throw false] (by decide)
  obtain ⟨s, h, hp, ht, hl, h0, h1⟩ := hrun
  refine ⟨s, h, fun a => ?_, hp, h0⟩
  cases a with
  | spawn | throw | handleFailedThread | released => simp [step, hp]
  | join => simp [step, hp, joinStep, ht, h0]
  | worker i b =>
    have hi : i = 0 ∨ i = 1 := by omega
    obtain rfl | rfl := hi
    · cases b <;> simp [step, workerStep, h0, hl]
    · cases b <;> simp [step, workerStep, h1]

end MongoTests.Fsm
