import Mathlib.Data.Int.ConditionallyCompleteOrder
import Mathlib.Order.ConditionallyCompleteLattice.Basic
import Mathlib.Order.Interval.Set.Basic
import MongoTests.Lib.Lock
import MongoTests.Lib.Machine

/-!
# Ports

`PortAllocator` of `resmokelib/core/network.py`. Each job has a block of ports, the first of them for
its fixture and the rest for its tests. Threads of any jobs ask for ports; the table of used ports is
read and written under a lock, one access at a time.

* `checkPort`, `minTestPort`, `maxTestPort`, `nextFixturePort`: the arithmetic, with its exceptions.
* `step`: one step of a call; `Moves`: what a step can do.
* `Inv`: each call of a job has a number of its own, below the counter of the job.
* **`fixture_ports`**: the ports that are handed out after a reset.
-/

namespace MongoTests.Resmoke.Network

open MongoTests.Lib

/-! ## Blocks of ports -/

/-- `MAX_PORT`. -/
def maxPort : ℤ := 2 ^ 16 - 1

/-- `_PORTS_PER_JOB`. -/
def portsPerJob : ℤ := 250

/-- `_PORTS_PER_FIXTURE`. -/
def portsPerFixture : ℤ := 20

/-- The messages of a `PortAllocationError`. -/
inductive PortAllocationError
  | negative
  | exhausted
  | fixture
  deriving DecidableEq, Repr

def PortAllocationError.message : PortAllocationError → String
  | .negative => "Attempted to use a negative port"
  | .exhausted => "Exhausted all available ports. Consider decreasing" ++
      " the number of jobs, or using a lower base port"
  | .fixture => "Fixture has requested more than the " ++ toString portsPerFixture ++
      " ports reserved per fixture"

/-- `_check_port`. -/
def checkPort (port : ℤ) : Except PortAllocationError ℤ :=
  if port < 0 then .error .negative
  else if port > maxPort then .error .exhausted
  else .ok port

section Blocks

variable (basePort jobNum : ℤ)

def startPort : ℤ := basePort + jobNum * portsPerJob

def minTestPort : Except PortAllocationError ℤ :=
  checkPort (basePort + jobNum * portsPerJob + portsPerFixture)

def maxTestPort : Except PortAllocationError ℤ :=
  let nextRangeStart := basePort + (jobNum + 1) * portsPerJob
  checkPort (nextRangeStart - 1)

/-- The port for a call of `next_fixture_port` that found `numUsedPorts` in the table. -/
def nextFixturePort (numUsedPorts : ℕ) : Except PortAllocationError ℤ :=
  let nextPort := startPort basePort jobNum + numUsedPorts
  if nextPort ≥ startPort basePort jobNum + portsPerFixture then .error .fixture
  else checkPort nextPort

/-- The ports from the first of the job to the first for its tests. -/
def fixtureBlock : Set ℤ :=
  Set.Ico (startPort basePort jobNum) (startPort basePort jobNum + portsPerFixture)

/-- The ports from the lowest to the highest for the tests of the job. -/
def testBlock : Set ℤ :=
  Set.Icc (startPort basePort jobNum + portsPerFixture) (startPort basePort (jobNum + 1) - 1)

end Blocks

/-! ## Threads -/

/-- Where a thread is: outside of `next_fixture_port`, before its lock, or at the accesses to the
table; then it leaves the lock, with the number that it has read, and checks its port. -/
inductive Pc
  | idle
  | acquire (jobNum : ℤ)
  | read (jobNum : ℤ)
  | increment (jobNum : ℤ) (numUsedPorts : ℕ)
  | release (jobNum : ℤ) (numUsedPorts : ℕ)
  | check (jobNum : ℤ) (numUsedPorts : ℕ)
  deriving DecidableEq, Repr

/-- A call of `next_fixture_port` that has ended, with the number that it has read. -/
structure FixtureCall where
  jobNum : ℤ
  numUsedPorts : ℕ
  result : Except PortAllocationError ℤ

/-- A call of `min_test_port` and one of `max_test_port`. -/
inductive TestCall
  | minTestPort (jobNum : ℤ) (result : Except PortAllocationError ℤ)
  | maxTestPort (jobNum : ℤ) (result : Except PortAllocationError ℤ)

structure State (ι : Type) where
  /-- The thread in `_NUM_USED_PORTS_LOCK`. -/
  lock : Option ι
  /-- `_NUM_USED_PORTS`, with its default. -/
  numUsedPorts : ℤ → ℕ
  pc : ι → Pc
  /-- The calls since the reset that have ended, in order. -/
  fixtureCalls : List FixtureCall
  testCalls : List TestCall

/-- A call, or the next step of one. -/
inductive Act
  | nextFixturePort (jobNum : ℤ)
  | minTestPort (jobNum : ℤ)
  | maxTestPort (jobNum : ℤ)
  | next
  deriving DecidableEq, Repr

section Step

variable {ι : Type} [DecidableEq ι]

def State.goto (s : State ι) (i : ι) (p : Pc) : State ι :=
  { s with pc := Function.update s.pc i p }

/-- A call of `next_fixture_port` ends. -/
def State.finish (s : State ι) (i : ι) (c : FixtureCall) : State ι :=
  { s.goto i .idle with fixtureCalls := s.fixtureCalls ++ [c] }

/-- One step of thread `i`. -/
def step (basePort : ℤ) (s : State ι) : ι × Act → Option (State ι)
  | (i, a) =>
    match s.pc i, a with
    | .idle, .nextFixturePort jobNum => some (s.goto i (.acquire jobNum))
    | .idle, .minTestPort jobNum => some { s with
        testCalls := s.testCalls ++ [.minTestPort jobNum (minTestPort basePort jobNum)] }
    | .idle, .maxTestPort jobNum => some { s with
        testCalls := s.testCalls ++ [.maxTestPort jobNum (maxTestPort basePort jobNum)] }
    | .acquire jobNum, .next =>
      if s.lock.isNone then some { s.goto i (.read jobNum) with lock := some i } else none
    | .read jobNum, .next => some (s.goto i (.increment jobNum (s.numUsedPorts jobNum)))
    | .increment jobNum n, .next => some { s.goto i (.release jobNum n) with
        numUsedPorts := Function.update s.numUsedPorts jobNum (s.numUsedPorts jobNum + 1) }
    | .release jobNum n, .next =>
      let nextPort := startPort basePort jobNum + n
      if nextPort ≥ startPort basePort jobNum + portsPerFixture then
        some { s.finish i ⟨jobNum, n, .error .fixture⟩ with lock := none }
      else some { s.goto i (.check jobNum n) with lock := none }
    | .check jobNum n, .next =>
      some (s.finish i ⟨jobNum, n, checkPort (startPort basePort jobNum + n)⟩)
    | _, _ => none

/-- `reset`. The calls are counted from here. -/
def State.reset (s : State ι) : State ι :=
  { s with numUsedPorts := fun _ => 0, fixtureCalls := [], testCalls := [] }

/-- A reset while no thread is in a call. -/
def AfterReset (s : State ι) : Prop :=
  ∃ s₀ : State ι, s₀.lock = none ∧ (∀ i, s₀.pc i = .idle) ∧ s = s₀.reset

end Step

/-! ## What a step can do -/

section Moves

variable {ι : Type} [DecidableEq ι] {basePort : ℤ} {s s' : State ι}

variable (basePort s) in
inductive Moves (i : ι) : State ι → Prop
  | test (jobNum : ℤ) (c : TestCall) (h : c = .minTestPort jobNum (minTestPort basePort jobNum) ∨
      c = .maxTestPort jobNum (maxTestPort basePort jobNum)) :
      Moves i { s with testCalls := s.testCalls ++ [c] }
  | start (jobNum : ℤ) (h : s.pc i = .idle) : Moves i (s.goto i (.acquire jobNum))
  | acquire (jobNum : ℤ) (h : s.pc i = .acquire jobNum) (hlock : s.lock = none) :
      Moves i { s.goto i (.read jobNum) with lock := some i }
  | read (jobNum : ℤ) (h : s.pc i = .read jobNum) :
      Moves i (s.goto i (.increment jobNum (s.numUsedPorts jobNum)))
  | increment (jobNum : ℤ) (n : ℕ) (h : s.pc i = .increment jobNum n) :
      Moves i { s.goto i (.release jobNum n) with
        numUsedPorts := Function.update s.numUsedPorts jobNum (s.numUsedPorts jobNum + 1) }
  | release (jobNum : ℤ) (n : ℕ) (h : s.pc i = .release jobNum n)
      (hport : startPort basePort jobNum + n < startPort basePort jobNum + portsPerFixture) :
      Moves i { s.goto i (.check jobNum n) with lock := none }
  | refuse (jobNum : ℤ) (n : ℕ) (h : s.pc i = .release jobNum n)
      (hport : startPort basePort jobNum + portsPerFixture ≤ startPort basePort jobNum + n) :
      Moves i { s.finish i ⟨jobNum, n, .error .fixture⟩ with lock := none }
  | check (jobNum : ℤ) (n : ℕ) (h : s.pc i = .check jobNum n) :
      Moves i (s.finish i ⟨jobNum, n, checkPort (startPort basePort jobNum + n)⟩)

theorem moves_of_step {i : ι} {a : Act} (h : step basePort s (i, a) = some s') :
    Moves basePort s i s' := by
  unfold step at h
  dsimp only at h
  split at h
  · cases h
    exact .start _ ‹_›
  · cases h
    exact .test _ _ (.inl rfl)
  · cases h
    exact .test _ _ (.inr rfl)
  · split_ifs at h with hlock
    cases h
    exact .acquire _ ‹_› (Option.isNone_iff_eq_none.mp hlock)
  · cases h
    exact .read _ ‹_›
  · cases h
    exact .increment _ _ ‹_›
  · split_ifs at h with hport
    · cases h
      exact .refuse _ _ ‹_› hport
    · cases h
      exact .release _ _ ‹_› (not_le.mp hport)
  · cases h
    exact .check _ _ ‹_›
  · cases h

end Moves

/-! ## The numbers of the calls -/

/-- The thread is in the lock. -/
def Pc.Critical : Pc → Prop
  | .read _ | .increment _ _ | .release _ _ => True
  | _ => False

/-- The job and the number of a call that has counted. -/
def Pc.ticket : Pc → Option (ℤ × ℕ)
  | .release jobNum n | .check jobNum n => some (jobNum, n)
  | _ => none

def FixtureCall.ticket (c : FixtureCall) : ℤ × ℕ := (c.jobNum, c.numUsedPorts)

/-- What holds at the place of a thread, by what the threads share. -/
structure Local (basePort : ℤ) (numUsedPorts : ℤ → ℕ) (calls : List FixtureCall) (p : Pc) :
    Prop where
  read : ∀ jobNum n, p = .increment jobNum n → n = numUsedPorts jobNum
  ticket : ∀ t, p.ticket = some t → t.2 < numUsedPorts t.1 ∧ t ∉ calls.map FixtureCall.ticket
  /-- A thread that checks its port has passed the first test. -/
  check : ∀ jobNum n, p = .check jobNum n →
    startPort basePort jobNum + n < startPort basePort jobNum + portsPerFixture

/-- The number of a call is below the counter, and no other call has it. -/
structure Inv {ι : Type} (basePort : ℤ) (s : State ι) : Prop where
  guarded : Guarded Pc.Critical s.lock s.pc
  threads : ∀ i, Local basePort s.numUsedPorts s.fixtureCalls (s.pc i)
  distinct : ∀ i j t, (s.pc i).ticket = some t → (s.pc j).ticket = some t → i = j
  ended : ∀ t ∈ s.fixtureCalls.map FixtureCall.ticket, t.2 < s.numUsedPorts t.1
  nodup : (s.fixtureCalls.map FixtureCall.ticket).Nodup
  fixture : ∀ c ∈ s.fixtureCalls, c.result = nextFixturePort basePort c.jobNum c.numUsedPorts
  tests : ∀ c ∈ s.testCalls, ∃ jobNum, c = .minTestPort jobNum (minTestPort basePort jobNum) ∨
    c = .maxTestPort jobNum (maxTestPort basePort jobNum)

section Steps

variable {ι : Type} {basePort : ℤ} {s s' : State ι} {i : ι}

theorem inv_afterReset (h : AfterReset s) : Inv basePort s := by
  obtain ⟨s₀, -, hidle, rfl⟩ := h
  have hpc : s₀.reset.pc = fun _ => .idle := funext hidle
  refine ⟨fun i hi => ?_, fun i => ?_, fun i j t hi => ?_, ?_, List.nodup_nil, ?_, ?_⟩
  · rw [hpc] at hi
    exact absurd hi id
  · rw [hpc]
    exact ⟨nofun, nofun, nofun⟩
  · rw [hpc] at hi
    cases hi
  · exact fun _ h => absurd h List.not_mem_nil
  · exact fun _ h => absurd h List.not_mem_nil
  · exact fun _ h => absurd h List.not_mem_nil

variable [DecidableEq ι]

/-- The numbers of the threads after thread `i` has moved to `p`, when its number is new or its
own. -/
theorem Inv.distinct_update (h : Inv basePort s) {p : Pc}
    (hp : ∀ t, p.ticket = some t → ∀ j, j ≠ i → (s.pc j).ticket ≠ some t) (j k : ι) (t : ℤ × ℕ)
    (hj : (Function.update s.pc i p j).ticket = some t)
    (hk : (Function.update s.pc i p k).ticket = some t) : j = k := by
  by_cases hji : j = i
  · by_cases hki : k = i
    · rw [hji, hki]
    · rw [hji, Function.update_self] at hj
      rw [Function.update_of_ne hki] at hk
      exact absurd hk (hp t hj k hki)
  · rw [Function.update_of_ne hji] at hj
    by_cases hki : k = i
    · rw [hki, Function.update_self] at hk
      exact absurd hj (hp t hk j hji)
    · rw [Function.update_of_ne hki] at hk
      exact h.distinct j k t hj hk

/-- A thread that moves without the table, with no number or its own. -/
theorem Inv.goto (h : Inv basePort s) {p : Pc} {lock : Option ι}
    (hlock : Guarded Pc.Critical lock (Function.update s.pc i p))
    (hlocal : Local basePort s.numUsedPorts s.fixtureCalls p)
    (hticket : ∀ t, p.ticket = some t → (s.pc i).ticket = some t) :
    Inv basePort { s.goto i p with lock } := by
  refine ⟨hlock, ?_, h.distinct_update fun t ht j hj hother => ?_, h.ended, h.nodup, h.fixture,
    h.tests⟩
  · exact (Function.forall_update_iff s.pc fun _ => Local _ _ _).mpr ⟨hlocal, fun j _ => h.threads j⟩
  · exact hj (h.distinct j i t hother (hticket t ht))

/-- A call ends with the port of its number. -/
theorem Inv.finish (h : Inv basePort s) {c : FixtureCall} {lock : Option ι}
    (hlock : Guarded Pc.Critical lock (Function.update s.pc i .idle))
    (hticket : (s.pc i).ticket = some c.ticket)
    (hresult : c.result = nextFixturePort basePort c.jobNum c.numUsedPorts) :
    Inv basePort { s.finish i c with lock } := by
  obtain ⟨hlt, hnew⟩ := (h.threads i).ticket _ hticket
  have hmap : (s.fixtureCalls ++ [c]).map FixtureCall.ticket =
      s.fixtureCalls.map FixtureCall.ticket ++ [c.ticket] := by
    rw [List.map_append, List.map_singleton]
  refine ⟨hlock, ?_, h.distinct_update nofun, ?_, ?_, ?_, h.tests⟩
  · refine (Function.forall_update_iff s.pc fun _ => Local _ _ _).mpr
      ⟨⟨nofun, nofun, nofun⟩, fun j hj => ?_⟩
    have hthread := h.threads j
    refine ⟨hthread.read, fun t ht => ⟨(hthread.ticket t ht).1, ?_⟩, hthread.check⟩
    dsimp only [State.finish, State.goto]
    rw [hmap, List.mem_append, List.mem_singleton, not_or]
    refine ⟨(hthread.ticket t ht).2, ?_⟩
    rintro rfl
    exact hj (h.distinct j i _ ht hticket)
  · dsimp only [State.finish, State.goto]
    rw [hmap, List.forall_mem_append, List.forall_mem_singleton]
    exact ⟨h.ended, hlt⟩
  · dsimp only [State.finish, State.goto]
    rw [hmap]
    exact h.nodup.append (List.nodup_singleton _) (List.disjoint_singleton.mpr hnew)
  · exact List.forall_mem_append.mpr ⟨h.fixture, List.forall_mem_singleton.mpr hresult⟩

/-- The table counts the call that has read it, which gets a new number. -/
theorem Inv.increment (h : Inv basePort s) {jobNum : ℤ} {n : ℕ} (hi : s.pc i = .increment jobNum n) :
    Inv basePort { s.goto i (.release jobNum n) with
      numUsedPorts := Function.update s.numUsedPorts jobNum (s.numUsedPorts jobNum + 1) } := by
  have hcritical : (s.pc i).Critical := by
    rw [hi]
    trivial
  have hn : n = s.numUsedPorts jobNum := (h.threads i).read _ _ hi
  have hmono : ∀ t : ℤ × ℕ, t.2 < s.numUsedPorts t.1 →
      t.2 < Function.update s.numUsedPorts jobNum (s.numUsedPorts jobNum + 1) t.1 := by
    intro t ht
    by_cases hjob : t.1 = jobNum
    · rw [hjob] at ht ⊢
      rw [Function.update_self]
      omega
    · rwa [Function.update_of_ne hjob]
  have hnew : ∀ t : ℤ × ℕ, t.2 < s.numUsedPorts t.1 → t ≠ (jobNum, n) := by
    rintro t ht rfl
    dsimp only at ht
    omega
  refine ⟨h.guarded.move fun _ => h.guarded i hcritical, ?_,
    h.distinct_update fun t ht j _ hj => ?_, fun t ht => hmono t (h.ended t ht), h.nodup,
    h.fixture, h.tests⟩
  · refine (Function.forall_update_iff s.pc fun _ => Local _ _ _).mpr ⟨?_, fun j hj => ?_⟩
    · refine ⟨nofun, fun t ht => ?_, nofun⟩
      cases ht
      refine ⟨?_, fun hmem => hnew _ (h.ended _ hmem) rfl⟩
      dsimp only
      rw [Function.update_self]
      omega
    · have hthread := h.threads j
      refine ⟨fun job m hjob => ?_, fun t ht => ?_, hthread.check⟩
      · exact absurd (by rw [hjob]; trivial) (h.guarded.alone hcritical hj)
      · exact ⟨hmono t (hthread.ticket t ht).1, (hthread.ticket t ht).2⟩
  · cases ht
    exact hnew _ ((h.threads j).ticket _ hj).1 rfl

theorem Inv.step (h : Inv basePort s) (hmove : Moves basePort s i s') : Inv basePort s' := by
  cases hmove with
  | test jobNum c hc =>
    exact ⟨h.guarded, h.threads, h.distinct, h.ended, h.nodup, h.fixture,
      List.forall_mem_append.mpr ⟨h.tests, List.forall_mem_singleton.mpr ⟨jobNum, hc⟩⟩⟩
  | start jobNum hi => exact h.goto (h.guarded.move nofun) ⟨nofun, nofun, nofun⟩ nofun
  | acquire jobNum hi hlock =>
    exact h.goto (hlock ▸ h.guarded).acquire ⟨nofun, nofun, nofun⟩ nofun
  | read jobNum hi =>
    have hlock := h.guarded i (by rw [hi]; trivial)
    refine h.goto (h.guarded.move fun _ => hlock) ⟨?_, nofun, nofun⟩ nofun
    rintro _ _ ⟨⟩
    rfl
  | increment jobNum n hi => exact h.increment hi
  | release jobNum n hi hport =>
    have hlock := h.guarded.release (p := .check jobNum n) (by rw [hi]; trivial) id
    have hticket : (s.pc i).ticket = some (jobNum, n) := by
      rw [hi]
      rfl
    refine h.goto hlock ⟨nofun, ?_, ?_⟩ ?_
    · rintro _ ⟨⟩
      exact (h.threads i).ticket _ hticket
    · rintro _ _ ⟨⟩
      exact hport
    · rintro _ ⟨⟩
      exact hticket
  | refuse jobNum n hi hport =>
    refine h.finish (h.guarded.release (by rw [hi]; trivial) id) (by rw [hi]; rfl) ?_
    rw [nextFixturePort]
    dsimp only
    rw [if_pos hport]
  | check jobNum n hi =>
    refine h.finish (h.guarded.move nofun) (by rw [hi]; rfl) ?_
    have hport := (h.threads i).check _ _ hi
    rw [nextFixturePort]
    dsimp only
    rw [if_neg (not_le.mpr hport)]

theorem inv_of_reach (h : Reach (Network.step basePort) Free AfterReset s) : Inv basePort s :=
  Reach.inv (fun _ hs => inv_afterReset hs)
    (fun _ _ _ hinv _ hstep => hinv.step (moves_of_step hstep)) h

end Steps

/-! ## The ports -/

section Ports

variable {basePort jobNum jobNum' port : ℤ} {n : ℕ}

theorem checkPort_eq_ok {p : ℤ} : checkPort port = .ok p ↔ p = port ∧ 0 ≤ port ∧ port ≤ maxPort := by
  unfold checkPort
  split_ifs with hneg hmax
  · simp only [false_iff]
    omega
  · simp only [false_iff]
    omega
  · simp only [Except.ok.injEq]
    omega

theorem nextFixturePort_eq_ok : nextFixturePort basePort jobNum n = .ok port ↔
    (n : ℤ) < portsPerFixture ∧ port = startPort basePort jobNum + n ∧ 0 ≤ port ∧
      port ≤ maxPort := by
  unfold nextFixturePort
  dsimp only
  split_ifs with hfixture
  · simp only [false_iff]
    omega
  · rw [checkPort_eq_ok]
    omega

theorem startPort_eq (basePort jobNum : ℤ) : startPort basePort jobNum = basePort + jobNum * 250 :=
  rfl

/-- The blocks of the fixtures are disjoint. -/
theorem eq_of_mem_fixtureBlock (h : port ∈ fixtureBlock basePort jobNum)
    (h' : port ∈ fixtureBlock basePort jobNum') : jobNum = jobNum' := by
  simp only [fixtureBlock, Set.mem_Ico, startPort_eq, portsPerFixture] at h h'
  omega

/-- The ports for the tests of any job are none of the fixtures. -/
theorem notMem_testBlock (h : port ∈ fixtureBlock basePort jobNum) :
    port ∉ testBlock basePort jobNum' := by
  simp only [fixtureBlock, testBlock, Set.mem_Ico, Set.mem_Icc, startPort_eq,
    portsPerFixture] at h ⊢
  omega

theorem isLeast_minTestPort (h : minTestPort basePort jobNum = .ok port) :
    IsLeast (testBlock basePort jobNum) port := by
  obtain ⟨rfl, -, -⟩ := checkPort_eq_ok.mp h
  refine ⟨?_, fun q hq => hq.1⟩
  simp only [testBlock, Set.mem_Icc, startPort_eq, portsPerFixture, portsPerJob]
  omega

theorem isGreatest_maxTestPort (h : maxTestPort basePort jobNum = .ok port) :
    IsGreatest (testBlock basePort jobNum) port := by
  obtain ⟨rfl, -, -⟩ := checkPort_eq_ok.mp h
  refine ⟨?_, fun q hq => hq.2⟩
  simp only [testBlock, Set.mem_Icc, startPort_eq, portsPerFixture, portsPerJob]
  omega

end Ports

/-- The ports that calls have returned, with the jobs. -/
def State.handedOut {ι : Type} (s : State ι) : List (ℤ × ℤ) :=
  s.fixtureCalls.filterMap fun c => c.result.toOption.map (c.jobNum, ·)

/-- A test port that a call has returned is an end of the range of its job. -/
def TestCall.Right (basePort : ℤ) : TestCall → Prop
  | .minTestPort jobNum result => ∀ port, result = .ok port → IsLeast (testBlock basePort jobNum) port
  | .maxTestPort jobNum result =>
    ∀ port, result = .ok port → IsGreatest (testBlock basePort jobNum) port

section Runs

variable {ι : Type} {basePort : ℤ} {s : State ι}

theorem returned_iff {c : FixtureCall} {a : ℤ × ℤ} :
    c.result.toOption.map (c.jobNum, ·) = some a ↔ c.result = .ok a.2 ∧ c.jobNum = a.1 := by
  cases c.result with
  | error e => simp [Except.toOption]
  | ok port =>
    simp only [Except.toOption, Option.map_some, Option.some.injEq, Prod.ext_iff, Except.ok.injEq]
    exact and_comm

theorem mem_handedOut {a : ℤ × ℤ} : a ∈ s.handedOut ↔
    ∃ c ∈ s.fixtureCalls, c.result = .ok a.2 ∧ c.jobNum = a.1 := by
  simp only [State.handedOut, List.mem_filterMap, returned_iff]

/-- Different calls get different ports. -/
theorem Inv.nodup_ports (h : Inv basePort s) : (s.handedOut.map Prod.snd).Nodup := by
  have hports : ∀ c ∈ s.fixtureCalls, ∀ c' ∈ s.fixtureCalls, c.ticket ≠ c'.ticket →
      ∀ port, c.result = .ok port → c'.result ≠ .ok port := by
    intro c hc c' hc' hne port hport hport'
    rw [h.fixture c hc, nextFixturePort_eq_ok] at hport
    rw [h.fixture c' hc', nextFixturePort_eq_ok] at hport'
    simp only [startPort_eq, portsPerFixture] at hport hport'
    refine hne (Prod.ext ?_ ?_)
    · change c.jobNum = c'.jobNum
      omega
    · change c.numUsedPorts = c'.numUsedPorts
      omega
  have hdistinct := List.pairwise_map.mp h.nodup
  rw [List.Nodup, List.pairwise_map, State.handedOut, List.pairwise_filterMap]
  refine hdistinct.imp_of_mem fun {c c'} hc hc' hne a ha a' ha' heq => ?_
  refine hports c hc c' hc' hne a.2 (returned_iff.mp ha).1 ?_
  rw [heq]
  exact (returned_iff.mp ha').1

/-- **Ports of fixtures.** After a reset, in every interleaving of calls by any threads for any jobs:
a port for a fixture is handed out once, it is in the block of its job, it is a valid port, and it is
neither a port for tests nor in the block of another job. A call that hands out none has raised: the
job has had all ports of its block, or the next one is not valid. -/
theorem fixture_ports [DecidableEq ι] (h : Reach (step basePort) Free AfterReset s) :
    (s.handedOut.map Prod.snd).Nodup ∧
    (∀ a ∈ s.handedOut, a.2 ∈ fixtureBlock basePort a.1 ∧ 0 ≤ a.2 ∧ a.2 ≤ maxPort ∧
      (∀ jobNum, a.2 ∉ testBlock basePort jobNum) ∧
      ∀ jobNum, jobNum ≠ a.1 → a.2 ∉ fixtureBlock basePort jobNum) ∧
    (∀ c ∈ s.fixtureCalls, (∃ port, c.result = .ok port ∧ (c.jobNum, port) ∈ s.handedOut) ∨
      (∃ e, c.result = .error e) ∧ (portsPerFixture ≤ c.numUsedPorts ∨
        startPort basePort c.jobNum + c.numUsedPorts ∉ Set.Icc 0 maxPort)) ∧
    ∀ c ∈ s.testCalls, c.Right basePort := by
  have hinv := inv_of_reach h
  refine ⟨hinv.nodup_ports, fun a ha => ?_, fun c hc => ?_, fun c hc => ?_⟩
  · obtain ⟨c, hc, hresult, hjob⟩ := mem_handedOut.mp ha
    rw [hinv.fixture c hc, nextFixturePort_eq_ok, hjob] at hresult
    obtain ⟨hlt, hport, hpos, hmax⟩ := hresult
    have hblock : a.2 ∈ fixtureBlock basePort a.1 := by
      rw [fixtureBlock, Set.mem_Ico]
      omega
    exact ⟨hblock, hpos, hmax, fun _ => notMem_testBlock hblock,
      fun _ hne hother => hne (eq_of_mem_fixtureBlock hother hblock)⟩
  · cases hresult : c.result with
    | ok port => exact .inl ⟨port, rfl, mem_handedOut.mpr ⟨c, hc, hresult, rfl⟩⟩
    | error e =>
      refine .inr ⟨⟨e, rfl⟩, ?_⟩
      by_contra hvalid
      rw [not_or, not_le, not_not, Set.mem_Icc] at hvalid
      have hok := nextFixturePort_eq_ok.mpr ⟨hvalid.1, rfl, hvalid.2⟩
      rw [← hinv.fixture c hc, hresult] at hok
      cases hok
  · obtain ⟨jobNum, rfl | rfl⟩ := hinv.tests c hc
    · exact fun port => isLeast_minTestPort
    · exact fun port => isGreatest_maxTestPort

end Runs

/-- Two threads and nothing else. -/
def twoThreads : State (Fin 2) := ⟨none, fun _ => 0, fun _ => .idle, [], []⟩

/-- Two jobs ask at the same time. -/
theorem fixture_ports_two_jobs :
    ∃ s : State (Fin 2), s.handedOut = [(0, 20000), (1, 20250)] ∧
      (s.handedOut.map Prod.snd).Nodup := by
  have hrun : ∃ s : State (Fin 2), Reach (step 20000) Free AfterReset s ∧
      s.handedOut = [(0, 20000), (1, 20250)] :=
    Reach.exists_of_run (.start ⟨twoThreads, rfl, fun _ => rfl, rfl⟩)
      [(0, .nextFixturePort 0), (1, .nextFixturePort 1), (0, .next), (0, .next), (0, .next),
        (0, .next), (1, .next), (1, .next), (0, .next), (1, .next), (1, .next), (1, .next)]
      (by decide)
  obtain ⟨s, hs, hports⟩ := hrun
  exact ⟨s, hports, (fixture_ports hs).1⟩

end MongoTests.Resmoke.Network
