import MongoTests.Lib.Machine

/-!
# Stepping through initial sync

`InitialSyncTest` of `jstests/replsets/libs/initial_sync_test.js`: a test calls `step` to let the
syncing node run one command, by two fail points that are switched on and off, and finds out where the
node is from its log. The waits do not time out.

* `Node`, `nodeStep`: the syncing node. Before each command it checks the two synchronization points;
  at one that is enabled it logs a message and blocks until it is disabled.
* `Script`, `scriptStep`: the statements of `step`, and those of the functions it calls.
* `Inv`: where the node is, by the statement that the test is at.
* **`one_command_per_step`**: what holds between the calls of `step`, in every interleaving.
-/

namespace MongoTests.ReplSets.InitialSyncTest

open MongoTests.Lib

/-! ## The syncing node -/

/-- The messages of the two fail points. -/
inductive Message
  | point1
  | point2
  deriving DecidableEq, Repr

/-- Where the node is. -/
inductive Node
  /-- It replicates, before the test has restarted it. -/
  | replicating
  /-- It was restarted and is not yet in `STARTUP2`. -/
  | starting
  | check1
  | log1
  | paused1
  | check2
  | log2
  | paused2
  | command
  /-- It has run the last command. -/
  | finishing
  /-- It has completed initial sync. -/
  | secondary
  | down
  deriving DecidableEq, Repr

/-- The node with its fail points, its log since the last `clearLog`, and the number of commands that
it has executed. -/
structure Syncing where
  node : Node
  point1 : Bool
  point2 : Bool
  log : List Message
  executed : ℕ
  deriving DecidableEq, Repr

/-- One step of the node; `more` says whether a further command follows. -/
def nodeStep (s : Syncing) (more : Bool) : Option Syncing :=
  match s.node with
  | .starting => some { s with node := .check1 }
  | .check1 => some { s with node := if s.point1 then .log1 else .check2 }
  | .log1 => some { s with node := .paused1, log := s.log ++ [.point1] }
  | .paused1 => if s.point1 then none else some { s with node := .check2 }
  | .check2 => some { s with node := if s.point2 then .log2 else .command }
  | .log2 => some { s with node := .paused2, log := s.log ++ [.point2] }
  | .paused2 => if s.point2 then none else some { s with node := .command }
  | .command => some { s with
      node := if more then .check1 else .finishing
      executed := s.executed + 1 }
  | .finishing => some { s with node := .secondary }
  | .replicating | .secondary | .down => none

/-- `replSetGetStatus` reports `STARTUP2`. -/
def Node.inStartup2 : Node → Bool
  | .check1 | .log1 | .paused1 | .check2 | .log2 | .paused2 | .command | .finishing => true
  | .replicating | .starting | .secondary | .down => false

/-! ## The test -/

/-- `State`. -/
inductive TestState
  | kBeforeInitialSync
  | kDuringInitialSync
  | kInitialSyncCompleted
  | kStopped
  deriving DecidableEq, Repr

def acceptableTransitions : TestState → List TestState
  | .kBeforeInitialSync => [.kDuringInitialSync]
  | .kDuringInitialSync => [.kInitialSyncCompleted]
  | .kInitialSyncCompleted => [.kStopped]
  | .kStopped => []

/-- How a call of `step` has ended. -/
inductive Result
  | returned (completed : Bool)
  | threw
  deriving DecidableEq, Repr

/-- The statement of `step` that comes next; `idle` is between the calls. -/
inductive Script
  | idle
  | step
  -- The first call.
  | restartNodeWithoutData
  | awaitStarted
  | transitionToDuring
  | awaitPaused
  -- `pauseBeforeSyncSourceCommand`
  | enablePoint2
  | disablePoint1
  | awaitPoint2
  | clearLog
  -- `resumeAndPauseBeforeNextSyncSourceCommand`
  | enablePoint1
  | disablePoint2
  | checkContainsOnce
  | hasCompleted
  -- The end of the call.
  | checkCompleted
  | transitionToCompleted
  | releasePoint1
  deriving DecidableEq, Repr

structure State where
  script : Script
  currState : TestState
  /-- The calls of `step`. -/
  calls : ℕ
  /-- How the last call has ended. -/
  last : Option Result
  secondary : Syncing
  deriving DecidableEq, Repr

/-- A call of `step` ends. -/
def State.finish (s : State) (result : Result) : State :=
  { s with script := .idle, last := some result }

/-- `transitionIfAllowed`, which throws if it is not. -/
def State.transitionIfAllowed (s : State) (newState : TestState) (next : Script) : State :=
  if newState ∈ acceptableTransitions s.currState then
    { s with script := next, currState := newState }
  else s.finish .threw

/-- The next statement of the call under way. A wait is passed when its condition holds. -/
def scriptStep (s : State) : Option State :=
  match s.script with
  | .idle => none
  | .step =>
    match s.currState with
    | .kBeforeInitialSync => some { s with script := .restartNodeWithoutData }
    | .kStopped | .kInitialSyncCompleted => some (s.finish .threw)
    | .kDuringInitialSync => some { s with script := .enablePoint2 }
  | .restartNodeWithoutData => some { s with
      script := .awaitStarted, secondary := ⟨.starting, true, false, [], 0⟩ }
  | .awaitStarted =>
    if s.secondary.node.inStartup2 then some { s with script := .transitionToDuring } else none
  | .transitionToDuring => some (s.transitionIfAllowed .kDuringInitialSync .awaitPaused)
  | .awaitPaused =>
    if .point1 ∈ s.secondary.log then some (s.finish (.returned false)) else none
  | .enablePoint2 => some { s with
      script := .disablePoint1, secondary := { s.secondary with point2 := true } }
  | .disablePoint1 => some { s with
      script := .awaitPoint2, secondary := { s.secondary with point1 := false } }
  | .awaitPoint2 => if .point2 ∈ s.secondary.log then some { s with script := .clearLog } else none
  | .clearLog => some { s with
      script := .enablePoint1, secondary := { s.secondary with log := [] } }
  | .enablePoint1 => some { s with
      script := .disablePoint2, secondary := { s.secondary with point1 := true } }
  | .disablePoint2 => some { s with
      script := .checkContainsOnce, secondary := { s.secondary with point2 := false } }
  | .checkContainsOnce =>
    some { s with
      script := if .point1 ∈ s.secondary.log then .checkCompleted else .hasCompleted }
  | .hasCompleted =>
    if s.currState = .kDuringInitialSync then some { s with
      script := if s.secondary.node = .secondary then .checkCompleted else .checkContainsOnce }
    else some (s.finish .threw)
  | .checkCompleted =>
    if s.currState = .kDuringInitialSync then
      if s.secondary.node = .secondary then some { s with script := .transitionToCompleted }
      else some (s.finish (.returned false))
    else some (s.finish .threw)
  | .transitionToCompleted => some (s.transitionIfAllowed .kInitialSyncCompleted .releasePoint1)
  | .releasePoint1 => some ({ s with secondary := { s.secondary with point1 := false } }.finish
      (.returned true))

/-! ## Runs -/

/-- The test calls `step` or `stop`, the call of `step` goes on, or the node does. -/
inductive Label
  | step
  | stop
  | script
  | node (more : Bool)
  deriving DecidableEq, Repr

/-- One step of the test or of the node. A call of `stop` that throws changes nothing. -/
def step (s : State) : Label → Option State
  | .step =>
    if s.script = .idle then some { s with script := .step, calls := s.calls + 1 } else none
  | .stop =>
    if s.script = .idle then
      if .kStopped ∈ acceptableTransitions s.currState then
        some { s with currState := .kStopped, secondary := { s.secondary with node := .down } }
      else some s
    else none
  | .script => scriptStep s
  | .node more => (nodeStep s.secondary more).map fun secondary => { s with secondary }

/-- A new fixture, with a secondary that replicates. -/
def Initial (s : State) : Prop :=
  s.script = .idle ∧ s.currState = .kBeforeInitialSync ∧ s.calls = 0 ∧ s.last = none ∧
    s.secondary.node = .replicating

/-! ## Where the node is -/

/-- The node is blocked at the first point, after `k` commands. -/
structure Paused1 (k : ℕ) (s : Syncing) : Prop where
  node : s.node = .paused1
  point1 : s.point1 = true
  log : .point2 ∉ s.log
  executed : s.executed = k

/-- The node is blocked at the second point, after `k` commands. -/
structure Paused2 (k : ℕ) (s : Syncing) : Prop where
  node : s.node = .paused2
  point2 : s.point2 = true
  executed : s.executed = k

/-- The node was restarted, and it has not passed the first point. -/
structure Starting (s : Syncing) : Prop where
  node : s.node = .starting ∨ s.node = .check1 ∨ s.node = .log1 ∨ s.node = .paused1
  point1 : s.point1 = true
  point2 : s.point2 = false
  log1 : .point1 ∈ s.log → s.node = .paused1
  log2 : .point2 ∉ s.log
  executed : s.executed = 0

/-- The node is on its way from the first point to the second one, after `k` commands. -/
structure ToPoint2 (k : ℕ) (s : Syncing) : Prop where
  node : s.node = .paused1 ∨ s.node = .check2 ∨ s.node = .log2 ∨ s.node = .paused2
  point1 : s.point1 = false
  point2 : s.point2 = true
  log : .point2 ∈ s.log → s.node = .paused2
  executed : s.executed = k

/-- The node was let go at the second point after `k` commands, to run one more. -/
structure Resumed (k : ℕ) (s : Syncing) : Prop where
  node : ((s.node = .paused2 ∨ s.node = .command) ∧ s.executed = k) ∨
    ((s.node = .check1 ∨ s.node = .log1 ∨ s.node = .paused1 ∨ s.node = .finishing ∨
      s.node = .secondary) ∧ s.executed = k + 1)
  point1 : s.point1 = true
  point2 : s.point2 = false
  log1 : .point1 ∈ s.log → s.node = .paused1
  log2 : .point2 ∉ s.log

section Node

variable {k : ℕ} {s s' : Syncing} {more : Bool}

theorem Paused1.blocked (h : Paused1 k s) : nodeStep s more = none := by
  rw [nodeStep, h.node]
  exact if_pos h.point1

theorem Paused2.blocked (h : Paused2 k s) : nodeStep s more = none := by
  rw [nodeStep, h.node]
  exact if_pos h.point2

theorem Starting.nodeStep (h : Starting s) (hs : InitialSyncTest.nodeStep s more = some s') :
    Starting s' := by
  obtain ⟨node, point1, point2, log, executed⟩ := s
  obtain ⟨hnode, rfl, rfl, hlog1, hlog2, rfl⟩ := h
  obtain rfl | rfl | rfl | rfl := hnode
  · cases hs
    exact ⟨.inr (.inl rfl), rfl, rfl, fun h => (nomatch hlog1 h), hlog2, rfl⟩
  · cases hs
    exact ⟨.inr (.inr (.inl rfl)), rfl, rfl, fun h => (nomatch hlog1 h), hlog2, rfl⟩
  · cases hs
    exact ⟨.inr (.inr (.inr rfl)), rfl, rfl, fun _ => rfl, by simpa using hlog2, rfl⟩
  · cases hs

theorem ToPoint2.nodeStep (h : ToPoint2 k s) (hs : InitialSyncTest.nodeStep s more = some s') :
    ToPoint2 k s' := by
  obtain ⟨node, point1, point2, log, executed⟩ := s
  obtain ⟨hnode, rfl, rfl, hlog, rfl⟩ := h
  obtain rfl | rfl | rfl | rfl := hnode
  · cases hs
    exact ⟨.inr (.inl rfl), rfl, rfl, fun h => (nomatch hlog h), rfl⟩
  · cases hs
    exact ⟨.inr (.inr (.inl rfl)), rfl, rfl, fun h => (nomatch hlog h), rfl⟩
  · cases hs
    exact ⟨.inr (.inr (.inr rfl)), rfl, rfl, fun _ => rfl, rfl⟩
  · cases hs

theorem Resumed.nodeStep (h : Resumed k s) (hs : InitialSyncTest.nodeStep s more = some s') :
    Resumed k s' := by
  obtain ⟨node, point1, point2, log, executed⟩ := s
  obtain ⟨hnode, rfl, rfl, hlog1, hlog2⟩ := h
  obtain ⟨rfl | rfl, rfl⟩ | ⟨rfl | rfl | rfl | rfl | rfl, rfl⟩ := hnode
  · cases hs
    exact ⟨.inl ⟨.inr rfl, rfl⟩, rfl, rfl, fun h => (nomatch hlog1 h), hlog2⟩
  · -- The command is executed, and another one follows or not.
    cases more with
    | true =>
      cases hs
      exact ⟨.inr ⟨.inl rfl, rfl⟩, rfl, rfl, fun h => (nomatch hlog1 h), hlog2⟩
    | false =>
      cases hs
      exact ⟨.inr ⟨.inr (.inr (.inr (.inl rfl))), rfl⟩, rfl, rfl, fun h => (nomatch hlog1 h), hlog2⟩
  · cases hs
    exact ⟨.inr ⟨.inr (.inl rfl), rfl⟩, rfl, rfl, fun h => (nomatch hlog1 h), hlog2⟩
  · cases hs
    exact ⟨.inr ⟨.inr (.inr (.inl rfl)), rfl⟩, rfl, rfl, fun _ => rfl, by simpa using hlog2⟩
  · cases hs
  · cases hs
    exact ⟨.inr ⟨.inr (.inr (.inr (.inr rfl))), rfl⟩, rfl, rfl, fun h => (nomatch hlog1 h), hlog2⟩
  · cases hs

/-- Back at the first point, the node has executed one command more. -/
theorem Resumed.paused1 (h : Resumed k s) (hnode : s.node = .paused1) : Paused1 (k + 1) s := by
  refine ⟨hnode, h.point1, h.log2, ?_⟩
  obtain ⟨hbefore, -⟩ | ⟨-, hexecuted⟩ := h.node
  · rw [hnode] at hbefore
    simp at hbefore
  · exact hexecuted

end Node

/-! ## The invariant -/

/-- Between the calls, or at the start of the call after `calls` of them. -/
def Between (calls : ℕ) (currState : TestState) (s : Syncing) : Prop :=
  match currState with
  | .kBeforeInitialSync => calls = 0 ∧ s.node = .replicating
  | .kDuringInitialSync => ∃ k, calls = k + 1 ∧ s.point2 = false ∧ Paused1 k s
  | .kInitialSyncCompleted => s.node = .secondary
  | .kStopped => s.node = .down

/-- How the last call has ended, between the calls. -/
def LastOf (currState : TestState) (last : Option Result) : Prop :=
  match currState with
  | .kBeforeInitialSync => last = none
  | .kDuringInitialSync => last = some (.returned false)
  | .kInitialSyncCompleted | .kStopped => last = some (.returned true) ∨ last = some .threw

/-- Where the node is while the test is at a statement. The call under way is the first one, or one
that has found the node at the first point after `k` commands. -/
def Inv (s : State) : Prop :=
  match s.script with
  | .idle => Between s.calls s.currState s.secondary ∧ LastOf s.currState s.last
  | .step => ∃ calls, s.calls = calls + 1 ∧ Between calls s.currState s.secondary
  | .restartNodeWithoutData => s.calls = 1 ∧ s.currState = .kBeforeInitialSync
  | .awaitStarted | .transitionToDuring =>
    s.calls = 1 ∧ s.currState = .kBeforeInitialSync ∧ Starting s.secondary
  | .awaitPaused => s.calls = 1 ∧ s.currState = .kDuringInitialSync ∧ Starting s.secondary
  | .enablePoint2 => ∃ k, s.calls = k + 2 ∧ s.currState = .kDuringInitialSync ∧
      Paused1 k s.secondary
  | .disablePoint1 => ∃ k, s.calls = k + 2 ∧ s.currState = .kDuringInitialSync ∧
      Paused1 k s.secondary ∧ s.secondary.point2 = true
  | .awaitPoint2 => ∃ k, s.calls = k + 2 ∧ s.currState = .kDuringInitialSync ∧
      ToPoint2 k s.secondary
  | .clearLog => ∃ k, s.calls = k + 2 ∧ s.currState = .kDuringInitialSync ∧ Paused2 k s.secondary
  | .enablePoint1 => ∃ k, s.calls = k + 2 ∧ s.currState = .kDuringInitialSync ∧
      Paused2 k s.secondary ∧ s.secondary.log = []
  | .disablePoint2 => ∃ k, s.calls = k + 2 ∧ s.currState = .kDuringInitialSync ∧
      Paused2 k s.secondary ∧ s.secondary.log = [] ∧ s.secondary.point1 = true
  | .checkContainsOnce | .hasCompleted => ∃ k, s.calls = k + 2 ∧
      s.currState = .kDuringInitialSync ∧ Resumed k s.secondary
  | .checkCompleted => ∃ k, s.calls = k + 2 ∧ s.currState = .kDuringInitialSync ∧
      Resumed k s.secondary ∧ (s.secondary.node = .paused1 ∨ s.secondary.node = .secondary)
  | .transitionToCompleted =>
    s.currState = .kDuringInitialSync ∧ s.secondary.node = .secondary
  | .releasePoint1 => s.currState = .kInitialSyncCompleted ∧ s.secondary.node = .secondary

section Steps

variable {s s' : State}

theorem Between.blocked {calls : ℕ} {currState : TestState} {n : Syncing}
    (h : Between calls currState n) (more : Bool) : nodeStep n more = none := by
  cases currState with
  | kBeforeInitialSync =>
    rw [nodeStep, h.2]
  | kDuringInitialSync =>
    obtain ⟨k, -, -, hpaused⟩ := h
    exact hpaused.blocked
  | kInitialSyncCompleted | kStopped =>
    rw [nodeStep, show n.node = _ from h]

/-- The node moves only while it starts, on its way to the second point, and when it was let go. -/
theorem Inv.nodeStep (h : Inv s) {more : Bool} {n : Syncing}
    (hs : InitialSyncTest.nodeStep s.secondary more = some n) : Inv { s with secondary := n } := by
  obtain ⟨script, currState, calls, last, secondary⟩ := s
  cases script with
  | idle =>
    rw [h.1.blocked] at hs
    cases hs
  | step =>
    obtain ⟨_, -, hbetween⟩ := h
    rw [hbetween.blocked] at hs
    cases hs
  | restartNodeWithoutData => exact h
  | awaitStarted | transitionToDuring | awaitPaused =>
    exact ⟨h.1, h.2.1, h.2.2.nodeStep hs⟩
  | enablePoint2 =>
    obtain ⟨k, -, -, hpaused⟩ := h
    rw [hpaused.blocked] at hs
    cases hs
  | disablePoint1 =>
    obtain ⟨k, -, -, hpaused, -⟩ := h
    rw [hpaused.blocked] at hs
    cases hs
  | awaitPoint2 =>
    obtain ⟨k, hcalls, hstate, hto⟩ := h
    exact ⟨k, hcalls, hstate, hto.nodeStep hs⟩
  | clearLog =>
    obtain ⟨k, -, -, hpaused⟩ := h
    rw [hpaused.blocked] at hs
    cases hs
  | enablePoint1 | disablePoint2 =>
    obtain ⟨k, -, -, hpaused, -⟩ := h
    rw [hpaused.blocked] at hs
    cases hs
  | checkContainsOnce | hasCompleted =>
    obtain ⟨k, hcalls, hstate, hresumed⟩ := h
    exact ⟨k, hcalls, hstate, hresumed.nodeStep hs⟩
  | checkCompleted =>
    obtain ⟨k, hcalls, hstate, hresumed, hnode | hnode⟩ := h
    · rw [(hresumed.paused1 hnode).blocked] at hs
      cases hs
    · rw [InitialSyncTest.nodeStep, hnode] at hs
      cases hs
  | transitionToCompleted | releasePoint1 =>
    rw [InitialSyncTest.nodeStep, h.2] at hs
    cases hs

/-- **The statements of `step`.** -/
theorem Inv.scriptStep (h : Inv s) (hs : InitialSyncTest.scriptStep s = some s') : Inv s' := by
  obtain ⟨script, currState, calls, last, secondary⟩ := s
  cases script with
  | idle => cases hs
  | step =>
    obtain ⟨calls, rfl, hbetween⟩ := h
    cases currState with
    | kBeforeInitialSync =>
      cases hs
      exact ⟨by rw [hbetween.1], rfl⟩
    | kDuringInitialSync =>
      obtain ⟨k, rfl, -, hpaused⟩ := hbetween
      cases hs
      exact ⟨k, rfl, rfl, hpaused⟩
    | kInitialSyncCompleted | kStopped =>
      cases hs
      exact ⟨hbetween, .inr rfl⟩
  | restartNodeWithoutData =>
    cases hs
    exact ⟨h.1, h.2, .inl rfl, rfl, rfl, nofun, nofun, rfl⟩
  | awaitStarted =>
    rw [InitialSyncTest.scriptStep] at hs
    dsimp only at hs
    split_ifs at hs
    cases hs
    exact h
  | transitionToDuring =>
    obtain ⟨hcalls, rfl, hstarting⟩ := h
    cases hs
    exact ⟨hcalls, rfl, hstarting⟩
  | awaitPaused =>
    obtain ⟨rfl, rfl, hstarting⟩ := h
    rw [InitialSyncTest.scriptStep] at hs
    dsimp only at hs
    split_ifs at hs with hlog
    cases hs
    refine ⟨⟨0, rfl, hstarting.point2, ?_⟩, rfl⟩
    exact ⟨hstarting.log1 hlog, hstarting.point1, hstarting.log2, hstarting.executed⟩
  | enablePoint2 =>
    obtain ⟨k, hcalls, hstate, hpaused⟩ := h
    cases hs
    exact ⟨k, hcalls, hstate, ⟨hpaused.node, hpaused.point1, hpaused.log, hpaused.executed⟩, rfl⟩
  | disablePoint1 =>
    obtain ⟨k, hcalls, hstate, hpaused, hpoint2⟩ := h
    cases hs
    exact ⟨k, hcalls, hstate, .inl hpaused.node, rfl, hpoint2, fun h => absurd h hpaused.log,
      hpaused.executed⟩
  | awaitPoint2 =>
    obtain ⟨k, hcalls, hstate, hto⟩ := h
    rw [InitialSyncTest.scriptStep] at hs
    dsimp only at hs
    split_ifs at hs with hlog
    cases hs
    exact ⟨k, hcalls, hstate, hto.log hlog, hto.point2, hto.executed⟩
  | clearLog =>
    obtain ⟨k, hcalls, hstate, hpaused⟩ := h
    cases hs
    exact ⟨k, hcalls, hstate, ⟨hpaused.node, hpaused.point2, hpaused.executed⟩, rfl⟩
  | enablePoint1 =>
    obtain ⟨k, hcalls, hstate, hpaused, hlog⟩ := h
    cases hs
    exact ⟨k, hcalls, hstate, ⟨hpaused.node, hpaused.point2, hpaused.executed⟩, hlog, rfl⟩
  | disablePoint2 =>
    obtain ⟨k, hcalls, hstate, hpaused, hlog, hpoint1⟩ := h
    cases hs
    refine ⟨k, hcalls, hstate, .inl ⟨.inl hpaused.node, hpaused.executed⟩, hpoint1, rfl, ?_, ?_⟩
    · exact fun h => absurd (hlog ▸ h) List.not_mem_nil
    · exact fun h => absurd (hlog ▸ h) List.not_mem_nil
  | checkContainsOnce =>
    obtain ⟨k, hcalls, hstate, hresumed⟩ := h
    cases hs
    by_cases hlog : .point1 ∈ secondary.log
    · rw [if_pos hlog]
      exact ⟨k, hcalls, hstate, hresumed, .inl (hresumed.log1 hlog)⟩
    · rw [if_neg hlog]
      exact ⟨k, hcalls, hstate, hresumed⟩
  | hasCompleted =>
    obtain ⟨k, hcalls, rfl, hresumed⟩ := h
    cases hs
    by_cases hnode : secondary.node = .secondary
    · rw [if_pos hnode]
      exact ⟨k, hcalls, rfl, hresumed, .inr hnode⟩
    · rw [if_neg hnode]
      exact ⟨k, hcalls, rfl, hresumed⟩
  | checkCompleted =>
    obtain ⟨k, hcalls, rfl, hresumed, hnode⟩ := h
    rw [InitialSyncTest.scriptStep] at hs
    dsimp only at hs hnode
    rw [if_pos rfl] at hs
    split_ifs at hs with hcompleted
    · cases hs
      exact ⟨rfl, hcompleted⟩
    · cases hs
      have hpaused := hresumed.paused1 (hnode.resolve_right hcompleted)
      exact ⟨⟨k + 1, hcalls, hresumed.point2, hpaused⟩, rfl⟩
  | transitionToCompleted =>
    obtain ⟨rfl, hnode⟩ := h
    cases hs
    exact ⟨rfl, hnode⟩
  | releasePoint1 =>
    obtain ⟨rfl, hnode⟩ := h
    cases hs
    exact ⟨hnode, .inl rfl⟩

theorem Inv.step (h : Inv s) {l : Label} (hs : InitialSyncTest.step s l = some s') : Inv s' := by
  cases l with
  | step =>
    rw [InitialSyncTest.step] at hs
    split_ifs at hs with hidle
    cases hs
    rw [Inv, hidle] at h
    exact ⟨s.calls, rfl, h.1⟩
  | stop =>
    rw [InitialSyncTest.step] at hs
    split_ifs at hs with hidle hallowed
    · cases hs
      rw [Inv, hidle] at h
      obtain ⟨-, hlast⟩ := h
      rw [Inv, hidle]
      have hcompleted : s.currState = .kInitialSyncCompleted := by
        revert hallowed
        cases s.currState <;> decide
      rw [hcompleted] at hlast
      exact ⟨rfl, hlast⟩
    · cases hs
      exact h
  | script => exact h.scriptStep hs
  | node more =>
    obtain ⟨n, hn, rfl⟩ := Option.map_eq_some_iff.mp hs
    exact h.nodeStep hn

theorem inv_of_reach (h : Reach InitialSyncTest.step Free Initial s) : Inv s := by
  refine Reach.inv (I := Inv) ?_ (fun _ _ _ hinv _ hs => hinv.step hs) h
  rintro s ⟨hscript, hstate, hcalls, hlast, hnode⟩
  rw [Inv, hscript]
  dsimp only
  rw [hstate]
  exact ⟨⟨hcalls, hnode⟩, hlast⟩

/-- **One command for each step.** In every interleaving of the calls with the node: when the last
call of `step` has returned false, the node is blocked at the first synchronization point, and it has
executed one command less than there were calls; when it has returned true, the node has completed
initial sync; and no command is executed while no call is under way. -/
theorem one_command_per_step (h : Reach InitialSyncTest.step Free Initial s)
    (hidle : s.script = .idle) :
    (s.last = some (.returned false) → s.secondary.node = .paused1 ∧ s.secondary.point1 = true ∧
      s.calls = s.secondary.executed + 1) ∧
    (s.last = some (.returned true) → s.currState ≠ .kStopped →
      s.secondary.node = .secondary) ∧
    s.secondary.node ≠ .command ∧ ∀ more, nodeStep s.secondary more = none := by
  have hinv := inv_of_reach h
  rw [Inv, hidle] at hinv
  obtain ⟨hbetween, hlast⟩ := hinv
  refine ⟨fun hfalse => ?_, fun htrue hstopped => ?_, fun hcommand => ?_, hbetween.blocked⟩
  · cases hstate : s.currState with
    | kDuringInitialSync =>
      rw [hstate] at hbetween
      obtain ⟨k, hcalls, -, hpaused⟩ := hbetween
      exact ⟨hpaused.node, hpaused.point1, by rw [hpaused.executed, hcalls]⟩
    | _ =>
      rw [hstate, hfalse] at hlast
      simp [LastOf] at hlast
  · cases hstate : s.currState with
    | kInitialSyncCompleted =>
      rw [hstate] at hbetween
      exact hbetween
    | kStopped => exact absurd hstate hstopped
    | _ =>
      rw [hstate, htrue] at hlast
      simp [LastOf] at hlast
  · have hblocked := hbetween.blocked true
    rw [nodeStep, hcommand] at hblocked
    cases hblocked

end Steps

/-- A fixture before its first call. -/
def fresh : State := ⟨.idle, .kBeforeInitialSync, 0, none, ⟨.replicating, false, false, [], 0⟩⟩

/-- Two calls of `step`, with the node between them. -/
def twoCalls : List Label :=
  [.step, .script, .script, .node true, .script, .script, .node true, .node true, .script,
    .step, .script, .script, .script, .node true, .node true, .node true, .script, .script,
    .script, .script, .node true, .node true, .node true, .node true, .script, .script]

/-- The second call lets the node execute one command. -/
theorem one_command_per_step_two_calls :
    ∃ s : State, s.calls = 2 ∧ s.last = some (.returned false) ∧ s.secondary.node = .paused1 ∧
      s.secondary.executed = 1 := by
  have hrun : ∃ s : State, Reach step Free Initial s ∧ s.script = .idle ∧ s.calls = 2 ∧
      s.last = some (.returned false) :=
    Reach.exists_of_run (.start (s := fresh) ⟨rfl, rfl, rfl, rfl, rfl⟩) twoCalls (by decide)
  obtain ⟨s, hs, hidle, hcalls, hlast⟩ := hrun
  obtain ⟨hnode, -, hexecuted⟩ := (one_command_per_step hs hidle).1 hlast
  exact ⟨s, hcalls, hlast, hnode, by omega⟩

end MongoTests.ReplSets.InitialSyncTest
