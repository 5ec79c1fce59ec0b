import MongoTests.ReplSets.RollbackTest

/-!
# Transitions that are not allowed

The two rollback fixtures when they are asked for a transition that their state does not allow. The
calls of the five-node fixture are given here with the servers' answers, as those of the three-node
one are; a call that returns is a step of `RollbackTestDeluxe`, where nothing fails.

* `Calls`: the calls of the five-node fixture; `returns_step`, `returns_topology`: those that return.
* `reconnect_eq_self`, `replicate_eq_self`: when an action of a fixture does nothing.
* `throws_*`: what each call that is not allowed leaves behind; `harmless_of_topology`.
* **`rejected_iff`**: in a run with exceptions, when the calls that are not allowed change nothing.
-/

namespace MongoTests.ReplSets

open MongoTests.Lib
open RollbackTestDeluxe (TestState acceptableTransitions linksOf)

/-! ## The calls of the five-node fixture -/

namespace RollbackTestDeluxe

namespace Calls

variable {N : Type} [DecidableEq N] [ToString N] (td : TestData) (a : Answers N)

def transitionIfAllowed (newState : TestState) : Prog (Fixture N) (Error N) Unit := do
  let f ← Prog.get
  ensure (newState ∈ acceptableTransitions f.curState)
    (.error (cantTransition newState f.curState))
  Prog.modify fun f => { f with curState := newState }

def checkDataConsistency : Prog (Fixture N) (Error N) Unit := do
  let f ← Prog.get
  assert (f.curState = .kSteadyStateOps)
    "Not in kSteadyStateOps state; cannot check data consistency"
  checkReplSet td a false

/-- The waits for the rollbacks of both secondaries. -/
def awaitRollbacks (r : Roles N) : Prog (Fixture N) (Error N) Unit := do
  send a (.awaitRollback r.rollbackSecondary)
  send a (.awaitRollback r.standbySecondary)

def transitionToSteadyStateOperations : Prog (Fixture N) (Error N) Unit := do
  Prog.modify fun f => f.reconnect f.roles.rollbackSecondary
    (f.arbiters ++ [f.roles.curPrimary, f.roles.standbySecondary])
  Prog.modify fun f => f.reconnect f.roles.standbySecondary (f.arbiters ++ [f.roles.curPrimary])
  let f ← Prog.get
  (if td.rollbackShutdowns then pure () else awaitRollbacks a f.roles)
  send a .awaitSecondaryNodes
  send a .awaitReplication
  transitionIfAllowed .kSteadyStateOps
  checkDataConsistency td a

def transitionToRollbackOperations : Prog (Fixture N) (Error N) Unit := do
  send a .awaitSecondaryNodes
  send a .awaitReplication
  transitionIfAllowed .kRollbackOps
  Prog.modify fun f => f.disconnect f.roles.standbySecondary
    (f.arbiters ++ [f.roles.curPrimary, f.roles.rollbackSecondary])

/-- The text for an election that another node has won. -/
def otherElected (expected elected : N) : Error N :=
  .assertion (some ("Expected the new primary to be " ++ toString expected ++ ", but " ++
    toString elected ++ " was elected instead"))

def forceStepdownDuringRollbackOps : Prog (Fixture N) (Error N) Unit := do
  let f ← Prog.get
  assert (f.curState = .kRollbackOps)
    "forceStepdownDuringRollbackOps() can only be called while in state kRollbackOps"
  send a .insert
  send a .replSetStepDown
  send a .waitForState
  send a .replSetStepUp
  send a .getPrimary
  ensure (a.primary = f.roles.rollbackSecondary) (otherElected f.roles.rollbackSecondary a.primary)
  Prog.modify fun f => { f with roles := { f.roles with
    rollbackSecondary := f.roles.curPrimary
    curPrimary := a.primary } }

def transitionToSyncSourceOperationsBeforeRollback (shuffled : Bool) :
    Prog (Fixture N) (Error N) Unit := do
  transitionIfAllowed .kSyncSourceOpsBeforeRollback
  send a .insert
  Prog.modify fun f => f.disconnect f.roles.rollbackSecondary f.arbiters
  Prog.modify fun f => f.disconnect f.roles.curPrimary f.arbiters
  send a .replSetStepDown
  send a .waitForState
  Prog.modify fun f => f.reconnect f.roles.standbySecondary f.arbiters
  send a .replSetStepUp
  send a .getPrimary
  let f ← Prog.get
  ensure (a.primary = f.roles.standbySecondary) (otherElected f.roles.standbySecondary a.primary)
  Prog.modify fun f => { f with roles := assignRoles shuffled f.roles f.curRoleCycleMode }
  let f ← Prog.get
  send a (.replSetGetRBID f.roles.rollbackSecondary)
  send a (.replSetGetRBID f.roles.standbySecondary)

def transitionToSyncSourceOperationsDuringRollback : Prog (Fixture N) (Error N) Unit := do
  transitionIfAllowed .kSyncSourceOpsDuringRollback
  Prog.modify fun f => f.reconnect f.roles.rollbackSecondary (f.arbiters ++ [f.roles.curPrimary])
  Prog.modify fun f => f.reconnect f.roles.standbySecondary (f.arbiters ++ [f.roles.curPrimary])

def stop : Prog (Fixture N) (Error N) Unit := do
  checkDataConsistency td a
  transitionIfAllowed .kStopped
  send a .stopSet

/-- The call that is to lead to a state. -/
def transitionTo (shuffled : Bool) : TestState → Prog (Fixture N) (Error N) Unit
  | .kSteadyStateOps => transitionToSteadyStateOperations td a
  | .kRollbackOps => transitionToRollbackOperations a
  | .kSyncSourceOpsBeforeRollback => transitionToSyncSourceOperationsBeforeRollback a shuffled
  | .kSyncSourceOpsDuringRollback => transitionToSyncSourceOperationsDuringRollback
  | .kStopped => stop td a

/-- The restart of a node and the roles that follow from the primary that is found. -/
def restart (nodeId signal : ℕ) (shuffled : Bool) : Prog (Fixture N) (Error N) Unit := do
  send a (.stopNode nodeId signal)
  send a (.startNode nodeId)
  send a .getPrimary
  let f ← Prog.get
  (if a.primary = f.roles.rollbackSecondary then do
    assert (f.curState = .kSteadyStateOps ∨ f.curState = .kRollbackOps)
      ("Expected to be in state kSteadyStateOps or kRollbackOps, but instead the state is " ++
        f.curState.text)
    Prog.modify fun f => { f with roles := { f.roles with
      rollbackSecondary := f.roles.curPrimary
      curPrimary := a.primary } }
  else if a.primary = f.roles.standbySecondary then do
    ensure (f.curState = .kSteadyStateOps) (.assertion none)
    Prog.modify fun f => { f with roles := assignRoles shuffled f.roles f.curRoleCycleMode }
  else ensure (f.roles.curPrimary = a.primary) (.assertion none))

/-- There are the three data nodes and the arbiters. -/
def restartNode (nodeId : ℤ) (signal : ℕ) (shuffled : Bool) : Prog (Fixture N) (Error N) Unit := do
  let f ← Prog.get
  assert (signal = SIGKILL ∨ signal = SIGTERM) ("Received unknown signal: " ++ toString signal)
  assert (0 ≤ nodeId) "Node id number cannot be negative"
  ensure (nodeId < 3 + f.arbiters.length) .typeError
  (if !td.rollbackShutdowns then pure ()
  else restart a nodeId.toNat (if td.allowUncleanShutdowns then signal else SIGTERM) shuffled)

inductive Request
  | transitionTo (newState : TestState) (shuffled : Bool)
  | forceStepdownDuringRollbackOps
  | setRoleCycleMode (newMode : RoleCycleMode)
  | restartNode (nodeId : ℤ) (signal : ℕ) (shuffled : Bool)

def call : Request → Prog (Fixture N) (Error N) Unit
  | .transitionTo newState shuffled => Calls.transitionTo td a shuffled newState
  | .forceStepdownDuringRollbackOps => Calls.forceStepdownDuringRollbackOps a
  | .setRoleCycleMode newMode => Prog.modify fun f => { f with curRoleCycleMode := newMode }
  | .restartNode nodeId signal shuffled => Calls.restartNode td a nodeId signal shuffled

/-- The call of the model in which every command succeeds. -/
def Request.toCall : Request → Call
  | .transitionTo .kSteadyStateOps _ => .toSteadyStateOperations
  | .transitionTo .kRollbackOps _ => .toRollbackOperations
  | .transitionTo .kSyncSourceOpsBeforeRollback shuffled =>
    .toSyncSourceOperationsBeforeRollback shuffled
  | .transitionTo .kSyncSourceOpsDuringRollback _ => .toSyncSourceOperationsDuringRollback
  | .transitionTo .kStopped _ => .stop
  | .forceStepdownDuringRollbackOps => .forceStepdownDuringRollbackOps
  | .setRoleCycleMode newMode => .setRoleCycleMode newMode
  | .restartNode _ _ _ => .restartNode

section Returns

open Prog

variable {td : TestData} {a : Answers N} {f : Fixture N}

omit [DecidableEq N] [ToString N] in
theorem returns_transitionIfAllowed (newState : TestState) :
    Returns (transitionIfAllowed newState : Prog (Fixture N) (Error N) Unit)
      (fun f' => f.transitionIfAllowed newState = some f') f := by
  refine returns_get_bind (returns_ensure_bind fun hallowed => ?_)
  exact transitionIfAllowed_eq_some.mpr ⟨hallowed, rfl⟩

omit [DecidableEq N] [ToString N] in
theorem returns_checkDataConsistency :
    Returns (checkDataConsistency td a) (fun f' => f' = f ∧ f.curState = .kSteadyStateOps) f :=
  returns_get_bind (returns_ensure_bind fun hstate =>
    (quiet_checkReplSet td false).returns ⟨rfl, hstate⟩)

/-- **A call that returns** does what the model says in which every command succeeds. -/
theorem returns_step (hshutdowns : td.rollbackShutdowns = false) (r : Request) :
    Returns (call td a r) (fun f' => step f r.toCall = some f') f := by
  cases r with
  | transitionTo newState shuffled =>
    cases newState with
    | kSteadyStateOps =>
      refine returns_modify_bind (returns_modify_bind (returns_get_bind ?_))
      refine Quiet.returns_bind (.ite .pure ((quiet_send _).bind (quiet_send _))) ?_
      refine (quiet_send _).returns_bind ((quiet_send _).returns_bind ?_)
      refine (returns_transitionIfAllowed _).bind fun f' hf' => ?_
      exact returns_checkDataConsistency.imp fun _ hf'' => hf''.1 ▸ hf'
    | kRollbackOps =>
      refine (quiet_send _).returns_bind ((quiet_send _).returns_bind ?_)
      refine (returns_transitionIfAllowed _).bind fun f' hf' => ?_
      exact Option.bind_eq_some_iff.mpr ⟨f', hf', rfl⟩
    | kSyncSourceOpsBeforeRollback =>
      refine (returns_transitionIfAllowed _).bind fun f' hf' => (quiet_send _).returns_bind ?_
      refine returns_modify_bind (returns_modify_bind ((quiet_send _).returns_bind ?_))
      refine (quiet_send _).returns_bind (returns_modify_bind ((quiet_send _).returns_bind ?_))
      refine (quiet_send _).returns_bind (returns_get_bind (returns_ensure_bind fun _ => ?_))
      refine returns_modify_bind (returns_get_bind ((quiet_send _).returns_bind ?_))
      exact (quiet_send _).returns (Option.bind_eq_some_iff.mpr ⟨f', hf', rfl⟩)
    | kSyncSourceOpsDuringRollback =>
      refine (returns_transitionIfAllowed _).bind fun f' hf' => ?_
      exact Option.bind_eq_some_iff.mpr ⟨f', hf', rfl⟩
    | kStopped =>
      refine returns_checkDataConsistency.bind ?_
      rintro f ⟨rfl, hstate⟩
      refine (returns_transitionIfAllowed _).bind fun f' hf' => (quiet_send _).returns ?_
      exact (if_pos hstate).trans hf'
  | forceStepdownDuringRollbackOps =>
    refine returns_get_bind (returns_ensure_bind fun hstate => (quiet_send _).returns_bind ?_)
    refine (quiet_send _).returns_bind ((quiet_send _).returns_bind ((quiet_send _).returns_bind ?_))
    refine (quiet_send _).returns_bind (returns_ensure_bind fun hprimary => ?_)
    refine (if_pos hstate).trans ?_
    rw [hprimary]
  | setRoleCycleMode newMode => exact rfl
  | restartNode nodeId signal shuffled =>
    refine returns_get_bind (returns_ensure_bind fun _ => returns_ensure_bind fun _ => ?_)
    refine returns_ensure_bind fun _ => ?_
    rw [hshutdowns]
    exact rfl

/-- Calls that return keep the topology. -/
theorem returns_topology {rst : ReplSet N} (h : Topology rst f)
    (hshutdowns : td.rollbackShutdowns = false) (r : Request) :
    Returns (call td a r) (Topology rst) f :=
  (returns_step hshutdowns r).imp fun _ hs => h.step hs

end Returns

end Calls

end RollbackTestDeluxe

/-! ## Links -/

section Links

variable {N : Type} {severed : N → N → Bool} {node node' : N} {others others' : List N}

/-- The links between a node and some others pass. -/
def Connected (severed : N → N → Bool) (node : N) (others : List N) : Prop :=
  ∀ b ∈ others, severed node b = false ∧ severed b node = false

variable [DecidableEq N]

/-- What is severed after some links are restored. -/
def restored (node : N) (others : List N) (severed : N → N → Bool) (a b : N) : Bool :=
  severed a b && !linksOf node others a b

theorem restored_eq_self :
    restored node others severed = severed ↔ Connected severed node others := by
  constructor
  · intro h b hb
    have hforth := congrFun (congrFun h node) b
    have hback := congrFun (congrFun h b) node
    simp only [restored, linksOf, hb] at hforth hback
    exact ⟨by simpa using hforth.symm, by simpa using hback.symm⟩
  · intro h
    funext a b
    by_cases hlink : a = node ∧ b ∈ others ∨ b = node ∧ a ∈ others
    · obtain ⟨rfl, hb⟩ | ⟨rfl, ha⟩ := hlink
      · rw [restored, (h b hb).1, Bool.false_and]
      · rw [restored, (h a ha).2, Bool.false_and]
    · rw [restored, linksOf, decide_eq_false hlink, Bool.not_false, Bool.and_true]

/-- Links that were restored stay so. -/
theorem restored_restored_eq_self :
    restored node' others' (restored node others severed) = severed ↔
      Connected severed node others ∧ Connected severed node' others' := by
  constructor
  · intro h
    have hfirst : restored node others severed = severed := by
      funext a b
      have hab := congrFun (congrFun h a) b
      simp only [restored] at hab ⊢
      grind
    rw [hfirst] at h
    exact ⟨restored_eq_self.mp hfirst, restored_eq_self.mp h⟩
  · rintro ⟨hfirst, hsecond⟩
    rw [restored_eq_self.mpr hfirst, restored_eq_self.mpr hsecond]

end Links

/-! ## The three-node fixture -/

namespace RollbackTest

open Prog

variable {td : TestData} {a : Answers ℕ} {f : Fixture}

/-- The first wait of `transitionToSteadyStateOperations` comes to an end. -/
def RollbackAwaited (td : TestData) (a : Answers ℕ) (f : Fixture) : Prop :=
  td.rollbackShutdowns = true ∨
    awaitRollback f.roles.curSecondary f.lastRBID (-1) a.rbids = .ok ()

/-- A call that is not allowed gets to the check, or to an exception, without doing anything. -/
def Harmless (td : TestData) (a : Answers ℕ) (f : Fixture) : TestState → Prop
  | .kSteadyStateOps => ¬ RollbackAwaited td a f ∨
      Connected f.severed f.roles.tiebreakerNode [f.roles.curPrimary, f.roles.curSecondary] ∧
      (a.works (.configureFailPoint false) = false ∨ f.stopped f.roles.tiebreakerNode = false)
  | .kStopped =>
    a.works (.configureFailPoint false) = false ∨ f.stopped f.roles.tiebreakerNode = false
  | .kRollbackOps | .kSyncSourceOpsBeforeRollback | .kSyncSourceOpsDuringRollback => True

theorem replicate_eq_self {node : ℕ} : f.replicate node = f ↔ f.stopped node = false := by
  constructor
  · intro h
    have hstopped := congrArg (fun f : Fixture => f.stopped node) h
    simpa [Fixture.replicate] using hstopped.symm
  · intro h
    have hstopped : (fun a => f.stopped a && a ≠ node) = f.stopped := by
      funext a
      by_cases ha : a = node
      · rw [ha, h, Bool.false_and]
      · simp [ha]
    rw [Fixture.replicate, hstopped]

theorem reconnect_eq_self {node : ℕ} {others : List ℕ} :
    f.reconnect node others = f ↔ Connected f.severed node others := by
  rw [← restored_eq_self]
  exact ⟨fun h => congrArg Fixture.severed h, fun h => congrArg (fun s => { f with severed := s }) h⟩

theorem reconnect_replicate_eq_self {node node' : ℕ} {others : List ℕ} :
    (f.reconnect node others).replicate node' = f ↔
      Connected f.severed node others ∧ f.stopped node' = false := by
  constructor
  · intro h
    have hsevered := congrArg Fixture.severed h
    have hstopped := congrArg Fixture.stopped h
    exact ⟨restored_eq_self.mp hsevered,
      replicate_eq_self.mp (congrArg (fun s => { f with stopped := s }) hstopped)⟩
  · rintro ⟨hsevered, hstopped⟩
    rw [reconnect_eq_self.mpr hsevered, replicate_eq_self.mpr hstopped]

/-- What is left of the fail point by a command that may fail. -/
def afterRestart (a : Answers ℕ) (f : Fixture) (node : ℕ) : Fixture :=
  if a.works (.configureFailPoint false) then f.replicate node else f

theorem restartServerReplication_bind {k : Unit → Prog Fixture (Error ℕ) Unit} {node : ℕ}
    (h : ∀ f', f'.curState = f.curState → Throws (k ()) f' f') :
    Throws (restartServerReplication a node >>= k) f (afterRestart a f node) := by
  unfold afterRestart restartServerReplication send
  by_cases hworks : a.works (.configureFailPoint false) = true
  · rw [if_pos hworks, if_pos hworks]
    exact h (f.replicate node) rfl
  · rw [if_neg hworks, if_neg hworks]
    exact ((throws_throw _).bind).bind

theorem throws_transitionIfAllowed {newState : TestState} {k : Unit → Prog Fixture (Error ℕ) Unit}
    (h : newState ∉ acceptableTransitions f.curState) :
    Throws (transitionIfAllowed newState >>= k) f f :=
  Throws.bind (throws_get_bind (throws_ensure_bind h))

theorem throws_stop {skip : Bool} (h : .kStopped ∉ acceptableTransitions f.curState) :
    Throws (stop td a skip) f (afterRestart a f f.roles.tiebreakerNode) := by
  refine throws_get_bind (restartServerReplication_bind fun f' hstate => ?_)
  refine (quiet_send _).throws_bind ((quiet_checkDataConsistency _).throws_bind ?_)
  exact throws_transitionIfAllowed (hstate ▸ h)

/-- The wait before everything else throws. -/
theorem throws_steady_of_not_awaited {skip : Bool} (h : ¬ RollbackAwaited td a f) :
    Throws (transitionToSteadyStateOperations td a skip) f f := by
  obtain ⟨hshutdowns, hawait⟩ := not_or.mp h
  refine throws_get_bind (Throws.bind ?_)
  rw [if_neg hshutdowns]
  match hx : awaitRollback f.roles.curSecondary f.lastRBID (-1) a.rbids with
  | .ok () => exact absurd hx hawait
  | .error e => exact ⟨e, rfl⟩

theorem throws_steady {skip : Bool} (h : .kSteadyStateOps ∉ acceptableTransitions f.curState)
    (hawait : RollbackAwaited td a f) : Throws (transitionToSteadyStateOperations td a skip) f
      (afterRestart a (f.reconnect f.roles.tiebreakerNode [f.roles.curPrimary, f.roles.curSecondary])
        f.roles.tiebreakerNode) := by
  have hwait : (if td.rollbackShutdowns then pure () else
      ofExcept (awaitRollback f.roles.curSecondary f.lastRBID (-1) a.rbids) :
      Prog Fixture (Error ℕ) Unit) f = (.ok (), f) := by
    by_cases hshutdowns : td.rollbackShutdowns = true
    · rw [if_pos hshutdowns]
      rfl
    · rw [if_neg hshutdowns, hawait.resolve_left hshutdowns]
      rfl
  refine throws_get_bind (throws_bind_of_ok hwait (throws_modify_bind ?_))
  refine restartServerReplication_bind fun f' hstate => ?_
  refine (quiet_send _).throws_bind ((quiet_send _).throws_bind ((quiet_send _).throws_bind ?_))
  refine throws_transitionIfAllowed ?_
  rw [hstate]
  exact h

/-- The calls that only wait before the check. -/
theorem throws_transitionTo {skip : Bool} {newState : TestState}
    (h : newState ∉ acceptableTransitions f.curState) (hsteady : newState ≠ .kSteadyStateOps)
    (hstop : newState ≠ .kStopped) : Throws (transitionTo td a skip newState) f f := by
  cases newState with
  | kSteadyStateOps => exact absurd rfl hsteady
  | kRollbackOps =>
    exact (quiet_send _).throws_bind ((quiet_send _).throws_bind (throws_transitionIfAllowed h))
  | kSyncSourceOpsBeforeRollback => exact throws_transitionIfAllowed h
  | kSyncSourceOpsDuringRollback => exact throws_transitionIfAllowed h
  | kStopped => exact absurd rfl hstop

theorem afterRestart_eq_self {node : ℕ} : afterRestart a f node = f ↔
    a.works (.configureFailPoint false) = false ∨ f.stopped node = false := by
  unfold afterRestart
  by_cases hworks : a.works (.configureFailPoint false) = true
  · simp [hworks, replicate_eq_self]
  · simp [hworks]

theorem afterRestart_reconnect_eq_self {node node' : ℕ} {others : List ℕ} :
    afterRestart a (f.reconnect node others) node' = f ↔ Connected f.severed node others ∧
      (a.works (.configureFailPoint false) = false ∨ f.stopped node' = false) := by
  unfold afterRestart
  by_cases hworks : a.works (.configureFailPoint false) = true
  · simp [hworks, reconnect_replicate_eq_self]
  · simp [hworks, reconnect_eq_self]

/-- A call that is not allowed throws, and when it changes nothing. -/
theorem refused_iff {skip : Bool} {newState : TestState}
    (h : newState ∉ acceptableTransitions f.curState) :
    Throws (transitionTo td a skip newState) f f ↔ Harmless td a f newState := by
  cases newState with
  | kSteadyStateOps =>
    by_cases hawait : RollbackAwaited td a f
    · refine (throws_steady h hawait).self_iff.trans (afterRestart_reconnect_eq_self.trans ?_)
      exact (or_iff_right (not_not.mpr hawait)).symm
    · exact iff_of_true (throws_steady_of_not_awaited hawait) (.inl hawait)
  | kStopped => exact (throws_stop h).self_iff.trans afterRestart_eq_self
  | kRollbackOps | kSyncSourceOpsBeforeRollback | kSyncSourceOpsDuringRollback =>
    exact iff_of_true (throws_transitionTo h (by decide) (by decide)) trivial

/-- The test asks for a transition that the state does not allow. -/
def Rejected (p : Fixture × (Call × Answers ℕ)) : Prop :=
  match p.2.1 with
  | .transitionTo newState _ => newState ∉ acceptableTransitions p.1.curState
  | .restartNode _ _ => False

/-- The call throws and the fixture is as it was. -/
def Refused (td : TestData) (p : Fixture × (Call × Answers ℕ)) : Prop :=
  Throws (call td p.2.2 p.2.1) p.1 p.1

/-- The condition under which a transition that is not allowed changes nothing. -/
def HarmlessCall (td : TestData) (p : Fixture × (Call × Answers ℕ)) : Prop :=
  match p.2.1 with
  | .transitionTo newState _ => Harmless td p.2.2 p.1 newState
  | .restartNode _ _ => True

theorem Rejected.refused_iff {p : Fixture × (Call × Answers ℕ)} (h : Rejected p) :
    Refused td p ↔ HarmlessCall td p := by
  obtain ⟨f, c, a⟩ := p
  cases c with
  | transitionTo newState skip => exact RollbackTest.refused_iff h
  | restartNode nodeId signal => exact h.elim

end RollbackTest

/-! ## The five-node fixture -/

namespace RollbackTestDeluxe.Calls

open Prog

variable {N : Type} [DecidableEq N] {td : TestData} {a : Answers N} {f : Fixture N}

/-- No link that a call restores is severed. -/
def Harmless (f : Fixture N) : TestState → Prop
  | .kSteadyStateOps =>
      Connected f.severed f.roles.rollbackSecondary
        (f.arbiters ++ [f.roles.curPrimary, f.roles.standbySecondary]) ∧
      Connected f.severed f.roles.standbySecondary (f.arbiters ++ [f.roles.curPrimary])
  | .kRollbackOps | .kSyncSourceOpsBeforeRollback | .kSyncSourceOpsDuringRollback
  | .kStopped => True

omit [DecidableEq N] in
/-- Where the severed links are those of the state, the state decides. -/
theorem harmless_of_topology {rst : ReplSet N} (h : Topology rst f) :
    Harmless f .kSteadyStateOps ↔
      f.curState ≠ .kRollbackOps ∧ f.curState ≠ .kSyncSourceOpsBeforeRollback := by
  have hsevered := h.severed
  constructor
  · rintro ⟨-, hconnected⟩
    have hprimary := (hconnected f.roles.curPrimary (by simp)).1
    have hbetween : ¬ Between (severedLinks f) f.roles.standbySecondary f.roles.curPrimary := by
      rw [← hsevered, hprimary]
      exact Bool.false_ne_true
    refine ⟨fun hstate => hbetween (.inl ?_), fun hstate => hbetween (.inl ?_)⟩
    · simp [severedLinks, hstate]
    · simp [severedLinks, hstate]
  · rintro ⟨hrollback, hbefore⟩
    have hlinks : severedLinks f = ([], []) := by
      unfold severedLinks
      split <;> first | contradiction | rfl
    have hnone : ∀ a b, f.severed a b = false := fun a b => by
      simpa [hlinks, Between] using hsevered a b
    exact ⟨fun _ _ => ⟨hnone _ _, hnone _ _⟩, fun _ _ => ⟨hnone _ _, hnone _ _⟩⟩

theorem reconnect_reconnect_eq_self {node node' : N} {others others' : List N} :
    (f.reconnect node others).reconnect node' others' = f ↔
      Connected f.severed node others ∧ Connected f.severed node' others' := by
  rw [← restored_restored_eq_self]
  exact ⟨fun h => congrArg Fixture.severed h, fun h => congrArg (fun s => { f with severed := s }) h⟩

omit [DecidableEq N] in
theorem throws_transitionIfAllowed {newState : TestState}
    {k : Unit → Prog (Fixture N) (Error N) Unit}
    (h : newState ∉ acceptableTransitions f.curState) :
    Throws (transitionIfAllowed newState >>= k) f f :=
  Throws.bind (throws_get_bind (throws_ensure_bind h))

/-- The secondaries are connected before the check. -/
theorem throws_steady (h : .kSteadyStateOps ∉ acceptableTransitions f.curState) :
    Throws (transitionToSteadyStateOperations td a) f
      ((f.reconnect f.roles.rollbackSecondary
        (f.arbiters ++ [f.roles.curPrimary, f.roles.standbySecondary])).reconnect
        f.roles.standbySecondary (f.arbiters ++ [f.roles.curPrimary])) := by
  refine throws_modify_bind (throws_modify_bind (throws_get_bind ?_))
  refine Quiet.throws_bind (.ite .pure ((quiet_send _).bind (quiet_send _))) ?_
  refine (quiet_send _).throws_bind ((quiet_send _).throws_bind ?_)
  exact throws_transitionIfAllowed h

variable [ToString N]

theorem refused_iff {shuffled : Bool} {newState : TestState}
    (h : newState ∉ acceptableTransitions f.curState) :
    Throws (transitionTo td a shuffled newState) f f ↔ Harmless f newState := by
  cases newState with
  | kSteadyStateOps => exact (throws_steady h).self_iff.trans reconnect_reconnect_eq_self
  | kRollbackOps =>
    refine iff_of_true ((quiet_send _).throws_bind ?_) trivial
    exact (quiet_send _).throws_bind (throws_transitionIfAllowed h)
  | kSyncSourceOpsBeforeRollback => exact iff_of_true (throws_transitionIfAllowed h) trivial
  | kSyncSourceOpsDuringRollback => exact iff_of_true (throws_transitionIfAllowed h) trivial
  | kStopped =>
    have hcheck : Quiet (checkDataConsistency td a) f :=
      quiet_ensure.bind (quiet_checkReplSet td false)
    exact iff_of_true (hcheck.throws_bind (throws_transitionIfAllowed h)) trivial

/-- The test asks for a transition that the state does not allow. -/
def Rejected (p : Fixture N × (Request × Answers N)) : Prop :=
  match p.2.1 with
  | .transitionTo newState _ => newState ∉ acceptableTransitions p.1.curState
  | .forceStepdownDuringRollbackOps | .setRoleCycleMode _ | .restartNode _ _ _ => False

/-- The call throws and the fixture is as it was. -/
def Refused (td : TestData) (p : Fixture N × (Request × Answers N)) : Prop :=
  Throws (call td p.2.2 p.2.1) p.1 p.1

/-- The condition under which a transition that is not allowed changes nothing. -/
def HarmlessCall (p : Fixture N × (Request × Answers N)) : Prop :=
  match p.2.1 with
  | .transitionTo newState _ => Harmless p.1 newState
  | .forceStepdownDuringRollbackOps | .setRoleCycleMode _ | .restartNode _ _ _ => True

theorem Rejected.refused_iff {p : Fixture N × (Request × Answers N)} (h : Rejected p) :
    Refused td p ↔ HarmlessCall p := by
  obtain ⟨f, r, a⟩ := p
  cases r with
  | transitionTo newState shuffled => exact Calls.refused_iff h
  | forceStepdownDuringRollbackOps => exact h.elim
  | setRoleCycleMode newMode => exact h.elim
  | restartNode nodeId signal shuffled => exact h.elim

end RollbackTestDeluxe.Calls

/-! ## Runs of both fixtures -/

section Runs

open RollbackTestDeluxe (Calls.Request)

/-- **Transitions that are not allowed.** In every run of either fixture, from every state, with or
without shutdowns, where a test goes on after exceptions: the transitions that are not allowed all
throw and change nothing exactly when none of them finds something that it connects or restarts
before it gets to the check. -/
theorem rejected_iff {N : Type} [DecidableEq N] [ToString N] (td : TestData) :
    (∀ (f : RollbackTest.Fixture) (calls : List (RollbackTest.Call × Answers ℕ)),
      (∀ p ∈ Prog.trail (fun c => RollbackTest.call td c.2 c.1) f calls,
        RollbackTest.Rejected p → RollbackTest.Refused td p) ↔
      ∀ p ∈ Prog.trail (fun c => RollbackTest.call td c.2 c.1) f calls,
        RollbackTest.Rejected p → RollbackTest.HarmlessCall td p) ∧
    ∀ (f : RollbackTestDeluxe.Fixture N) (calls : List (Calls.Request × Answers N)),
      (∀ p ∈ Prog.trail (fun c => RollbackTestDeluxe.Calls.call td c.2 c.1) f calls,
        RollbackTestDeluxe.Calls.Rejected p → RollbackTestDeluxe.Calls.Refused td p) ↔
      ∀ p ∈ Prog.trail (fun c => RollbackTestDeluxe.Calls.call td c.2 c.1) f calls,
        RollbackTestDeluxe.Calls.Rejected p → RollbackTestDeluxe.Calls.HarmlessCall p := by
  constructor
  · intro f calls
    exact forall₂_congr fun p _ => imp_congr_right fun hrejected => hrejected.refused_iff
  · intro f calls
    exact forall₂_congr fun p _ => imp_congr_right fun hrejected => hrejected.refused_iff

/-- A test that stops the three-node fixture in `kRollbackOps`: replication is back on the tiebreaker
when the call throws. -/
theorem rejected_stop_restarts_replication :
    ¬ ∀ td replSet f calls, RollbackTest.Initial replSet f →
      ∀ p ∈ Prog.trail (fun c => RollbackTest.call td c.2 c.1) f calls,
        RollbackTest.Rejected p → RollbackTest.Refused td p := by
  intro hall
  have haccepted : RollbackTest.validateAndUseSetup ⟨true, false, [1, 1, 0], 0⟩ = .ok ⟨0, 1, 2⟩ := by
    decide
  have hrejected : TestState.kStopped ∉ acceptableTransitions .kRollbackOps := by decide
  have hrefused := hall ⟨false, false⟩ _ _
    [(.transitionTo .kRollbackOps false, RollbackTest.willing 0),
      (.transitionTo .kStopped false, RollbackTest.willing 0)]
    (RollbackTest.initial_newFixture haccepted) _ (List.mem_cons_of_mem _ List.mem_cons_self)
    hrejected
  exact absurd (congrArg (fun f : RollbackTest.Fixture => f.stopped 2) hrefused.snd) (by decide)

end Runs

end MongoTests.ReplSets
