import Mathlib.Data.List.GetD
import Mathlib.Data.Rat.Init
import MongoTests.Lib.Machine
import MongoTests.Lib.Program
import MongoTests.ReplSets.RollbackTestDeluxe

/-!
# The three-node rollback fixture

`RollbackTest` of `jstests/replsets/libs/rollback_test.js`: a primary, a secondary that takes turns
with it, and a tiebreaker on which replication is stopped. A node is its number in the replica set,
which is also its place in the config. The servers' answers are given with each call: any command or
wait may fail. The mongobridges do what they are told.

* `validateAndUseSetup`: the roles, from the priorities of the members.
* `transitionTo`, `restartNode`: the calls; one that throws leaves the fixture where it got to.
* `InTurn`: the two nodes that take turns.
* **`roles_iff`**: when the three roles stay distinct and the tiebreaker is not restarted.
-/

namespace MongoTests.ReplSets

open MongoTests.Lib

/-! ## Servers -/

/-- What a rollback fixture sends to its servers or waits for. -/
inductive Command (N : Type)
  | awaitRollback (node : N)
  | awaitSecondaryNodes
  | awaitReplication
  | waitForState
  | insert
  | replSetFreeze
  | replSetStepDown
  | replSetStepUp
  | replSetGetRBID (node : N)
  | getPrimary
  | getSecondary
  | clearLog
  | configureFailPoint (alwaysOn : Bool)
  | replSetGetStatus
  | checkLog
  | waitForAllCollectionDropsToComplete
  | checkCollectionCounts
  | checkOplogs
  | checkReplicatedDataHashes
  | validateNodes
  | stopNode (nodeId signal : ℕ)
  | startNode (nodeId : ℕ)
  | stopSet

/-- How a call throws. -/
inductive Error (N : Type)
  /-- An assertion of the fixture, with its text if it has one. -/
  | assertion (msg : Option String)
  /-- An error that the fixture throws. -/
  | error (msg : String)
  /-- A node that there is not has no host. -/
  | typeError
  | command (c : Command N)

/-- What the servers answer during one call. -/
structure Answers (N : Type) where
  works : Command N → Bool
  /-- What `rst.getPrimary()` finds. -/
  primary : N
  /-- The polls of `replSetGetRBID` until the wait times out; `none` is a command that fails. -/
  rbids : List (Option ℤ)
  rbid : ℤ

structure TestData where
  rollbackShutdowns : Bool
  allowUncleanShutdowns : Bool

section Commands

open Prog

variable {σ N : Type}

def send (a : Answers N) (c : Command N) : Prog σ (Error N) Unit :=
  if a.works c then pure () else Prog.throw (.command c)

def ensure (p : Prop) [Decidable p] (e : Error N) : Prog σ (Error N) Unit :=
  if p then pure () else Prog.throw e

def assert (p : Prop) [Decidable p] (msg : String) : Prog σ (Error N) Unit :=
  ensure p (.assertion (some msg))

/-- The consistency checks of the replica set. -/
def checkReplSet (td : TestData) (a : Answers N) (skipCheckCollectionCounts : Bool) :
    Prog σ (Error N) Unit := do
  send a .waitForAllCollectionDropsToComplete
  (if (!td.allowUncleanShutdowns || !td.rollbackShutdowns) && !skipCheckCollectionCounts then
    send a .checkCollectionCounts
  else pure ())
  send a .checkOplogs
  send a .checkReplicatedDataHashes
  send a .validateNodes

variable {a : Answers N} {e : Error N} {p : Prop} [Decidable p] {s : σ}

theorem quiet_send (c : Command N) : Quiet (send a c) s := .ite .pure (.throw _)

theorem quiet_ensure : Quiet (ensure p e) s := .ite .pure (.throw _)

theorem quiet_checkReplSet (td : TestData) (skip : Bool) : Quiet (checkReplSet td a skip) s :=
  .bind (quiet_send _) (.bind (.ite (quiet_send _) .pure) (.bind (quiet_send _)
    (.bind (quiet_send _) (quiet_send _))))

theorem throws_ensure_bind {k : Unit → Prog σ (Error N) Unit} (hp : ¬ p) :
    Throws (ensure p e >>= k) s s := by
  rw [ensure, if_neg hp]
  exact (throws_throw e).bind

theorem returns_ensure_bind {k : Unit → Prog σ (Error N) Unit} {P : σ → Prop}
    (h : p → Returns (k ()) P s) : Returns (ensure p e >>= k) P s :=
  wp_bind.mpr (wp_ite.mpr ⟨h, fun _ => trivial⟩)

end Commands

def SIGKILL : ℕ := 9

def SIGTERM : ℕ := 15

/-- The text of a state, as the errors show it. -/
def RollbackTestDeluxe.TestState.text : RollbackTestDeluxe.TestState → String
  | .kStopped => "kStopped"
  | .kRollbackOps => "kRollbackOps"
  | .kSyncSourceOpsBeforeRollback => "kSyncSourceOpsBeforeRollback"
  | .kSyncSourceOpsDuringRollback => "kSyncSourceOpsDuringRollback"
  | .kSteadyStateOps => "kSteadyStateOps"

/-- What `transitionIfAllowed` throws. -/
def cantTransition (newState curState : RollbackTestDeluxe.TestState) : String :=
  "Can't transition to State \"" ++ newState.text ++ "\" from State \"" ++ curState.text ++ "\""

namespace RollbackTest

open RollbackTestDeluxe (TestState acceptableTransitions linksOf)

/-! ## The fixture -/

def kNumDataBearingNodes : ℕ := 3

def kElectableNodes : ℤ := 2

structure Roles where
  curPrimary : ℕ
  curSecondary : ℕ
  tiebreakerNode : ℕ
  deriving DecidableEq, Repr

structure Fixture where
  roles : Roles
  curState : TestState
  lastRBID : ℤ
  /-- The links that the mongobridges do not pass. -/
  severed : ℕ → ℕ → Bool
  /-- The nodes with the fail point that stops replication. -/
  stopped : ℕ → Bool
  /-- The nodes that were restarted. -/
  restarted : List ℕ

/-- What the fixture reads of the replica set that it is given. -/
structure ReplSetTest where
  usesBridge : Bool
  chainingAllowed : Bool
  /-- The priorities of the members. -/
  priorities : List ℚ
  primary : ℕ

def ReplSetTest.priority (replSet : ReplSetTest) (node : ℕ) : ℚ := replSet.priorities.getD node 0

/-- The members other than the primary, in the order of the config. -/
def getSecondaries (primary : ℕ) : List ℕ :=
  (List.range kNumDataBearingNodes).filter (· ≠ primary)

/-- The roles, by the priorities of the second and the third member. -/
def setupRoles (replSet : ReplSetTest) : Roles :=
  let secondaries := getSecondaries replSet.primary
  { curPrimary := replSet.primary
    curSecondary := if replSet.priority 1 ≠ 0 then secondaries.getD 0 0 else secondaries.getD 1 0
    tiebreakerNode := if replSet.priority 2 = 0 then secondaries.getD 1 0 else secondaries.getD 0 0 }

/-- The roles, or the text of the assertion that fails, if it has one. The primary has the host of
the first member if it is the first node. -/
def validateAndUseSetup (replSet : ReplSetTest) : Except (Option String) Roles :=
  if replSet.usesBridge ≠ true then
    .error (some "Must set up ReplSetTest with mongobridge enabled.")
  else if replSet.priorities.length ≠ kNumDataBearingNodes then
    .error (some "Replica set must contain exactly three nodes.")
  else if replSet.chainingAllowed ≠ false then
    .error (some "Must set up ReplSetTest with chaining disabled.")
  else if replSet.priority 0 = 0 then .error none
  else if replSet.primary ≠ 0 then .error none
  else if replSet.priority 1 = replSet.priority 2 then .error none
  else .ok (setupRoles replSet)

/-- A new fixture, for a replica set that is accepted. Replication is stopped on the tiebreaker. -/
structure Initial (replSet : ReplSetTest) (f : Fixture) : Prop where
  roles : validateAndUseSetup replSet = .ok f.roles
  curState : f.curState = .kSteadyStateOps
  severed : ∀ a b, f.severed a b = false
  stopped : ∀ a, f.stopped a = decide (a = f.roles.tiebreakerNode)
  restarted : f.restarted = []

/-- `node.disconnect(others)`. -/
def Fixture.disconnect (f : Fixture) (node : ℕ) (others : List ℕ) : Fixture :=
  { f with severed := fun a b => f.severed a b || linksOf node others a b }

/-- `node.reconnect(others)`. -/
def Fixture.reconnect (f : Fixture) (node : ℕ) (others : List ℕ) : Fixture :=
  { f with severed := fun a b => f.severed a b && !linksOf node others a b }

/-- The fail point is off on this node. -/
def Fixture.replicate (f : Fixture) (node : ℕ) : Fixture :=
  { f with stopped := fun a => f.stopped a && a ≠ node }

/-- The fail point is on on this node. -/
def Fixture.stopReplication (f : Fixture) (node : ℕ) : Fixture :=
  { f with stopped := fun a => f.stopped a || a = node }

/-! ## Its calls -/

section Calls

variable (td : TestData) (a : Answers ℕ)

def stopServerReplication (node : ℕ) : Prog Fixture (Error ℕ) Unit := do
  send a .clearLog
  send a (.configureFailPoint true)
  Prog.modify fun f => f.stopReplication node
  send a .replSetGetStatus
  send a .checkLog

def restartServerReplication (node : ℕ) : Prog Fixture (Error ℕ) Unit := do
  send a (.configureFailPoint false)
  Prog.modify fun f => f.replicate node

def transitionIfAllowed (newState : TestState) : Prog Fixture (Error ℕ) Unit := do
  let f ← Prog.get
  ensure (newState ∈ acceptableTransitions f.curState)
    (.error (cantTransition newState f.curState))
  Prog.modify fun f => { f with curState := newState }

def checkDataConsistency (skipCheckCollectionCounts : Bool) : Prog Fixture (Error ℕ) Unit := do
  let f ← Prog.get
  assert (f.curState = .kSteadyStateOps)
    "Not in kSteadyStateOps state, cannot check data consistency"
  checkReplSet td a skipCheckCollectionCounts

/-- The wait for the rollback to complete, from the last RBID that was read. -/
def awaitRollback (node : ℕ) (lastRBID : ℤ) : ℤ → List (Option ℤ) → Except (Error ℕ) Unit
  | _, [] =>
    .error (.assertion (some ("Timed out waiting for RBID to increment on " ++ toString node)))
  | rbid, poll :: polls =>
    let rbid := poll.getD rbid
    if lastRBID + 1 < rbid then
      .error (.assertion (some ("RBID is too large. current RBID: " ++ toString rbid ++
        ", last RBID: " ++ toString lastRBID)))
    else if rbid = lastRBID + 1 then .ok ()
    else awaitRollback node lastRBID rbid polls

def transitionToSteadyStateOperations (skipDataConsistencyChecks : Bool) :
    Prog Fixture (Error ℕ) Unit := do
  let f ← Prog.get
  (if td.rollbackShutdowns then pure ()
  else Prog.ofExcept (awaitRollback f.roles.curSecondary f.lastRBID (-1) a.rbids))
  Prog.modify fun f =>
    f.reconnect f.roles.tiebreakerNode [f.roles.curPrimary, f.roles.curSecondary]
  restartServerReplication a f.roles.tiebreakerNode
  send a .awaitSecondaryNodes
  send a .awaitReplication
  send a .replSetFreeze
  transitionIfAllowed .kSteadyStateOps
  (if skipDataConsistencyChecks then pure () else checkDataConsistency td a false)
  stopServerReplication a f.roles.tiebreakerNode

def transitionToRollbackOperations : Prog Fixture (Error ℕ) Unit := do
  send a .awaitSecondaryNodes
  send a .awaitReplication
  transitionIfAllowed .kRollbackOps
  Prog.modify fun f => f.disconnect f.roles.curSecondary [f.roles.tiebreakerNode]
  Prog.modify fun f => f.disconnect f.roles.curPrimary [f.roles.curSecondary]

/-- An exception of `replSetStepDown` is caught. -/
def transitionToSyncSourceOperationsBeforeRollback : Prog Fixture (Error ℕ) Unit := do
  transitionIfAllowed .kSyncSourceOpsBeforeRollback
  send a .insert
  Prog.modify fun f => f.disconnect f.roles.curPrimary [f.roles.tiebreakerNode]
  send a .waitForState
  Prog.modify fun f => f.reconnect f.roles.curSecondary [f.roles.tiebreakerNode]
  send a .replSetStepUp
  send a .getPrimary
  let f ← Prog.get
  assert (a.primary = f.roles.curSecondary) "Did not elect a new node as primary"
  Prog.modify fun f => { f with roles := { f.roles with
    curSecondary := f.roles.curPrimary
    curPrimary := a.primary } }
  send a (.replSetGetRBID f.roles.curPrimary)
  Prog.modify fun f => { f with lastRBID := a.rbid }

def transitionToSyncSourceOperationsDuringRollback : Prog Fixture (Error ℕ) Unit := do
  transitionIfAllowed .kSyncSourceOpsDuringRollback
  send a .waitForState
  send a .replSetFreeze
  Prog.modify fun f => f.reconnect f.roles.curSecondary [f.roles.curPrimary]

def stop (skipCheckCollectionCounts : Bool) : Prog Fixture (Error ℕ) Unit := do
  let f ← Prog.get
  restartServerReplication a f.roles.tiebreakerNode
  send a .awaitReplication
  checkDataConsistency td a skipCheckCollectionCounts
  transitionIfAllowed .kStopped
  send a .stopSet

/-- The call that is to lead to a state; `skip` is the option that some of them have. -/
def transitionTo (skip : Bool) : TestState → Prog Fixture (Error ℕ) Unit
  | .kSteadyStateOps => transitionToSteadyStateOperations td a skip
  | .kRollbackOps => transitionToRollbackOperations a
  | .kSyncSourceOpsBeforeRollback => transitionToSyncSourceOperationsBeforeRollback a
  | .kSyncSourceOpsDuringRollback => transitionToSyncSourceOperationsDuringRollback a
  | .kStopped => stop td a skip

/-- The restart of a node and what the fixture then finds. A node that comes up has no fail point. -/
def restart (nodeId signal : ℕ) : Prog Fixture (Error ℕ) Unit := do
  send a (.stopNode nodeId signal)
  send a (.startNode nodeId)
  Prog.modify fun f => { f.replicate nodeId with restarted := nodeId :: f.restarted }
  let f ← Prog.get
  (if f.curState = .kSyncSourceOpsDuringRollback ∧ f.roles.curSecondary = nodeId then
    send a .replSetFreeze
  else pure ())
  send a .getPrimary
  Prog.modify fun f => { f with roles := { f.roles with curPrimary := a.primary } }
  (if f.curState ≠ .kSteadyStateOps then
    ensure (a.primary = f.roles.curPrimary) (.assertion none)
  else pure ())
  send a .getSecondary
  let curSecondary := (getSecondaries a.primary).getD 0 0
  Prog.modify fun f => { f with roles := { f.roles with curSecondary := curSecondary } }
  ensure (a.primary ≠ curSecondary) (.assertion none)

def restartNode (nodeId : ℤ) (signal : ℕ) : Prog Fixture (Error ℕ) Unit := do
  assert (signal = SIGKILL ∨ signal = SIGTERM) ("Received unknown signal: " ++ toString signal)
  assert (0 ≤ nodeId) "Invalid argument to RollbackTest.restartNode()"
  ensure (nodeId < kNumDataBearingNodes) .typeError
  if !td.rollbackShutdowns then pure ()
  else if kElectableNodes ≤ nodeId then pure ()
  else restart a nodeId.toNat (if td.allowUncleanShutdowns then signal else SIGTERM)

inductive Call
  | transitionTo (newState : TestState) (skip : Bool)
  | restartNode (nodeId : ℤ) (signal : ℕ)

def call : Call → Prog Fixture (Error ℕ) Unit
  | .transitionTo newState skip => RollbackTest.transitionTo td a skip newState
  | .restartNode nodeId signal => RollbackTest.restartNode td a nodeId signal

end Calls

/-- A call that returns. -/
def step (td : TestData) (f : Fixture) (c : Call × Answers ℕ) : Option Fixture :=
  match call td c.2 c.1 f with
  | (.ok _, f') => some f'
  | _ => none

/-! ## The roles -/

/-- The three roles are held by different nodes, and the tiebreaker is a member that is not elected
and was not restarted. -/
structure Distinct (replSet : ReplSetTest) (f : Fixture) : Prop where
  secondary_ne : f.roles.curSecondary ≠ f.roles.curPrimary
  tiebreaker_ne_primary : f.roles.tiebreakerNode ≠ f.roles.curPrimary
  tiebreaker_ne_secondary : f.roles.tiebreakerNode ≠ f.roles.curSecondary
  priority : replSet.priorities[f.roles.tiebreakerNode]? = some 0
  restarted : f.roles.tiebreakerNode ∉ f.restarted

/-- A member with priority 0 is not elected. -/
def Electable (replSet : ReplSetTest) (_ : Fixture) (c : Call × Answers ℕ) : Prop :=
  replSet.priority c.2.primary ≠ 0

/-- Node 0 and the node `other` are primary and secondary in turn. -/
structure InTurn (other third : ℕ) (f : Fixture) : Prop where
  turn : f.roles.curPrimary = 0 ∧ f.roles.curSecondary = other ∨
    f.roles.curPrimary = other ∧ f.roles.curSecondary = 0
  tiebreaker : f.roles.tiebreakerNode = third
  restarted : third ∉ f.restarted

section Runs

open Prog

variable {td : TestData} {a : Answers ℕ} {f f' : Fixture}

/-- What a program says about the roles when it returns. -/
def sameRoles : Contract Fixture (Error ℕ) where
  pre _ := True
  ret f f' := f'.roles = f.roles ∧ f'.restarted = f.restarted
  exc _ _ _ := True
  halt _ := True
  refl _ := ⟨rfl, rfl⟩
  next _ _ := trivial
  trans h h' := ⟨h'.1.trans h.1, h'.2.trans h.2⟩
  transExc _ _ := trivial
  halt_of_pre _ := trivial

theorem sameRoles_of_quiet {m : Prog Fixture (Error ℕ) Unit} (h : ∀ f, Quiet m f) :
    sameRoles.Holds m := fun f _ => (h f).returns ⟨rfl, rfl⟩

theorem sameRoles_send (c : Command ℕ) : sameRoles.Holds (send a c) :=
  sameRoles_of_quiet fun _ => quiet_send c

theorem sameRoles_transitionIfAllowed (newState : TestState) :
    sameRoles.Holds (transitionIfAllowed newState) :=
  .get_bind fun _ => .bind (sameRoles_of_quiet fun _ => quiet_ensure) fun _ =>
    .modify fun _ _ => ⟨rfl, rfl⟩

theorem sameRoles_stopServerReplication (node : ℕ) :
    sameRoles.Holds (stopServerReplication a node) :=
  .bind (sameRoles_send _) fun _ => .bind (sameRoles_send _) fun _ =>
    .bind (.modify fun _ _ => ⟨rfl, rfl⟩) fun _ => .bind (sameRoles_send _) fun _ =>
    sameRoles_send _

theorem sameRoles_restartServerReplication (node : ℕ) :
    sameRoles.Holds (restartServerReplication a node) :=
  .bind (sameRoles_send _) fun _ => .modify fun _ _ => ⟨rfl, rfl⟩

theorem quiet_checkDataConsistency (skip : Bool) : Quiet (checkDataConsistency td a skip) f :=
  quiet_ensure.bind (quiet_checkReplSet td skip)

theorem sameRoles_checkDataConsistency (skip : Bool) :
    sameRoles.Holds (checkDataConsistency td a skip) :=
  sameRoles_of_quiet fun _ => quiet_checkDataConsistency skip

theorem sameRoles_steady (skip : Bool) :
    sameRoles.Holds (transitionToSteadyStateOperations td a skip) :=
  .get_bind fun _ => .bind (sameRoles_of_quiet fun _ => .ite .pure (.ofExcept _)) fun _ =>
    .bind (.modify fun _ _ => ⟨rfl, rfl⟩) fun _ =>
    .bind (sameRoles_restartServerReplication _) fun _ => .bind (sameRoles_send _) fun _ =>
    .bind (sameRoles_send _) fun _ => .bind (sameRoles_send _) fun _ =>
    .bind (sameRoles_transitionIfAllowed _) fun _ =>
    .bind (.ite (.pure ()) (sameRoles_checkDataConsistency _)) fun _ =>
    sameRoles_stopServerReplication _

theorem sameRoles_rollback : sameRoles.Holds (transitionToRollbackOperations a) :=
  .bind (sameRoles_send _) fun _ => .bind (sameRoles_send _) fun _ =>
    .bind (sameRoles_transitionIfAllowed _) fun _ => .bind (.modify fun _ _ => ⟨rfl, rfl⟩) fun _ =>
    .modify fun _ _ => ⟨rfl, rfl⟩

theorem sameRoles_duringRollback :
    sameRoles.Holds (transitionToSyncSourceOperationsDuringRollback a) :=
  .bind (sameRoles_transitionIfAllowed _) fun _ => .bind (sameRoles_send _) fun _ =>
    .bind (sameRoles_send _) fun _ => .modify fun _ _ => ⟨rfl, rfl⟩

theorem sameRoles_stop (skip : Bool) : sameRoles.Holds (stop td a skip) :=
  .get_bind fun _ => .bind (sameRoles_restartServerReplication _) fun _ =>
    .bind (sameRoles_send _) fun _ => .bind (sameRoles_checkDataConsistency _) fun _ =>
    .bind (sameRoles_transitionIfAllowed _) fun _ => sameRoles_send _

/-- A first part that leaves the roles alone. -/
theorem returns_bind_of_sameRoles {m k : Prog Fixture (Error ℕ) Unit} {Q : Fixture → Prop}
    (hm : sameRoles.Holds m)
    (h : ∀ f', f'.roles = f.roles → f'.restarted = f.restarted → Returns k Q f') :
    Returns (m >>= fun _ => k) Q f :=
  wp_bind.mpr (wp.imp (hm f trivial) fun _ f' hf' => h f' hf'.1 hf'.2)

/-- The new primary is the old secondary. -/
theorem returns_beforeRollback : Returns (transitionToSyncSourceOperationsBeforeRollback a)
    (fun f' => f'.restarted = f.restarted ∧ f'.roles = { f.roles with
      curPrimary := f.roles.curSecondary
      curSecondary := f.roles.curPrimary }) f := by
  refine returns_bind_of_sameRoles (sameRoles_transitionIfAllowed _) fun f₁ hroles hrestarted => ?_
  rw [← hroles, ← hrestarted]
  refine (quiet_send _).returns_bind (returns_modify_bind ((quiet_send _).returns_bind ?_))
  refine returns_modify_bind ((quiet_send _).returns_bind ((quiet_send _).returns_bind ?_))
  refine returns_get_bind ?_
  refine returns_ensure_bind fun hprimary => ?_
  refine returns_modify_bind ((quiet_send _).returns_bind ⟨rfl, ?_⟩)
  have hprimary : a.primary = f₁.roles.curSecondary := hprimary
  show ({ f₁.roles with
    curSecondary := f₁.roles.curPrimary
    curPrimary := a.primary } : Roles) = _
  rw [hprimary]

/-- The roles that a restart finds. -/
def foundRoles (primary : ℕ) (r : Roles) : Roles := { r with
  curPrimary := primary
  curSecondary := (getSecondaries primary).getD 0 0 }

theorem returns_restart {nodeId signal : ℕ} : Returns (restart a nodeId signal)
    (fun f' => f'.restarted = nodeId :: f.restarted ∧ f'.roles = foundRoles a.primary f.roles ∧
      f'.roles.curSecondary ≠ a.primary) f := by
  refine (quiet_send _).returns_bind ((quiet_send _).returns_bind (returns_modify_bind ?_))
  refine returns_get_bind (Quiet.returns_bind (.ite (quiet_send _) .pure) ?_)
  refine (quiet_send _).returns_bind (returns_modify_bind ?_)
  refine Quiet.returns_bind (.ite quiet_ensure .pure) ((quiet_send _).returns_bind ?_)
  exact returns_modify_bind (wp_ite.mpr ⟨fun hne => ⟨rfl, rfl, hne.symm⟩, fun _ => trivial⟩)

/-- Without shutdowns nothing happens, and the last node is not restarted. -/
theorem returns_restartNode {nodeId : ℤ} {signal : ℕ} : Returns (restartNode td a nodeId signal)
    (fun f' => f' = f ∨ td.rollbackShutdowns = true ∧ ∃ n < 2, f'.restarted = n :: f.restarted ∧
      f'.roles = foundRoles a.primary f.roles ∧ f'.roles.curSecondary ≠ a.primary) f := by
  refine returns_ensure_bind fun _ => returns_ensure_bind fun _ => returns_ensure_bind fun _ => ?_
  refine wp_ite.mpr ⟨fun _ => .inl rfl, fun hshutdowns => ?_⟩
  refine wp_ite.mpr ⟨fun _ => .inl rfl, fun hlt => ?_⟩
  have htwo : nodeId.toNat < 2 := by
    rw [kElectableNodes] at hlt
    omega
  exact returns_restart.imp fun f' hf' =>
    .inr ⟨by simpa using hshutdowns, nodeId.toNat, htwo, hf'⟩

/-- The configurations in which the two nodes stay apart from the third one. -/
structure Apart (replSet : ReplSetTest) (td : TestData) (other third : ℕ) : Prop where
  ne : 0 ≠ other ∧ 0 ≠ third ∧ other ≠ third
  priority : replSet.priorities[third]? = some 0
  electable : ∀ n, replSet.priority n ≠ 0 → n = 0 ∨ n = other
  shutdowns : td.rollbackShutdowns = true → other = 1

variable {replSet : ReplSetTest} {other third : ℕ}

theorem InTurn.distinct (hapart : Apart replSet td other third) (h : InTurn other third f) :
    Distinct replSet f := by
  obtain ⟨hother, hthird, hne⟩ := hapart.ne
  have htiebreaker := h.tiebreaker
  have hpriority : replSet.priorities[f.roles.tiebreakerNode]? = some 0 := by
    rw [htiebreaker]
    exact hapart.priority
  have hrestarted : f.roles.tiebreakerNode ∉ f.restarted := by
    rw [htiebreaker]
    exact h.restarted
  obtain ⟨hprimary, hsecondary⟩ | ⟨hprimary, hsecondary⟩ := h.turn
  · refine ⟨?_, ?_, ?_, hpriority, hrestarted⟩ <;> omega
  · refine ⟨?_, ?_, ?_, hpriority, hrestarted⟩ <;> omega

/-- What a restart finds of the two nodes. -/
theorem InTurn.found (h : InTurn other third f) (hapart : Apart replSet td other third)
    (hshutdowns : td.rollbackShutdowns = true) {primary n : ℕ} (hn : n < 2)
    (hprimary : replSet.priority primary ≠ 0) (hrestarted : f'.restarted = n :: f.restarted)
    (hroles : f'.roles = foundRoles primary f.roles) : InTurn other third f' := by
  have hother := hapart.shutdowns hshutdowns
  obtain ⟨-, hthird, hne⟩ := hapart.ne
  refine ⟨?_, ?_, ?_⟩
  · rw [hroles, hother]
    obtain rfl | hprimary := hapart.electable primary hprimary
    · exact .inl ⟨rfl, rfl⟩
    · rw [hprimary, hother]
      exact .inr ⟨rfl, rfl⟩
  · rw [hroles]
    exact h.tiebreaker
  · rw [hrestarted, List.mem_cons, not_or]
    exact ⟨by omega, h.restarted⟩

theorem InTurn.step (h : InTurn other third f) (hapart : Apart replSet td other third)
    {c : Call × Answers ℕ} (hc : Electable replSet f c) (hs : step td f c = some f') :
    InTurn other third f' := by
  have hkept : ∀ f', f'.roles = f.roles ∧ f'.restarted = f.restarted → InTurn other third f' :=
    fun f' hf' => ⟨hf'.1 ▸ h.turn, hf'.1 ▸ h.tiebreaker, hf'.2 ▸ h.restarted⟩
  have hkeeps : ∀ m : Prog Fixture (Error ℕ) Unit, sameRoles.Holds m →
      Returns m (InTurn other third) f :=
    fun m hm => wp.imp (hm f trivial) fun _ => hkept
  have hcall : Returns (call td c.2 c.1) (InTurn other third) f := by
    obtain ⟨c, a⟩ := c
    cases c with
    | transitionTo newState skip =>
      cases newState with
      | kSteadyStateOps => exact hkeeps _ (sameRoles_steady skip)
      | kRollbackOps => exact hkeeps _ sameRoles_rollback
      | kSyncSourceOpsBeforeRollback =>
        refine returns_beforeRollback.imp fun f' hf' => ⟨?_, ?_, hf'.1 ▸ h.restarted⟩
        · rw [hf'.2]
          exact h.turn.symm.imp And.symm And.symm
        · rw [hf'.2]
          exact h.tiebreaker
      | kSyncSourceOpsDuringRollback => exact hkeeps _ sameRoles_duringRollback
      | kStopped => exact hkeeps _ (sameRoles_stop skip)
    | restartNode nodeId signal =>
      refine returns_restartNode.imp fun f' hf' => ?_
      obtain rfl | ⟨hshutdowns, n, hn, hrestarted, hroles, -⟩ := hf'
      · exact h
      · exact h.found hapart hshutdowns hn hc hrestarted hroles
  unfold RollbackTest.step at hs
  split at hs
  · next _ heq =>
    cases hs
    exact hcall.ok heq
  · cases hs

/-- What a replica set that is accepted is like, and its roles. -/
theorem of_validateAndUseSetup {r : Roles} (h : validateAndUseSetup replSet = .ok r) :
    replSet.priorities.length = 3 ∧ replSet.priority 0 ≠ 0 ∧
    replSet.priority 1 ≠ replSet.priority 2 ∧ r = {
      curPrimary := 0
      curSecondary := if replSet.priority 1 ≠ 0 then 1 else 2
      tiebreakerNode := if replSet.priority 2 = 0 then 2 else 1 } := by
  unfold validateAndUseSetup at h
  split_ifs at h with hbridge hlength hchaining hpriority hprimary hne
  refine ⟨not_not.mp hlength, hpriority, hne, (Except.ok.inj h).symm.trans ?_⟩
  rw [setupRoles, not_not.mp hprimary]
  rfl

/-- A new fixture with these roles. -/
def newFixture (r : Roles) : Fixture where
  roles := r
  curState := .kSteadyStateOps
  lastRBID := 1
  severed _ _ := false
  stopped a := decide (a = r.tiebreakerNode)
  restarted := []

theorem initial_newFixture {r : Roles} (h : validateAndUseSetup replSet = .ok r) :
    Initial replSet (newFixture r) :=
  ⟨h, rfl, fun _ _ => rfl, fun _ => rfl, rfl⟩

theorem inTurn_of_initial (h : Initial replSet f) (hother : f.roles = ⟨0, other, third⟩) :
    InTurn other third f := by
  refine ⟨.inl ?_, ?_, ?_⟩
  · rw [hother]
    exact ⟨rfl, rfl⟩
  · rw [hother]
  · rw [h.restarted]
    exact List.not_mem_nil

/-- Servers on which everything works. -/
def willing (primary : ℕ) : Answers ℕ := ⟨fun _ => true, primary, [], 1⟩

/-- Node 1 is restarted even if it is the tiebreaker. -/
theorem restart_tiebreaker (hshutdowns : td.rollbackShutdowns = true) :
    ∃ f', step td (newFixture ⟨0, 2, 1⟩) (.restartNode 1 SIGTERM, willing 0) = some f' ∧
      f'.roles.tiebreakerNode ∈ f'.restarted := by
  obtain ⟨shutdowns, unclean⟩ := td
  cases hshutdowns
  exact ⟨_, rfl, List.mem_cons_self⟩

/-- There are three members. -/
theorem eq_of_priority_ne (hlength : replSet.priorities.length = 3) {n : ℕ}
    (h : replSet.priority n ≠ 0) : n = 0 ∨ n = 1 ∨ n = 2 := by
  have hlt : n < replSet.priorities.length := by
    by_contra hge
    exact h (List.getD_eq_default _ _ (Nat.le_of_not_lt hge))
  omega

theorem getElem?_of_priority (hlength : replSet.priorities.length = 3) {n : ℕ} (hn : n < 3)
    (h : replSet.priority n = 0) : replSet.priorities[n]? = some 0 := by
  have hlt : n < replSet.priorities.length := by omega
  rw [List.getElem?_eq_getElem hlt, ← List.getD_eq_getElem _ 0 hlt]
  exact congrArg some h

/-- The priorities keep the two nodes that take turns apart from the third one. -/
theorem exists_apart {r : Roles} (h : validateAndUseSetup replSet = .ok r)
    (hcond : replSet.priority 2 = 0 ∨ replSet.priority 1 = 0 ∧ td.rollbackShutdowns = false) :
    ∃ other third, Apart replSet td other third ∧ r = ⟨0, other, third⟩ := by
  obtain ⟨hlength, -, hne, hr⟩ := of_validateAndUseSetup h
  by_cases htwo : replSet.priority 2 = 0
  · have hone : replSet.priority 1 ≠ 0 := fun hone => hne (hone.trans htwo.symm)
    have hpriority := getElem?_of_priority hlength (by decide) htwo
    refine ⟨1, 2, ⟨by decide, hpriority, fun n hn => ?_, fun _ => rfl⟩, ?_⟩
    · obtain rfl | rfl | rfl := eq_of_priority_ne hlength hn
      · exact .inl rfl
      · exact .inr rfl
      · exact absurd htwo hn
    · rw [hr, if_pos hone, if_pos htwo]
  · obtain ⟨hone, hshutdowns⟩ := hcond.resolve_left htwo
    have hpriority := getElem?_of_priority hlength (by decide) hone
    refine ⟨2, 1, ⟨by decide, hpriority, fun n hn => ?_, fun hon => ?_⟩, ?_⟩
    · obtain rfl | rfl | rfl := eq_of_priority_ne hlength hn
      · exact .inl rfl
      · exact absurd hone hn
      · exact .inr rfl
    · rw [hshutdowns] at hon
      cases hon
    · rw [hr, if_neg (not_not.mpr hone), if_neg htwo]

/-- **The roles of the three-node fixture.** For every replica set that is accepted, the roles stay
distinct and the tiebreaker keeps its priority 0 and is not restarted, in every run of calls that
return, exactly when the third member has priority 0, or the second one has and no node is shut
down. -/
theorem roles_iff {r : Roles} (h : validateAndUseSetup replSet = .ok r) :
    (∀ f, Reach (step td) (Electable replSet) (Initial replSet) f → Distinct replSet f) ↔
      replSet.priority 2 = 0 ∨ replSet.priority 1 = 0 ∧ td.rollbackShutdowns = false := by
  obtain ⟨-, hpriority, -, hr⟩ := of_validateAndUseSetup h
  constructor
  · intro hall
    by_contra hnot
    obtain ⟨htwo, hone⟩ := not_or.mp hnot
    have hstart : Reach (step td) (Electable replSet) (Initial replSet) (newFixture r) :=
      .start (initial_newFixture h)
    rw [if_neg htwo] at hr
    by_cases hzero : replSet.priority 1 = 0
    · -- The tiebreaker is node 1, which is restarted.
      rw [if_neg (not_not.mpr hzero)] at hr
      have hshutdowns : td.rollbackShutdowns = true := by simpa [hzero] using hone
      obtain ⟨f', hstep, hrestarted⟩ := restart_tiebreaker hshutdowns
      rw [hr] at hstart
      have hc : Electable replSet (newFixture ⟨0, 2, 1⟩) (.restartNode 1 SIGTERM, willing 0) :=
        hpriority
      exact (hall f' (.next hstart hc hstep)).restarted hrestarted
    · -- Node 1 is the secondary and the tiebreaker.
      rw [if_pos hzero] at hr
      refine (hall _ hstart).tiebreaker_ne_secondary ?_
      rw [newFixture, hr]
  · intro hcond
    obtain ⟨other, third, hapart, hroles⟩ := exists_apart h hcond
    intro f hf
    refine InTurn.distinct hapart (Reach.inv (fun f₀ hf₀ => ?_) ?_ hf)
    · refine inTurn_of_initial hf₀ ?_
      rw [← hroles]
      exact (Except.ok.inj (hf₀.roles.symm.trans h))
    · exact fun _ _ _ hinv hc hs => hinv.step hapart hc hs

end Runs

/-- The standard setup, with shutdowns. -/
theorem roles_iff_standardSetup :
    ∃ replSet : ReplSetTest, replSet.priorities = [1, 1, 0] ∧
      ∀ f, Reach (step ⟨true, false⟩) (Electable replSet) (Initial replSet) f →
        Distinct replSet f := by
  have haccepted : validateAndUseSetup ⟨true, false, [1, 1, 0], 0⟩ = .ok ⟨0, 1, 2⟩ := by decide
  exact ⟨⟨true, false, [1, 1, 0], 0⟩, rfl, (roles_iff haccepted).mpr (.inl rfl)⟩

/-- Two secondaries with different priorities, neither of them 0: the second node is both the
secondary and the tiebreaker. -/
theorem setup_two_electable_secondaries :
    validateAndUseSetup ⟨true, false, [3, 1, 2], 0⟩ = .ok ⟨0, 1, 1⟩ ∧
    ¬ ∀ replSet td r, validateAndUseSetup replSet = .ok r →
      ∀ f, Reach (step td) (Electable replSet) (Initial replSet) f → Distinct replSet f := by
  have haccepted : validateAndUseSetup ⟨true, false, [3, 1, 2], 0⟩ = .ok ⟨0, 1, 1⟩ := by decide
  refine ⟨haccepted, fun hall => ?_⟩
  have hstart : Reach (step ⟨false, false⟩) (Electable ⟨true, false, [3, 1, 2], 0⟩)
      (Initial ⟨true, false, [3, 1, 2], 0⟩) (newFixture ⟨0, 1, 1⟩) :=
    .start (initial_newFixture haccepted)
  exact (hall _ ⟨false, false⟩ _ haccepted _ hstart).tiebreaker_ne_secondary rfl

end RollbackTest

end MongoTests.ReplSets
