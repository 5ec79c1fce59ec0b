import MongoTests.Lib.Machine

/-!
# The five-node rollback fixture

`RollbackTestDeluxe` of `jstests/replsets/libs/rollback_test_deluxe.js`: three data nodes that take
turns as primary, rollback secondary and standby secondary, two arbiters, and mongobridges between all
of them. Every command to a server succeeds, and `rollbackShutdowns` is off. The nodes are of any type.

* `disconnect`, `reconnect`: links are severed and restored in both directions.
* `assignRoles`; one definition for each call of the fixture; `step`: an accepted call.
* `severedLinks`: the links that a state of the fixture is to have severed.
* **`fixture_topology`**: the roles and the severed links in every run, and when the roles come back.
-/

namespace MongoTests.ReplSets.RollbackTestDeluxe

open MongoTests.Lib

/-! ## The fixture -/

/-- `State`. -/
inductive TestState
  | kStopped
  | kRollbackOps
  | kSyncSourceOpsBeforeRollback
  | kSyncSourceOpsDuringRollback
  | kSteadyStateOps
  deriving DecidableEq, Repr

def acceptableTransitions : TestState → List TestState
  | .kStopped => []
  | .kRollbackOps => [.kSyncSourceOpsBeforeRollback]
  | .kSyncSourceOpsBeforeRollback => [.kSyncSourceOpsDuringRollback]
  | .kSyncSourceOpsDuringRollback => [.kSteadyStateOps]
  | .kSteadyStateOps => [.kStopped, .kRollbackOps]

inductive RoleCycleMode
  | kCyclical
  | kFixedRollbackSecondary
  | kRandom
  deriving DecidableEq, Repr

structure Roles (N : Type*) where
  curPrimary : N
  rollbackSecondary : N
  standbySecondary : N
  deriving DecidableEq, Repr

structure Fixture (N : Type*) where
  roles : Roles N
  arbiters : List N
  curState : TestState
  curRoleCycleMode : RoleCycleMode
  /-- The links that the mongobridges do not pass. -/
  severed : N → N → Bool

variable {N : Type*}

section Bridges

variable [DecidableEq N]

/-- The links between a node and some others. -/
def linksOf (node : N) (others : List N) (a b : N) : Bool :=
  decide (a = node ∧ b ∈ others ∨ b = node ∧ a ∈ others)

/-- `node.disconnect(others)`. -/
def Fixture.disconnect (f : Fixture N) (node : N) (others : List N) : Fixture N :=
  { f with severed := fun a b => f.severed a b || linksOf node others a b }

/-- `node.reconnect(others)`. -/
def Fixture.reconnect (f : Fixture N) (node : N) (others : List N) : Fixture N :=
  { f with severed := fun a b => f.severed a b && !linksOf node others a b }

end Bridges

/-- `transitionIfAllowed`, which throws if it is not. -/
def Fixture.transitionIfAllowed (f : Fixture N) (newState : TestState) : Option (Fixture N) :=
  if newState ∈ acceptableTransitions f.curState then some { f with curState := newState } else none

/-- `assignRoles`, when the standby secondary has become the primary; `shuffled` is what
`Array.shuffle` does to two elements. -/
def assignRoles (shuffled : Bool) (r : Roles N) : RoleCycleMode → Roles N
  | .kCyclical => {
      rollbackSecondary := r.curPrimary
      standbySecondary := r.rollbackSecondary
      curPrimary := r.standbySecondary }
  | .kFixedRollbackSecondary => { r with
      standbySecondary := r.curPrimary
      curPrimary := r.standbySecondary }
  | .kRandom => {
      standbySecondary := if shuffled then r.rollbackSecondary else r.curPrimary
      rollbackSecondary := if shuffled then r.curPrimary else r.rollbackSecondary
      curPrimary := r.standbySecondary }

/-! ## Its calls -/

section Calls

variable [DecidableEq N]

/-- The secondaries are connected before the transition is checked. -/
def transitionToSteadyStateOperations (f : Fixture N) : Option (Fixture N) :=
  let f := f.reconnect f.roles.rollbackSecondary
    (f.arbiters ++ [f.roles.curPrimary, f.roles.standbySecondary])
  let f := f.reconnect f.roles.standbySecondary (f.arbiters ++ [f.roles.curPrimary])
  f.transitionIfAllowed .kSteadyStateOps

def transitionToRollbackOperations (f : Fixture N) : Option (Fixture N) := do
  let f ← f.transitionIfAllowed .kRollbackOps
  return f.disconnect f.roles.standbySecondary
    (f.arbiters ++ [f.roles.curPrimary, f.roles.rollbackSecondary])

/-- The rollback secondary is elected. -/
def forceStepdownDuringRollbackOps (f : Fixture N) : Option (Fixture N) :=
  if f.curState = .kRollbackOps then
    some { f with roles := { f.roles with
      rollbackSecondary := f.roles.curPrimary
      curPrimary := f.roles.rollbackSecondary } }
  else none

/-- The standby secondary is elected once it is connected to the arbiters. -/
def transitionToSyncSourceOperationsBeforeRollback (shuffled : Bool) (f : Fixture N) :
    Option (Fixture N) := do
  let f ← f.transitionIfAllowed .kSyncSourceOpsBeforeRollback
  let f := f.disconnect f.roles.rollbackSecondary f.arbiters
  let f := f.disconnect f.roles.curPrimary f.arbiters
  let f := f.reconnect f.roles.standbySecondary f.arbiters
  return { f with roles := assignRoles shuffled f.roles f.curRoleCycleMode }

def transitionToSyncSourceOperationsDuringRollback (f : Fixture N) : Option (Fixture N) := do
  let f ← f.transitionIfAllowed .kSyncSourceOpsDuringRollback
  let f := f.reconnect f.roles.rollbackSecondary (f.arbiters ++ [f.roles.curPrimary])
  return f.reconnect f.roles.standbySecondary (f.arbiters ++ [f.roles.curPrimary])

/-- `checkDataConsistency` asserts the steady state. -/
def stop (f : Fixture N) : Option (Fixture N) :=
  if f.curState = .kSteadyStateOps then f.transitionIfAllowed .kStopped else none

inductive Call
  | toSteadyStateOperations
  | toRollbackOperations
  | forceStepdownDuringRollbackOps
  | toSyncSourceOperationsBeforeRollback (shuffled : Bool)
  | toSyncSourceOperationsDuringRollback
  | setRoleCycleMode (newMode : RoleCycleMode)
  /-- Does nothing, because shutdowns are off. -/
  | restartNode
  | stop
  deriving DecidableEq, Repr

/-- A call that does not throw. -/
def step (f : Fixture N) : Call → Option (Fixture N)
  | .toSteadyStateOperations => transitionToSteadyStateOperations f
  | .toRollbackOperations => transitionToRollbackOperations f
  | .forceStepdownDuringRollbackOps => forceStepdownDuringRollbackOps f
  | .toSyncSourceOperationsBeforeRollback shuffled =>
    transitionToSyncSourceOperationsBeforeRollback shuffled f
  | .toSyncSourceOperationsDuringRollback => transitionToSyncSourceOperationsDuringRollback f
  | .setRoleCycleMode newMode => some { f with curRoleCycleMode := newMode }
  | .restartNode => some f
  | .stop => RollbackTestDeluxe.stop f

end Calls

/-- The nodes in the order of their roles. -/
def Roles.nodes (r : Roles N) : List N := [r.curPrimary, r.rollbackSecondary, r.standbySecondary]

/-- The replica set of a fixture: three data nodes and two arbiters. -/
structure ReplSet (N : Type*) where
  data : List N
  arbiters : List N
  length_data : data.length = 3
  length_arbiters : arbiters.length = 2
  nodup : (data ++ arbiters).Nodup

/-- A new fixture: the data nodes have got their roles, and all nodes are connected. -/
structure Initial (rst : ReplSet N) (f : Fixture N) : Prop where
  roles : f.roles.nodes.Perm rst.data
  arbiters : f.arbiters = rst.arbiters
  curState : f.curState = .kSteadyStateOps
  curRoleCycleMode : f.curRoleCycleMode = .kCyclical
  severed : ∀ a b, f.severed a b = false

/-! ## The topology -/

/-- The links between two groups of nodes that a fixture is to have severed. -/
def severedLinks (f : Fixture N) : List N × List N :=
  match f.curState with
  | .kRollbackOps => ([f.roles.standbySecondary],
      [f.roles.curPrimary, f.roles.rollbackSecondary] ++ f.arbiters)
  | .kSyncSourceOpsBeforeRollback => ([f.roles.rollbackSecondary, f.roles.standbySecondary],
      f.roles.curPrimary :: f.arbiters)
  | .kSteadyStateOps | .kSyncSourceOpsDuringRollback | .kStopped => ([], [])

/-- A link between two groups. -/
def Between (g : List N × List N) (a b : N) : Prop := a ∈ g.1 ∧ b ∈ g.2 ∨ b ∈ g.1 ∧ a ∈ g.2

/-- The roles are those of the data nodes, and the links are severed as they are to be. -/
structure Topology (rst : ReplSet N) (f : Fixture N) : Prop where
  roles : f.roles.nodes.Perm rst.data
  arbiters : f.arbiters = rst.arbiters
  severed : ∀ a b, f.severed a b = true ↔ Between (severedLinks f) a b

section Steps

variable {rst : ReplSet N} {f f' : Fixture N}

theorem transitionIfAllowed_eq_some {newState : TestState} :
    f.transitionIfAllowed newState = some f' ↔
      newState ∈ acceptableTransitions f.curState ∧ { f with curState := newState } = f' := by
  unfold Fixture.transitionIfAllowed
  split_ifs with h
  · simp [h]
  · simp [h]

/-- The transitions, by the state that they lead to. -/
theorem mem_acceptableTransitions {s s' : TestState} (h : s' ∈ acceptableTransitions s) :
    s' = .kSteadyStateOps ∧ s = .kSyncSourceOpsDuringRollback ∨
    s' = .kRollbackOps ∧ s = .kSteadyStateOps ∨
    s' = .kSyncSourceOpsBeforeRollback ∧ s = .kRollbackOps ∨
    s' = .kSyncSourceOpsDuringRollback ∧ s = .kSyncSourceOpsBeforeRollback ∨
    s' = .kStopped ∧ s = .kSteadyStateOps := by
  revert h
  cases s <;> cases s' <;> decide

theorem Topology.nodup (h : Topology rst f) : (f.roles.nodes ++ f.arbiters).Nodup := by
  rw [h.arbiters]
  exact (h.roles.append_right rst.arbiters).nodup_iff.mpr rst.nodup

/-- The data nodes differ from each other and from the arbiters. -/
structure Distinct (r : Roles N) (arbiters : List N) : Prop where
  rollback_ne : r.rollbackSecondary ≠ r.curPrimary
  standby_ne : r.standbySecondary ≠ r.curPrimary
  standby_ne_rollback : r.standbySecondary ≠ r.rollbackSecondary
  primary_notMem : r.curPrimary ∉ arbiters
  rollback_notMem : r.rollbackSecondary ∉ arbiters
  standby_notMem : r.standbySecondary ∉ arbiters

theorem Topology.distinct (h : Topology rst f) : Distinct f.roles f.arbiters := by
  have hnodup := h.nodup
  simp only [Roles.nodes, List.cons_append, List.nil_append, List.nodup_cons, List.mem_cons,
    not_or] at hnodup
  obtain ⟨⟨hrollback, hstandby, hprimary⟩, ⟨hother, hrollbackArbiter⟩, hstandbyArbiter, -⟩ := hnodup
  exact ⟨Ne.symm hrollback, Ne.symm hstandby, Ne.symm hother, hprimary, hrollbackArbiter,
    hstandbyArbiter⟩

/-- The roles go round among the same nodes. -/
theorem perm_assignRoles (shuffled : Bool) (r : Roles N) (mode : RoleCycleMode) :
    (assignRoles shuffled r mode).nodes.Perm r.nodes := by
  obtain ⟨primary, rollback, standby⟩ := r
  have hcyclical : [standby, primary, rollback].Perm [primary, rollback, standby] := by
    show ([standby] ++ [primary, rollback]).Perm ([primary, rollback] ++ [standby])
    exact List.perm_append_comm
  have hfixed : [standby, rollback, primary].Perm [primary, rollback, standby] :=
    (List.Perm.cons standby (List.Perm.swap primary rollback [])).trans hcyclical
  cases mode with
  | kCyclical => exact hcyclical
  | kFixedRollbackSecondary => exact hfixed
  | kRandom =>
    cases shuffled with
    | true => exact hcyclical
    | false => exact hfixed

/-- The new primary is the old standby secondary, and the others are secondaries. -/
theorem mem_assignRoles (shuffled : Bool) (r : Roles N) (mode : RoleCycleMode) (a : N) :
    (assignRoles shuffled r mode).curPrimary = r.standbySecondary ∧
    (a ∈ [(assignRoles shuffled r mode).rollbackSecondary,
        (assignRoles shuffled r mode).standbySecondary] ↔
      a ∈ [r.curPrimary, r.rollbackSecondary]) := by
  cases mode with
  | kCyclical => exact ⟨rfl, Iff.rfl⟩
  | kFixedRollbackSecondary =>
    refine ⟨rfl, ?_⟩
    simp only [assignRoles, List.mem_cons, List.not_mem_nil, or_false]
    exact or_comm
  | kRandom =>
    refine ⟨rfl, ?_⟩
    cases shuffled with
    | true => exact Iff.rfl
    | false =>
      simp only [assignRoles, List.mem_cons, List.not_mem_nil, or_false]
      exact or_comm

variable [DecidableEq N]

theorem severed_disconnect {node a b : N} {others : List N} :
    (f.disconnect node others).severed a b = true ↔
      f.severed a b = true ∨ (a = node ∧ b ∈ others ∨ b = node ∧ a ∈ others) := by
  simp [Fixture.disconnect, linksOf]

theorem severed_reconnect {node a b : N} {others : List N} :
    (f.reconnect node others).severed a b = true ↔
      f.severed a b = true ∧ ¬ (a = node ∧ b ∈ others ∨ b = node ∧ a ∈ others) := by
  simp only [Fixture.reconnect, linksOf, Bool.and_eq_true, Bool.not_eq_true',
    decide_eq_false_iff_not]

theorem Topology.step (h : Topology rst f) {c : Call} (hs : RollbackTestDeluxe.step f c = some f') :
    Topology rst f' := by
  obtain ⟨hrollback, hstandby, hother, hprimaryArbiter, hrollbackArbiter, hstandbyArbiter⟩ :=
    h.distinct
  have hsevered := h.severed
  cases c with
  | toSteadyStateOperations =>
    obtain ⟨hallowed, rfl⟩ := transitionIfAllowed_eq_some.mp hs
    have hstate : f.curState = .kSyncSourceOpsDuringRollback := by
      simpa [Fixture.reconnect] using mem_acceptableTransitions hallowed
    refine ⟨h.roles, h.arbiters, fun a b => ?_⟩
    have hab := hsevered a b
    rw [severedLinks, hstate] at hab
    have hnone : f.severed a b = false := by simpa [Between] using hab
    simp [Fixture.reconnect, hnone, severedLinks, Between]
  | toRollbackOperations =>
    obtain ⟨f₁, htransition, hreturn⟩ := Option.bind_eq_some_iff.mp hs
    obtain ⟨hallowed, rfl⟩ := transitionIfAllowed_eq_some.mp htransition
    cases hreturn
    have hstate : f.curState = .kSteadyStateOps := by
      simpa using mem_acceptableTransitions hallowed
    refine ⟨h.roles, h.arbiters, fun a b => ?_⟩
    have hab := hsevered a b
    rw [severedLinks, hstate] at hab
    rw [severed_disconnect, hab]
    simp only [Fixture.disconnect, severedLinks, Between, List.mem_append, List.mem_cons,
      List.not_mem_nil]
    grind
  | forceStepdownDuringRollbackOps =>
    rw [RollbackTestDeluxe.step, forceStepdownDuringRollbackOps] at hs
    split_ifs at hs with hstate
    cases hs
    refine ⟨(List.Perm.swap _ _ _).trans h.roles, h.arbiters, fun a b => ?_⟩
    have hab := hsevered a b
    rw [severedLinks, hstate] at hab
    rw [hab, severedLinks]
    simp only [hstate, Between, List.mem_append, List.mem_cons, List.not_mem_nil]
    grind
  | toSyncSourceOperationsBeforeRollback shuffled =>
    obtain ⟨f₁, htransition, hreturn⟩ := Option.bind_eq_some_iff.mp hs
    obtain ⟨hallowed, rfl⟩ := transitionIfAllowed_eq_some.mp htransition
    cases hreturn
    have hstate : f.curState = .kRollbackOps := by
      simpa using mem_acceptableTransitions hallowed
    refine ⟨(perm_assignRoles _ _ _).trans h.roles, h.arbiters, fun a b => ?_⟩
    have hab := hsevered a b
    rw [severedLinks, hstate] at hab
    obtain ⟨hprimary, ha⟩ := mem_assignRoles shuffled f.roles f.curRoleCycleMode a
    have hb := (mem_assignRoles shuffled f.roles f.curRoleCycleMode b).2
    -- The links of the standby secondary to the arbiters are restored, those of the others severed.
    have hlinks : Between ([f.roles.curPrimary, f.roles.rollbackSecondary],
        f.roles.standbySecondary :: f.arbiters) a b ↔
        (((f.disconnect f.roles.rollbackSecondary f.arbiters).disconnect f.roles.curPrimary
          f.arbiters).reconnect f.roles.standbySecondary f.arbiters).severed a b = true := by
      rw [severed_reconnect, severed_disconnect, severed_disconnect, hab]
      simp only [Between, List.mem_append, List.mem_cons, List.not_mem_nil]
      grind
    refine Iff.trans hlinks.symm ?_
    rw [Between, Between, ← ha, ← hb, ← hprimary]
    rfl
  | toSyncSourceOperationsDuringRollback =>
    obtain ⟨f₁, htransition, hreturn⟩ := Option.bind_eq_some_iff.mp hs
    obtain ⟨hallowed, rfl⟩ := transitionIfAllowed_eq_some.mp htransition
    cases hreturn
    have hstate : f.curState = .kSyncSourceOpsBeforeRollback := by
      simpa using mem_acceptableTransitions hallowed
    refine ⟨h.roles, h.arbiters, fun a b => ?_⟩
    have hab := hsevered a b
    rw [severedLinks, hstate] at hab
    rw [severed_reconnect, severed_reconnect, hab]
    simp only [Fixture.reconnect, severedLinks, Between, List.mem_append, List.mem_cons,
      List.not_mem_nil]
    grind
  | setRoleCycleMode newMode =>
    cases hs
    exact ⟨h.roles, h.arbiters, h.severed⟩
  | restartNode =>
    cases hs
    exact h
  | stop =>
    rw [RollbackTestDeluxe.step, RollbackTestDeluxe.stop] at hs
    split_ifs at hs with hstate
    obtain ⟨-, rfl⟩ := transitionIfAllowed_eq_some.mp hs
    refine ⟨h.roles, h.arbiters, fun a b => ?_⟩
    have hab := hsevered a b
    rw [severedLinks, hstate] at hab
    exact hab

end Steps

/-! ## Cycles of roles -/

/-- The call keeps the mode, and it is not a forced stepdown. -/
def Undisturbed (mode : RoleCycleMode) (_ : Fixture N) (c : Call) : Prop :=
  c ≠ .forceStepdownDuringRollbackOps ∧ ∀ newMode, c = .setRoleCycleMode newMode → newMode = mode

instance (mode : RoleCycleMode) (f : Fixture N) (c : Call) : Decidable (Undisturbed mode f c) :=
  match c with
  | .forceStepdownDuringRollbackOps => isFalse fun h => h.1 rfl
  | .setRoleCycleMode newMode =>
    decidable_of_iff (newMode = mode)
      ⟨fun h => ⟨nofun, fun _ heq => (Call.setRoleCycleMode.inj heq) ▸ h⟩, fun h => h.2 newMode rfl⟩
  | .toSteadyStateOperations | .toRollbackOperations | .toSyncSourceOperationsBeforeRollback _
  | .toSyncSourceOperationsDuringRollback | .restartNode | .stop => isTrue ⟨nofun, nofun⟩

/-- The call assigns the roles, as one call of every full cycle does. -/
def Call.assigns : Call → Bool
  | .toSyncSourceOperationsBeforeRollback _ => true
  | _ => false

section Cycles

variable {mode : RoleCycleMode} {f f' : Fixture N}

/-- Chance decides in one mode only. -/
theorem assignRoles_eq (h : mode ≠ .kRandom) (shuffled : Bool) (r : Roles N) :
    assignRoles shuffled r mode = assignRoles false r mode := by
  cases mode with
  | kCyclical | kFixedRollbackSecondary => rfl
  | kRandom => exact absurd rfl h

variable [DecidableEq N]

theorem roles_step (hrandom : mode ≠ .kRandom) (hmode : f.curRoleCycleMode = mode) {c : Call}
    (hc : Undisturbed mode f c) (hs : step f c = some f') : f'.curRoleCycleMode = mode ∧
      f'.roles = if c.assigns then assignRoles false f.roles mode else f.roles := by
  cases c with
  | toSteadyStateOperations =>
    obtain ⟨-, rfl⟩ := transitionIfAllowed_eq_some.mp hs
    exact ⟨hmode, rfl⟩
  | toRollbackOperations =>
    obtain ⟨f₁, htransition, hreturn⟩ := Option.bind_eq_some_iff.mp hs
    obtain ⟨-, rfl⟩ := transitionIfAllowed_eq_some.mp htransition
    cases hreturn
    exact ⟨hmode, rfl⟩
  | forceStepdownDuringRollbackOps => exact absurd rfl hc.1
  | toSyncSourceOperationsBeforeRollback shuffled =>
    obtain ⟨f₁, htransition, hreturn⟩ := Option.bind_eq_some_iff.mp hs
    obtain ⟨-, rfl⟩ := transitionIfAllowed_eq_some.mp htransition
    cases hreturn
    refine ⟨hmode, ?_⟩
    show assignRoles shuffled f.roles f.curRoleCycleMode = assignRoles false f.roles mode
    rw [hmode]
    exact assignRoles_eq hrandom shuffled f.roles
  | toSyncSourceOperationsDuringRollback =>
    obtain ⟨f₁, htransition, hreturn⟩ := Option.bind_eq_some_iff.mp hs
    obtain ⟨-, rfl⟩ := transitionIfAllowed_eq_some.mp htransition
    cases hreturn
    exact ⟨hmode, rfl⟩
  | setRoleCycleMode newMode =>
    cases hs
    exact ⟨hc.2 newMode rfl, rfl⟩
  | restartNode =>
    cases hs
    exact ⟨hmode, rfl⟩
  | stop =>
    rw [step, RollbackTestDeluxe.stop] at hs
    split_ifs at hs
    obtain ⟨-, rfl⟩ := transitionIfAllowed_eq_some.mp hs
    exact ⟨hmode, rfl⟩

/-- The roles after some calls, by how often they were assigned. -/
theorem roles_run (hrandom : mode ≠ .kRandom) (hmode : f.curRoleCycleMode = mode)
    (calls : List Call) (hs : run step (Undisturbed mode) f calls = some f') :
    f'.roles = (assignRoles false · mode)^[calls.countP Call.assigns] f.roles := by
  induction calls generalizing f with
  | nil =>
    cases hs
    rfl
  | cons c calls ih =>
    rw [run] at hs
    split_ifs at hs with hc
    obtain ⟨f₁, hstep, hrun⟩ := Option.bind_eq_some_iff.mp hs
    obtain ⟨hmode₁, hroles⟩ := roles_step hrandom hmode hc hstep
    rw [ih hmode₁ hrun, hroles, List.countP_cons]
    split_ifs
    · rw [Function.iterate_succ_apply]
    · rfl

/-- **The five-node topology.** In every run of accepted calls, with every shuffle, the three roles
are held by the three data nodes and the severed links are those of the state. From every state of
such a run, calls that leave the mode and do not force a stepdown bring every node back to its role
after three cycles in one mode and after two in the other. -/
theorem fixture_topology {rst : ReplSet N} (h : Reach step Free (Initial rst) f) :
    f.roles.nodes.Perm rst.data ∧ f.roles.nodes.Nodup ∧
    (∀ a b, f.severed a b = true ↔ Between (severedLinks f) a b) ∧
    (∀ calls f', f.curRoleCycleMode = .kCyclical →
      run step (Undisturbed .kCyclical) f calls = some f' → calls.countP Call.assigns = 3 →
      f'.roles = f.roles) ∧
    ∀ calls f', f.curRoleCycleMode = .kFixedRollbackSecondary →
      run step (Undisturbed .kFixedRollbackSecondary) f calls = some f' →
      calls.countP Call.assigns = 2 → f'.roles = f.roles := by
  have hinv : Topology rst f := by
    refine Reach.inv (I := Topology rst) ?_ (fun _ _ _ hinv _ hs => hinv.step hs) h
    rintro f ⟨hroles, harbiters, hstate, -, hsevered⟩
    refine ⟨hroles, harbiters, fun a b => ?_⟩
    rw [hsevered, severedLinks, hstate]
    simp [Between]
  refine ⟨hinv.roles, (List.nodup_append.mp hinv.nodup).1, hinv.severed, ?_, ?_⟩
  · intro calls f' hmode hrun hcount
    rw [roles_run (by decide) hmode calls hrun, hcount]
    rfl
  · intro calls f' hmode hrun hcount
    rw [roles_run (by decide) hmode calls hrun, hcount]
    rfl

end Cycles

/-- Nodes 0, 1 and 2 hold data, nodes 3 and 4 are arbiters. -/
def fiveNodes : ReplSet (Fin 5) := ⟨[0, 1, 2], [3, 4], rfl, rfl, by decide⟩

def fiveNodeFixture : Fixture (Fin 5) :=
  ⟨⟨0, 1, 2⟩, [3, 4], .kSteadyStateOps, .kCyclical, fun _ _ => false⟩

/-- The second stage: the old primary and the rollback secondary are cut off from the others. -/
theorem fixture_topology_second_stage :
    ∃ f : Fixture (Fin 5), f.roles = ⟨2, 1, 0⟩ ∧ f.curState = .kSyncSourceOpsBeforeRollback ∧
      ∀ a b, f.severed a b = true ↔ Between ([1, 0], [2, 3, 4]) a b := by
  have hrun : ∃ f : Fixture (Fin 5), Reach step Free (Initial fiveNodes) f ∧
      f.roles = ⟨2, 1, 0⟩ ∧ f.arbiters = [3, 4] ∧ f.curState = .kSyncSourceOpsBeforeRollback :=
    Reach.exists_of_run
      (.start (s := fiveNodeFixture) ⟨.refl _, rfl, rfl, rfl, fun _ _ => rfl⟩)
      [.setRoleCycleMode .kFixedRollbackSecondary, .toRollbackOperations,
        .toSyncSourceOperationsBeforeRollback true] (by decide)
  obtain ⟨f, hf, hroles, harbiters, hstate⟩ := hrun
  have hsevered := (fixture_topology hf).2.2.1
  rw [severedLinks, hstate, hroles, harbiters] at hsevered
  exact ⟨f, hroles, hstate, hsevered⟩

end MongoTests.ReplSets.RollbackTestDeluxe
