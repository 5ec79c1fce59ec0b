import Mathlib.Data.Int.Notation
import MongoTests.Lib.Dict
import MongoTests.Lib.Program

/-!
# Killing the secondaries

The hook `PeriodicKillSecondaries` restarts the secondaries of a replica set one by one, first as
standalone nodes, and then the whole fixture. It changes options of the nodes meanwhile. Each call
that starts, checks or stops a process is a parameter: it returns or raises.

* `checkInvariantsAsStandalone`, `checkSecondariesAndRestartFixture`: the code of the hook.
* `SameOptions`: the options that the hook changes have their values.
* `Succeeds`: no step before the last phase raises.
* **`options_restored_iff`**: when the options are restored.
-/

namespace MongoTests.Hooks.KillSecondaries

open MongoTests.Lib Prog

/-! ## The fixture -/

inductive OptionValue
  | text (s : String)
  | number (k : ℤ)
  | parameters (d : Dict String String)

/-- What the hook uses of a `MongoDFixture`. -/
structure Node where
  preserveDbpath : Bool
  mongodOptions : Dict String OptionValue

/-- `fixture.nodes` -/
abbrev Fixture (n : ℕ) := Fin n → Node

inductive Raised
  | serverFailure (msg : String)
  /-- `pymongo.errors.OperationFailure`, with `err.args[0]`. -/
  | operationFailure (arg : String)
  | keyError (key : String)
  | other
  deriving DecidableEq

/-- How a node is started. -/
inductive Role
  | standalone
  | member
  deriving DecidableEq

/-- The calls that start, check and stop processes. -/
inductive Call (n : ℕ)
  | setup (role : Role) (i : Fin n)
  | awaitReady (role : Role) (i : Fin n)
  /-- `_check_invariants_as_standalone` reads the documents of the node and compares them. -/
  | compareTimestamps (i : Fin n)
  | awaitSecondaryState (i : Fin n)
  | teardown (role : Role) (i : Fin n)
  /-- In the setup of the fixture. -/
  | nodeSetup (i : Fin n)
  /-- The setup of the fixture, after its nodes are set up. -/
  | initiate
  | fixtureAwaitReady
  deriving DecidableEq

/-- The parameters: `next_fixture_port`, the texts and ports of the nodes, and what calls do. -/
structure Env (n : ℕ) where
  call : Call n → Except Raised Unit
  getPrimary : Except Raised (Fin n)
  name : Fin n → String
  port : Fin n → ℤ
  nextPort : Fin n → ℤ
  linearChain : Bool
  /-- The value of `failpoint.forceSyncSourceCandidate` for a node. -/
  syncSource : Fin n → String

section Hook

variable {n : ℕ} (env : Env n)

abbrev Act (n : ℕ) := Prog (Fixture n) Raised Unit

def run (c : Call n) : Act n :=
  match env.call c with
  | .ok () => pure ()
  | .error e => throw e

def setOption (i : Fin n) (key : String) (v : OptionValue) (f : Fixture n) : Fixture n :=
  Function.update f i { f i with mongodOptions := (f i).mongodOptions.set key v }

/-- A node without a port gets one. -/
def choosePort (i : Fin n) : Act n :=
  modify fun f =>
    if ((f i).mongodOptions.get "port").isNone then
      setOption i "port" (.number (env.nextPort i)) f
    else f

/-- `setup` of a node. -/
def setup (i : Fin n) (c : Call n) : Act n := do
  choosePort env i
  run env c

/-- With `linear_chain` each node but the first one syncs from its predecessor. -/
def chain (i : Fin n) : Act n := do
  let f ← get
  if env.linearChain ∧ 0 < i.val then
    match (f i).mongodOptions.get "set_parameters" with
    | some (.parameters d) =>
      modify (setOption i "set_parameters"
        (.parameters (d.set "failpoint.forceSyncSourceCandidate" (env.syncSource i))))
    | some _ => throw .other
    | none => throw (.keyError "set_parameters")
  else pure ()

/-- `self.fixture.setup()` -/
def fixtureSetup : Act n := do
  (List.finRange n).forM fun i => do
    chain env i
    setup env i (.nodeSetup i)
  run env .initiate

/-- `except errors.ServerFailure: raise errors.ServerFailure(msg)` -/
def replaceServerFailure (msg : String) : Raised → Raised
  | .serverFailure _ => .serverFailure msg
  | e => e

/-- `except pymongo.errors.OperationFailure as err`, where the text ends with the error. -/
def replaceOperationFailure (msg : String) : Raised → Raised
  | .operationFailure arg => .serverFailure (msg ++ arg)
  | e => e

def awaitReplTimeoutForeverMins : ℤ := 24 * 60

/-- `_await_secondary_state` -/
def awaitSecondaryState (i : Fin n) : Act n :=
  tryCatch (run env (.awaitSecondaryState i)) fun e =>
    throw (replaceOperationFailure ("mongod on port " ++ toString (env.port i) ++
      " failed to reach state SECONDARY after " ++ toString (awaitReplTimeoutForeverMins * 60) ++
      " seconds: ") e)

/-- `teardown`, which has to succeed. -/
def teardown (role : Role) (i : Fin n) (what : String) : Act n :=
  tryCatch (run env (.teardown role i)) fun e =>
    throw (replaceServerFailure (env.name i ++ " did not exit cleanly after " ++ what) e)

/-- The body of `_check_invariants_as_standalone`. -/
def standalone (i : Fin n) : Act n := do
  setup env i (.setup .standalone i)
  run env (.awaitReady .standalone i)
  run env (.compareTimestamps i)
  teardown env .standalone i "being started up as a standalone"

/-- `pop("replSet")` -/
def popReplSet (i : Fin n) (f : Fixture n) : Fixture n :=
  Function.update f i
    { f i with mongodOptions := (f i).mongodOptions.filter fun p => p.1 ≠ "replSet" }

/-- `_check_invariants_as_standalone` -/
def checkInvariantsAsStandalone (i : Fin n) : Act n := do
  let f ← get
  match (f i).mongodOptions.get "replSet" with
  | none => throw (.keyError "replSet")
  | some replsetName => do
    modify (popReplSet i)
    ensuring
      (tryCatch (standalone env i) fun e =>
        throw (replaceOperationFailure ("Failed to read the minValid document, the " ++
          "oplogTruncateAfterPoint document, the last stable recovery timestamp, or the latest " ++
          "oplog entry from the mongod on port " ++ toString (env.port i) ++ ": ") e))
      (setOption i "replSet" replsetName)

/-- A round of the loop over the secondaries. -/
def restartSecondary (i : Fin n) : Act n := do
  checkInvariantsAsStandalone env i
  setup env i (.setup .member i)
  run env (.awaitReady .member i)
  awaitSecondaryState env i
  teardown env .member i "reconciling the end of its oplog"

/-- `get_secondaries`, when the primary is known. -/
def secondaries (primary : Fin n) : List (Fin n) :=
  (List.finRange n).filter fun i => env.port i ≠ env.port primary

def preserveAll (f : Fixture n) : Fixture n := fun i => { f i with preserveDbpath := true }

/-- Give the nodes the values of `preserve_dbpaths`. -/
def restore (preserveDbpaths : Fin n → Bool) (f : Fixture n) : Fixture n :=
  fun i => { f i with preserveDbpath := preserveDbpaths i }

/-- The loop over the secondaries. -/
def restartSecondaries : Act n :=
  match env.getPrimary with
  | .error e => throw e
  | .ok primary => (secondaries env primary).forM (restartSecondary env)

/-- `_check_secondaries_and_restart_fixture` -/
def checkSecondariesAndRestartFixture : Act n := do
  let f ← get
  modify preserveAll
  restartSecondaries env
  ensuring
    (do
      fixtureSetup env
      run env .fixtureAwaitReady)
    (restore fun i => (f i).preserveDbpath)

end Hook

/-! ## The options -/

section Options

variable {n : ℕ} {f g h : Fixture n} {i : Fin n}

/-- The `replSet` entries are the same. -/
def SameReplSet (f g : Fixture n) : Prop :=
  ∀ i, (g i).mongodOptions.get "replSet" = (f i).mongodOptions.get "replSet"

def SamePreserve (f g : Fixture n) : Prop := ∀ i, (g i).preserveDbpath = (f i).preserveDbpath

/-- The options that the hook changes have the same values. -/
def SameOptions (f g : Fixture n) : Prop := SamePreserve f g ∧ SameReplSet f g

theorem SameOptions.refl (f : Fixture n) : SameOptions f f := ⟨fun _ => rfl, fun _ => rfl⟩

theorem SameOptions.trans (hf : SameOptions f g) (hg : SameOptions g h) : SameOptions f h :=
  ⟨fun i => (hg.1 i).trans (hf.1 i), fun i => (hg.2 i).trans (hf.2 i)⟩

theorem setOption_same {key : String} {v : OptionValue} (hkey : key ≠ "replSet") :
    SameOptions f (setOption i key v f) := by
  constructor
  · intro j
    by_cases hj : j = i
    · subst hj
      rw [setOption, Function.update_self]
    · rw [setOption, Function.update_of_ne hj]
  · intro j
    by_cases hj : j = i
    · subst hj
      rw [setOption, Function.update_self]
      dsimp only
      rw [Dict.get_set, if_neg hkey.symm]
    · rw [setOption, Function.update_of_ne hj]

/-- What was popped is put back, and nothing else has changed. -/
theorem setOption_replSet {v : OptionValue} (hv : (f i).mongodOptions.get "replSet" = some v)
    (hg : SameOptions (popReplSet i f) g) : SameOptions f (setOption i "replSet" v g) := by
  have hpop : ∀ j, j ≠ i → popReplSet i f j = f j := fun j hj => by
    rw [popReplSet, Function.update_of_ne hj]
  constructor
  · intro j
    by_cases hj : j = i
    · subst hj
      rw [setOption, Function.update_self]
      dsimp only
      rw [hg.1 j, popReplSet, Function.update_self]
    · rw [setOption, Function.update_of_ne hj, hg.1 j, hpop j hj]
  · intro j
    by_cases hj : j = i
    · subst hj
      rw [setOption, Function.update_self]
      dsimp only
      rw [Dict.get_set, if_pos rfl, hv]
    · rw [setOption, Function.update_of_ne hj, hg.2 j, hpop j hj]

end Options

/-! ## The steps -/

section Steps

variable {n : ℕ} {env : Env n} {f : Fixture n} {i : Fin n}

/-- The program returns when `c` holds, and it keeps the options. -/
abbrev Keeps (c : Prop) (m : Act n) (f : Fixture n) : Prop := Prog.Guarded SameOptions c m f

def Returns (env : Env n) (c : Call n) : Prop := env.call c = .ok ()

theorem keeps_run (env : Env n) (c : Call n) (f : Fixture n) :
    Keeps (Returns env c) (run env c) f := by
  unfold Keeps Prog.Guarded run Returns
  cases env.call c with
  | ok u => exact ⟨rfl, .refl f⟩
  | error e => exact ⟨(fun h => by cases h), .refl f⟩

theorem keeps_bind {c d : Prop} {m m' : Act n} (hm : Keeps c m f)
    (hm' : ∀ g, SameOptions f g → Keeps d m' g) : Keeps (c ∧ d) (m >>= fun _ => m') f :=
  hm.bind (fun _ _ _ => SameOptions.trans) hm'

theorem keeps_setup (env : Env n) (i : Fin n) (c : Call n) (f : Fixture n) :
    Keeps (Returns env c) (setup env i c) f := by
  have hport : Keeps True (choosePort env i) f := by
    refine Prog.Guarded.modify ?_
    split_ifs
    · exact setOption_same (by decide)
    · exact .refl f
  exact (keeps_bind hport fun g _ => keeps_run env c g).congr (iff_of_eq (true_and _))

theorem keeps_teardown (env : Env n) (role : Role) (i : Fin n) (what : String) (f : Fixture n) :
    Keeps (Returns env (.teardown role i)) (teardown env role i what) f :=
  (keeps_run env _ f).mapError

/-- The standalone phase. -/
def StandaloneSucceeds (env : Env n) (i : Fin n) : Prop :=
  Returns env (.setup .standalone i) ∧ Returns env (.awaitReady .standalone i) ∧
    Returns env (.compareTimestamps i) ∧ Returns env (.teardown .standalone i)

theorem keeps_standalone (env : Env n) (i : Fin n) (f : Fixture n) :
    Keeps (StandaloneSucceeds env i) (standalone env i) f :=
  keeps_bind (keeps_setup env i _ f) fun g _ => keeps_bind (keeps_run env _ g) fun g _ =>
    keeps_bind (keeps_run env _ g) fun g _ => keeps_teardown env _ i _ g

/-- **The standalone check gives the `replSet` entry back**, whatever it raises. -/
theorem keeps_checkInvariantsAsStandalone (env : Env n) (i : Fin n) (f : Fixture n) :
    Keeps ((f i).mongodOptions.get "replSet" ≠ none ∧ StandaloneSucceeds env i)
      (checkInvariantsAsStandalone env i) f := by
  unfold checkInvariantsAsStandalone Keeps Prog.Guarded
  rw [wp_bind, wp_get]
  cases hname : (f i).mongodOptions.get "replSet" with
  | none => exact ⟨fun h => h.1 rfl, .refl f⟩
  | some replsetName =>
    dsimp only
    rw [wp_bind, wp_modify, wp_ensuring]
    refine wp.mono (keeps_standalone env i (popReplSet i f)).mapError ?_ ?_ ?_
    · exact fun _ g hg => ⟨⟨Option.some_ne_none _, hg.1⟩, setOption_replSet hname hg.2⟩
    · exact fun _ g hg => ⟨fun h => hg.1 h.2, setOption_replSet hname hg.2⟩
    · exact fun _ hg => hg

/-- The phase as a member of the replica set. -/
def MemberSucceeds (env : Env n) (i : Fin n) : Prop :=
  Returns env (.setup .member i) ∧ Returns env (.awaitReady .member i) ∧
    Returns env (.awaitSecondaryState i) ∧ Returns env (.teardown .member i)

/-- The node has its `replSet` entry, and no call for it raises. -/
def RestartSucceeds (env : Env n) (f : Fixture n) (i : Fin n) : Prop :=
  ((f i).mongodOptions.get "replSet" ≠ none ∧ StandaloneSucceeds env i) ∧ MemberSucceeds env i

theorem keeps_restartSecondary (env : Env n) (i : Fin n) (f : Fixture n) :
    Keeps (RestartSucceeds env f i) (restartSecondary env i) f :=
  keeps_bind (keeps_checkInvariantsAsStandalone env i f) fun g _ =>
    keeps_bind (keeps_setup env i _ g) fun g _ => keeps_bind (keeps_run env _ g) fun g _ =>
      keeps_bind (keeps_run env _ g).mapError fun g _ => keeps_teardown env _ i _ g

/-- No step before the last phase raises: the primary is found, and all secondaries restart. -/
def Succeeds (env : Env n) (f : Fixture n) : Prop :=
  ∃ primary, env.getPrimary = .ok primary ∧ ∀ i ∈ secondaries env primary, RestartSucceeds env f i

theorem keeps_restartSecondaries (env : Env n) (f : Fixture n) :
    Keeps (Succeeds env f) (restartSecondaries env) f := by
  unfold restartSecondaries Succeeds
  cases env.getPrimary with
  | error e =>
    refine ⟨?_, .refl f⟩
    rintro ⟨_, h, -⟩
    cases h
  | ok primary =>
    have hloop : Keeps (∀ i ∈ secondaries env primary, RestartSucceeds env f i)
        ((secondaries env primary).forM (restartSecondary env)) f := by
      refine Prog.Guarded.forM (r := SameOptions) (fun _ _ _ => SameOptions.trans) .refl _
        fun i _ g hg => ?_
      refine (keeps_restartSecondary env i g).congr ?_
      rw [RestartSucceeds, RestartSucceeds, hg.2 i]
    refine hloop.congr ⟨fun h => ⟨primary, rfl, h⟩, ?_⟩
    rintro ⟨_, heq, h⟩
    cases heq
    exact h

theorem preserves_chain (env : Env n) (i : Fin n) (f : Fixture n) :
    Preserves SameOptions (chain env i) f := by
  unfold chain Preserves
  rw [wp_bind, wp_get]
  split_ifs
  · split
    · exact setOption_same (by decide)
    · exact .refl f
    · exact .refl f
  · exact .refl f

/-- The last phase changes none of these options. -/
theorem preserves_fixtureSetup (env : Env n) (f : Fixture n) :
    Preserves SameOptions
      (do
        fixtureSetup env
        run env .fixtureAwaitReady) f := by
  have htrans : ∀ f g h : Fixture n, SameOptions f g → SameOptions g h → SameOptions f h :=
    fun _ _ _ => SameOptions.trans
  have hnodes : Preserves SameOptions (fixtureSetup env) f := by
    refine Preserves.bind htrans (Preserves.forM htrans .refl _ fun i g => ?_) fun g _ =>
      (keeps_run env _ g).preserves
    exact Preserves.bind htrans (preserves_chain env i g) fun g _ =>
      (keeps_setup env i _ g).preserves
  exact Preserves.bind htrans hnodes fun g _ => (keeps_run env _ g).preserves

end Steps

/-! ## The hook -/

section Restored

variable {n : ℕ} {env : Env n} {f : Fixture n}

/-- How the method ends: the `replSet` entries are given back in every case. The values of
`preserve_dbpath` are those from before when no step before the last phase raises, and otherwise they
are all true. -/
def Ends (env : Env n) (f g : Fixture n) : Prop :=
  SameReplSet f g ∧ (Succeeds env f ∧ SamePreserve f g ∨
    ¬ Succeeds env f ∧ ∀ i, (g i).preserveDbpath = true)

theorem wp_checkSecondariesAndRestartFixture (env : Env n) (f : Fixture n) :
    wp (checkSecondariesAndRestartFixture env) (fun _ => Ends env f) (fun _ => Ends env f)
      (fun _ => False) f := by
  unfold checkSecondariesAndRestartFixture
  rw [wp_bind, wp_get, wp_bind, wp_modify, wp_bind]
  have hrestart : Keeps (Succeeds env f) (restartSecondaries env) (preserveAll f) :=
    keeps_restartSecondaries env (preserveAll f)
  refine wp.mono hrestart (fun _ g hg => ?_) (fun _ g hg => ?_) fun _ hg => hg
  · -- All secondaries have restarted, and the `finally` clause follows the last phase.
    rw [wp_ensuring]
    have hends : ∀ h, SameOptions g h →
        Ends env f (restore (fun i => (f i).preserveDbpath) h) :=
      fun h hh => ⟨fun i => (hh.2 i).trans (hg.2.2 i), .inl ⟨hg.1, fun _ => rfl⟩⟩
    exact wp.mono (preserves_fixtureSetup env g) (fun _ h hh => hends h hh)
      (fun _ h hh => hends h hh) fun _ hh => hh
  · -- The exception leaves the method before the `try` statement.
    exact ⟨hg.2.2, .inr ⟨hg.1, fun i => (hg.2.1 i).trans rfl⟩⟩

/-- **When the options are restored.** However the method ends, the nodes have their `replSet`
entries. All options are as before exactly when no step before the last phase raises, or all data
directories were preserved anyway. -/
theorem options_restored_iff (env : Env n) (f : Fixture n) :
    ∃ o g, checkSecondariesAndRestartFixture env f = (o, g) ∧ (o = .ok () ∨ ∃ e, o = .error e) ∧
      SameReplSet f g ∧
      (SameOptions f g ↔ Succeeds env f ∨ ∀ i, (f i).preserveDbpath = true) := by
  have hwp := wp_checkSecondariesAndRestartFixture env f
  obtain ⟨⟨o, g⟩, hrun⟩ : ∃ x, checkSecondariesAndRestartFixture env f = x := ⟨_, rfl⟩
  have hends : Ends env f g →
      SameReplSet f g ∧ (SameOptions f g ↔ Succeeds env f ∨ ∀ i, (f i).preserveDbpath = true) := by
    rintro ⟨hrepl, ⟨hsucceeds, hpreserve⟩ | ⟨hfails, htrue⟩⟩
    · exact ⟨hrepl, iff_of_true ⟨hpreserve, hrepl⟩ (.inl hsucceeds)⟩
    · refine ⟨hrepl, ?_⟩
      rw [or_iff_right hfails]
      constructor
      · exact fun h i => (h.1 i).symm.trans (htrue i)
      · exact fun h => ⟨fun i => (htrue i).trans (h i).symm, hrepl⟩
  refine ⟨o, g, hrun, ?_⟩
  cases o with
  | ok u => exact ⟨.inl rfl, hends (hwp.ok hrun)⟩
  | error e => exact ⟨.inr ⟨e, rfl⟩, hends (hwp.error hrun)⟩
  | stop => exact (hwp.stop hrun).elim

end Restored

/-! ## A failing secondary -/

/-- Two nodes, the last one a secondary that does not exit cleanly after its standalone phase. -/
def uncleanExit : Env 2 where
  call c := if c = .teardown .standalone (Fin.last 1) then .error (.serverFailure "exit code 14")
    else .ok ()
  getPrimary := .ok (Fin.last 1).rev
  name i := if i = Fin.last 1 then "node1" else "node0"
  port i := if i = Fin.last 1 then 20001 else 20000
  nextPort i := if i = Fin.last 1 then 20001 else 20000
  linearChain := false
  syncSource _ := ""

/-- Nodes that do not preserve their data. -/
def twoNodes : Fixture 2 := fun _ => ⟨false, Dict.empty.set "replSet" (.text "rs")⟩

/-- **Options that are not restored.** The method raises, and both nodes go on preserving their
data. -/
theorem preserve_dbpath_not_restored :
    let x := checkSecondariesAndRestartFixture uncleanExit twoNodes
    x.1 = .error (.serverFailure
      "node1 did not exit cleanly after being started up as a standalone") ∧
    (∀ i, (twoNodes i).preserveDbpath = false) ∧ ∀ i, (x.2 i).preserveDbpath = true := by
  refine ⟨rfl, ?_, ?_⟩
  · decide
  · decide

end MongoTests.Hooks.KillSecondaries
