import Mathlib.Data.List.Nodup
import Mathlib.Data.Nat.Notation
import MongoTests.Lib.Checked

/-!
# Stopping the continuous stepdowns of a sharded cluster

`stopContinuousFailover` of `continuous_stepdown.js`: the stepdown threads of the replica sets are
stopped, and then `collStats` is run on every collection through every mongos, until mongos knows the
primaries again.

* `Environment`: the answers to the commands, for any history of commands and answers.
* `runCollStats`, `poll`, `assertSoon`, `retarget`, `retargetMongos`: the nested callbacks.
* `stopContinuousFailover`: the call, with the commands that it has run.
* `exists_block_foldlM`: what a loop over different names adds to the commands.
* `Retargeted`: every collection has been asked for, the last `collStats` on each has succeeded, and
  every one answered with a NotMaster error has been run again.
* **`retargeted_iff`**: this holds if and only if no `collStats` is answered with a NotMaster error.
  `not_master_left_unretried`: one that is.
-/

namespace MongoTests.ReplSets.ContinuousStepdown

open MongoTests.Lib

/-! ## The cluster -/

/-- The names in an answer of the server, which are different. -/
abbrev Names := { names : List String // names.Nodup }

/-- A collection, reached through a mongos. -/
structure Key where
  mongos : ℕ
  db : String
  coll : String
  deriving DecidableEq, Repr

/-- An answer to `collStats`: `isNotMasterError(res.code)`, or what `assert.commandWorked` says. -/
inductive CollStatsResult
  | worked
  | notMaster
  | failed
  deriving DecidableEq, Repr

/-- How `db.getCollectionInfos()` ends: with the collections, or an exception. -/
inductive Infos
  | listed (colls : Names)
  | notMaster
  | failed
  deriving DecidableEq

/-- A command and its answer. -/
inductive Event
  | listDatabases (s : ℕ) (databases : Names)
  | collectionInfos (s : ℕ) (db : String) (infos : Infos)
  | collStats (key : Key) (res : CollStatsResult)
  deriving DecidableEq

abbrev Log := List Event

/-- The answers to the commands that are run after a history. `listDatabases` may fail, and `polls` is
how often `assert.soon` calls its function before the timeout. -/
structure Environment where
  listDatabases : Log → ℕ → Option Names
  getCollectionInfos : Log → ℕ → String → Infos
  collStats : Log → Key → CollStatsResult
  polls : Log → ℕ

inductive Thrown
  | commandFailed
  | timedOut
  | stepdownThreadFailed
  | noPrimary
  deriving DecidableEq, Repr

/-- A replica set: its stepdown thread, if that is active, with whether it ends with `ok: 1`, and
whether `getPrimary` finds a primary. -/
structure ReplSetTest where
  stepdownThread : Option Bool
  hasPrimary : Bool
  deriving DecidableEq, Repr

/-- A sharded cluster, with the options that select the replica sets with a stepdown thread. -/
structure ShardingTest where
  configStepdown : Bool
  shardStepdown : Bool
  configRS : ReplSetTest
  rs : List ReplSetTest
  mongos : ℕ
  deriving DecidableEq, Repr

structure Options where
  waitForPrimary : Bool := false
  waitForMongosRetarget : Bool := false
  deriving DecidableEq, Repr

/-! ## The call -/

/-- `stopContinuousFailover` of a replica set. -/
def ReplSetTest.stopContinuousFailover (waitForPrimary : Bool) (rst : ReplSetTest) :
    Except Thrown ReplSetTest :=
  match rst.stepdownThread with
  | none => .ok rst
  | some false => .error .stepdownThreadFailed
  | some true =>
    if waitForPrimary && !rst.hasPrimary then .error .noPrimary
    else .ok { rst with stepdownThread := none }

/-- The callback for a collection. -/
def runCollStats (env : Environment) (s : ℕ) (db : String) (log : Log) (coll : String) :
    Except Thrown Log :=
  let res := env.collStats log ⟨s, db, coll⟩
  let log' := log ++ [.collStats ⟨s, db, coll⟩ res]
  match res with
  -- `return false` leaves the callback of `forEach`, not that of `assert.soon`
  | .notMaster => .ok log'
  | .failed => .error .commandFailed
  | .worked => .ok log'

/-- The callback of `assert.soon`. -/
def poll (env : Environment) (s : ℕ) (db : String) (log : Log) : Except Thrown (Bool × Log) :=
  match env.getCollectionInfos log s db with
  | .notMaster => .ok (false, log ++ [.collectionInfos s db .notMaster])
  | .failed => .error .commandFailed
  | .listed colls => do
    let log' ← colls.1.foldlM (runCollStats env s db)
      (log ++ [.collectionInfos s db (.listed colls)])
    .ok (true, log')

/-- `assert.soon`, which calls a function until that returns `true`. -/
def assertSoon (func : Log → Except Thrown (Bool × Log)) : ℕ → Log → Except Thrown Log
  | 0, _ => .error .timedOut
  | polls + 1, log => do
    let (done, log') ← func log
    if done then .ok log' else assertSoon func polls log'

/-- The callback for a database. -/
def retarget (env : Environment) (s : ℕ) (log : Log) (db : String) : Except Thrown Log :=
  assertSoon (poll env s db) (env.polls log) log

/-- The callback for a mongos. -/
def retargetMongos (env : Environment) (log : Log) (s : ℕ) : Except Thrown Log :=
  match env.listDatabases log s with
  | none => .error .commandFailed
  | some databases => databases.1.foldlM (retarget env s) (log ++ [.listDatabases s databases])

def stopContinuousFailover (env : Environment) (options : Options) (st : ShardingTest) :
    Except Thrown (ShardingTest × Log) := do
  let configRS ←
    (if st.configStepdown then st.configRS.stopContinuousFailover options.waitForPrimary
    else .ok st.configRS)
  let rs ←
    (if st.shardStepdown then st.rs.mapM (·.stopContinuousFailover options.waitForPrimary)
    else .ok st.rs)
  let log ←
    (if options.waitForMongosRetarget then (List.range st.mongos).foldlM (retargetMongos env) []
    else .ok [])
  .ok ({ st with configRS := configRS, rs := rs }, log)

/-! ## What the call waits for -/

/-- The collection of a `collStats`. -/
def Event.key? : Event → Option Key
  | .collStats key _ => some key
  | _ => none

/-- The collections of the `collStats` that have been run. -/
def keys (log : Log) : List Key := log.filterMap Event.key?

def Event.result? (key : Key) : Event → Option CollStatsResult
  | .collStats key' res => if key' = key then some res else none
  | _ => none

/-- The answer to the last `collStats` on a collection. -/
def lastCollStats (log : Log) (key : Key) : Option CollStatsResult :=
  (log.filterMap (Event.result? key)).getLast?

/-- `collStats` has been run on the collections of a database, as they have been listed. -/
def AskedDb (log : Log) (s : ℕ) (db : String) : Prop :=
  ∃ colls : Names, .collectionInfos s db (.listed colls) ∈ log ∧
    ∀ coll ∈ colls.1, ⟨s, db, coll⟩ ∈ keys log

/-- `collStats` has been run on the collections of all databases of a mongos. -/
def AskedMongos (log : Log) (s : ℕ) : Prop :=
  ∃ databases : Names, .listDatabases s databases ∈ log ∧ ∀ db ∈ databases.1, AskedDb log s db

/-- Every mongos has an up to date view of the cluster, as far as `collStats` tells. -/
structure Retargeted (st : ShardingTest) (log : Log) : Prop where
  asked : ∀ s < st.mongos, AskedMongos log s
  succeeded : ∀ key res, lastCollStats log key = some res → res = .worked
  retried : ∀ before key after, log = before ++ .collStats key .notMaster :: after →
    ∃ res, .collStats key res ∈ after

theorem keys_append (log log' : Log) : keys (log ++ log') = keys log ++ keys log' :=
  List.filterMap_append

theorem keys_subset {log log' : Log} (h : log ⊆ log') : keys log ⊆ keys log' := by
  intro key hkey
  obtain ⟨e, he, hkey⟩ := List.mem_filterMap.mp hkey
  exact List.mem_filterMap.mpr ⟨e, h he, hkey⟩

theorem mem_keys {log : Log} {key : Key} {res : CollStatsResult}
    (h : .collStats key res ∈ log) : key ∈ keys log :=
  List.mem_filterMap.mpr ⟨_, h, rfl⟩

theorem AskedDb.mono {log log' : Log} {s : ℕ} {db : String} (h : AskedDb log s db)
    (hsub : log ⊆ log') : AskedDb log' s db := by
  obtain ⟨colls, hmem, hcolls⟩ := h
  exact ⟨colls, hsub hmem, fun coll hcoll => keys_subset hsub (hcolls coll hcoll)⟩

theorem AskedMongos.mono {log log' : Log} {s : ℕ} (h : AskedMongos log s) (hsub : log ⊆ log') :
    AskedMongos log' s := by
  obtain ⟨databases, hmem, hdbs⟩ := h
  exact ⟨databases, hsub hmem, fun db hdb => (hdbs db hdb).mono hsub⟩

/-- The last answer on a collection is in the log. -/
theorem mem_of_lastCollStats {log : Log} {key : Key} {res : CollStatsResult}
    (h : lastCollStats log key = some res) : .collStats key res ∈ log := by
  obtain ⟨e, he, hres⟩ := List.mem_filterMap.mp (List.mem_of_getLast? h)
  cases e with
  | listDatabases s databases => cases hres
  | collectionInfos s db infos => cases hres
  | collStats key' res' =>
    rw [Event.result?] at hres
    split_ifs at hres with hkey
    cases hres
    exact hkey ▸ he

/-! ## One collection after the other -/

/-- A part of the log that has at most one `collStats` on each collection, all within `P`, and none of
them has failed. -/
structure Block (P : Key → Prop) (new : Log) : Prop where
  nodup : (keys new).Nodup
  within : ∀ key ∈ keys new, P key
  notFailed : ∀ key, .collStats key .failed ∉ new

theorem Block.imp {P P' : Key → Prop} {new : Log} (h : Block P new) (hP : ∀ key, P key → P' key) :
    Block P' new :=
  ⟨h.nodup, fun key hkey => hP key (h.within key hkey), h.notFailed⟩

theorem Block.append {P P' : Key → Prop} {new new' : Log} (h : Block P new) (h' : Block P' new')
    (hdisj : ∀ key, P key → ¬ P' key) : Block (fun key => P key ∨ P' key) (new ++ new') := by
  refine ⟨?_, fun key hkey => ?_, fun key hkey => ?_⟩
  · rw [keys_append]
    refine List.Nodup.append h.nodup h'.nodup fun key hkey hkey' => ?_
    exact hdisj key (h.within key hkey) (h'.within key hkey')
  · rw [keys_append] at hkey
    exact (List.mem_append.mp hkey).imp (h.within key) (h'.within key)
  · exact (List.mem_append.mp hkey).elim (h.notFailed key) (h'.notFailed key)

/-- A command other than `collStats`. -/
theorem block_singleton {e : Event} (h : e.key? = none) : Block (fun _ => False) [e] := by
  have hkeys : keys [e] = [] := by simp [keys, h]
  refine ⟨by rw [hkeys]; exact List.nodup_nil, fun key hkey => ?_, fun key hkey => ?_⟩
  · rw [hkeys] at hkey
    cases hkey
  · rw [List.mem_singleton] at hkey
    subst hkey
    cases h

/-- A command other than `collStats` may come first. -/
theorem Block.cons {P : Key → Prop} {e : Event} {new : Log} (h : Block P new)
    (he : e.key? = none) : Block P (e :: new) :=
  ((block_singleton he).append h fun _ hfalse => hfalse.elim).imp
    fun _ hkey => hkey.resolve_left id

/-- A loop adds a block to the log, if each round adds one for another part of the cluster. `Q` is
what a round makes sure of. -/
theorem exists_block_foldlM {α : Type} {f : Log → α → Except Thrown Log} {P : α → Key → Prop}
    {Q : Log → α → Prop}
    (hP : ∀ a b key, P a key → P b key → a = b)
    (hQ : ∀ a new new', Q new a → new ⊆ new' → Q new' a)
    (hf : ∀ log a log', f log a = .ok log' → ∃ new, log' = log ++ new ∧ Block (P a) new ∧ Q new a)
    {l : List α} (hl : l.Nodup) {log log' : Log} (h : l.foldlM f log = .ok log') :
    ∃ new, log' = log ++ new ∧ Block (fun key => ∃ a ∈ l, P a key) new ∧ ∀ a ∈ l, Q new a := by
  induction l generalizing log with
  | nil =>
    cases h
    refine ⟨[], (List.append_nil _).symm, ⟨List.nodup_nil, ?_, ?_⟩, ?_⟩
    · exact fun key hkey => absurd hkey List.not_mem_nil
    · exact fun key hkey => absurd hkey List.not_mem_nil
    · exact fun a ha => absurd ha List.not_mem_nil
  | cons a l ih =>
    rw [List.foldlM_cons, bind_eq_ok] at h
    obtain ⟨mid, hmid, h⟩ := h
    obtain ⟨hnotMem, hl⟩ := List.nodup_cons.mp hl
    obtain ⟨new, rfl, hblock, hnew⟩ := hf log a mid hmid
    obtain ⟨rest, rfl, hblocks, hrest⟩ := ih hl h
    have hdisj : ∀ key, P a key → ¬ ∃ b ∈ l, P b key := by
      rintro key ha ⟨b, hb, hkey⟩
      exact hnotMem (hP a b key ha hkey ▸ hb)
    refine ⟨new ++ rest, List.append_assoc log new rest, (hblock.append hblocks hdisj).imp ?_, ?_⟩
    · rintro key (ha | ⟨b, hb, hkey⟩)
      · exact ⟨a, List.mem_cons_self, ha⟩
      · exact ⟨b, List.mem_cons_of_mem a hb, hkey⟩
    · intro b hb
      rcases List.mem_cons.mp hb with rfl | hb
      · exact hQ b new _ hnew (List.subset_append_left new rest)
      · exact hQ b rest _ (hrest b hb) (List.subset_append_right new rest)

/-! ## The callbacks -/

section Callbacks

variable {env : Environment} {s : ℕ} {db : String} {log log' : Log}

/-- The callback for a collection runs `collStats` once. -/
theorem exists_block_runCollStats {coll : String}
    (h : runCollStats env s db log coll = .ok log') :
    ∃ new, log' = log ++ new ∧ Block (fun key => key = ⟨s, db, coll⟩) new ∧
      ⟨s, db, coll⟩ ∈ keys new := by
  have hres : ∃ res, res ≠ .failed ∧ log' = log ++ [.collStats ⟨s, db, coll⟩ res] := by
    unfold runCollStats at h
    cases hres : env.collStats log ⟨s, db, coll⟩ with
    | worked =>
      rw [hres] at h
      cases h
      exact ⟨.worked, by decide, rfl⟩
    | notMaster =>
      rw [hres] at h
      cases h
      exact ⟨.notMaster, by decide, rfl⟩
    | failed =>
      rw [hres] at h
      cases h
  obtain ⟨res, hres, rfl⟩ := hres
  refine ⟨_, rfl, ⟨List.nodup_singleton _, fun key hkey => List.mem_singleton.mp hkey, ?_⟩,
    List.mem_singleton_self _⟩
  intro key hkey
  rw [List.mem_singleton] at hkey
  cases hkey
  exact hres rfl

/-- A call that returns `true` has asked for the collections of the database. One that returns `false`
has not run any `collStats`. -/
theorem exists_block_poll {done : Bool} (h : poll env s db log = .ok (done, log')) :
    ∃ new, log' = log ++ new ∧
      Block (fun key => done = true ∧ key.mongos = s ∧ key.db = db) new ∧
      (done = true → AskedDb new s db) := by
  unfold poll at h
  cases hinfos : env.getCollectionInfos log s db with
  | notMaster =>
    rw [hinfos] at h
    cases h
    exact ⟨_, rfl, (block_singleton rfl).imp fun _ hfalse => hfalse.elim, fun hdone => by cases hdone⟩
  | failed =>
    rw [hinfos] at h
    cases h
  | listed colls =>
    rw [hinfos] at h
    obtain ⟨log'', hfold, h⟩ := bind_eq_ok.mp h
    cases h
    obtain ⟨new, rfl, hblock, hasked⟩ := exists_block_foldlM
      (P := fun coll key => key = ⟨s, db, coll⟩) (Q := fun new coll => ⟨s, db, coll⟩ ∈ keys new)
      (fun a b key ha hb => by subst ha; cases hb; rfl)
      (fun a new new' hmem hsub => keys_subset hsub hmem)
      (fun log a log' hrun => exists_block_runCollStats hrun) colls.2 hfold
    refine ⟨_, List.append_assoc _ _ _, ?_, fun _ => ⟨colls, List.mem_cons_self, ?_⟩⟩
    · refine (hblock.imp ?_).cons rfl
      rintro key ⟨coll, -, rfl⟩
      exact ⟨rfl, rfl, rfl⟩
    · exact fun coll hcoll => keys_subset (List.subset_cons_self _ new) (hasked coll hcoll)

/-- `assert.soon` ends with a call that asks for the collections of the database. -/
theorem exists_block_assertSoon {polls : ℕ}
    (h : assertSoon (poll env s db) polls log = .ok log') :
    ∃ new, log' = log ++ new ∧ Block (fun key => key.mongos = s ∧ key.db = db) new ∧
      AskedDb new s db := by
  induction polls generalizing log with
  | zero => cases h
  | succ polls ih =>
    obtain ⟨⟨done, mid⟩, hpoll, h⟩ := bind_eq_ok.mp h
    obtain ⟨new, rfl, hblock, hasked⟩ := exists_block_poll hpoll
    cases done with
    | true =>
      cases h
      exact ⟨new, rfl, hblock.imp fun key hkey => hkey.2, hasked rfl⟩
    | false =>
      obtain ⟨rest, rfl, hrest, hask⟩ := ih h
      refine ⟨new ++ rest, List.append_assoc log new rest, ?_, ?_⟩
      · exact (hblock.append hrest fun key hkey => absurd hkey.1 (by decide)).imp
          fun key hkey => hkey.resolve_left fun hfalse => absurd hfalse.1 (by decide)
      · exact hask.mono (List.subset_append_right new rest)

theorem exists_block_retargetMongos (h : retargetMongos env log s = .ok log') :
    ∃ new, log' = log ++ new ∧ Block (fun key => key.mongos = s) new ∧ AskedMongos new s := by
  unfold retargetMongos at h
  cases hdatabases : env.listDatabases log s with
  | none =>
    rw [hdatabases] at h
    cases h
  | some databases =>
    rw [hdatabases] at h
    obtain ⟨new, rfl, hblock, hasked⟩ := exists_block_foldlM
      (P := fun db key => key.mongos = s ∧ key.db = db) (Q := fun new db => AskedDb new s db)
      (fun a b key ha hb => ha.2.symm.trans hb.2)
      (fun a new new' hmem hsub => hmem.mono hsub)
      (fun log a log' hrun => exists_block_assertSoon hrun) databases.2 h
    refine ⟨_, List.append_assoc _ _ _, ?_, databases, List.mem_cons_self, ?_⟩
    · refine (hblock.imp ?_).cons rfl
      rintro key ⟨db, -, hkey⟩
      exact hkey.1
    · exact fun db hdb => (hasked db hdb).mono (List.subset_cons_self _ new)

/-- The commands of the whole call. -/
theorem block_stopContinuousFailover {options : Options} {st st' : ShardingTest}
    (hwait : options.waitForMongosRetarget = true)
    (h : stopContinuousFailover env options st = .ok (st', log)) :
    Block (fun key => key.mongos < st.mongos) log ∧ ∀ s < st.mongos, AskedMongos log s := by
  unfold stopContinuousFailover at h
  obtain ⟨configRS, -, h⟩ := bind_eq_ok.mp h
  obtain ⟨rs, -, h⟩ := bind_eq_ok.mp h
  obtain ⟨log', hlog, h⟩ := bind_eq_ok.mp h
  rw [if_pos hwait] at hlog
  cases h
  obtain ⟨new, rfl, hblock, hasked⟩ := exists_block_foldlM
    (P := fun s key => key.mongos = s) (Q := AskedMongos)
    (fun a b key ha hb => ha.symm.trans hb)
    (fun a new new' hmem hsub => hmem.mono hsub)
    (fun log a log' hrun => exists_block_retargetMongos hrun) List.nodup_range hlog
  refine ⟨hblock.imp ?_, fun s hs => hasked s (List.mem_range.mpr hs)⟩
  rintro key ⟨s, hs, rfl⟩
  exact List.mem_range.mp hs

end Callbacks

/-! ## The exact condition -/

/-- **When the call really waits.** For every cluster and all answers, if the call returns, then every
mongos is retargeted if and only if no `collStats` has been answered with a NotMaster error. -/
theorem retargeted_iff {env : Environment} {options : Options} {st st' : ShardingTest} {log : Log}
    (hwait : options.waitForMongosRetarget = true)
    (h : stopContinuousFailover env options st = .ok (st', log)) :
    Retargeted st log ↔ ∀ key, .collStats key .notMaster ∉ log := by
  obtain ⟨hblock, hasked⟩ := block_stopContinuousFailover hwait h
  constructor
  · intro hretargeted key hkey
    obtain ⟨before, after, rfl⟩ := List.append_of_mem hkey
    obtain ⟨res, hres⟩ := hretargeted.retried before key after rfl
    -- the collection would be asked for twice
    have hnodup := hblock.nodup
    rw [keys_append] at hnodup
    have hafter : (key :: keys after).Nodup := hnodup.of_append_right
    exact (List.nodup_cons.mp hafter).1 (mem_keys hres)
  · intro hnone
    refine ⟨hasked, fun key res hres => ?_, fun before key after hlog => ?_⟩
    · have hmem := mem_of_lastCollStats hres
      cases res with
      | worked => rfl
      | notMaster => exact absurd hmem (hnone key)
      | failed => exact absurd hmem (hblock.notFailed key)
    · refine absurd ?_ (hnone key)
      rw [hlog]
      exact List.mem_append_right before List.mem_cons_self

/-- One mongos, and no stepdown threads. -/
def oneMongos : ShardingTest := ⟨true, true, ⟨none, true⟩, [⟨none, true⟩], 1⟩

def test : Names := ⟨["test"], by decide⟩

/-- One database with one collection. Listing the collections is answered with a NotMaster error once,
and `collStats` as given. -/
def answers (res : CollStatsResult) : Environment where
  listDatabases _ _ := some test
  getCollectionInfos log _ _ := if log.length < 2 then .notMaster else .listed test
  collStats _ _ := res
  polls _ := 10

/-- The commands that are run. -/
def commands (res : CollStatsResult) : Log :=
  [.listDatabases 0 test, .collectionInfos 0 "test" .notMaster,
    .collectionInfos 0 "test" (.listed test), .collStats ⟨0, "test", "test"⟩ res]

theorem retargeted_one_mongos :
    stopContinuousFailover (answers .worked) ⟨false, true⟩ oneMongos =
        .ok (oneMongos, commands .worked) ∧ Retargeted oneMongos (commands .worked) := by
  have h : stopContinuousFailover (answers .worked) ⟨false, true⟩ oneMongos =
      .ok (oneMongos, commands .worked) := rfl
  refine ⟨h, (retargeted_iff rfl h).mpr fun key hkey => ?_⟩
  simp [commands] at hkey

/-- **A NotMaster error is not retried**: the call returns after the only `collStats` was answered with
a NotMaster error. -/
theorem not_master_left_unretried :
    stopContinuousFailover (answers .notMaster) ⟨false, true⟩ oneMongos =
        .ok (oneMongos, commands .notMaster) ∧ ¬ Retargeted oneMongos (commands .notMaster) := by
  refine ⟨rfl, fun h => ?_⟩
  exact absurd (h.succeeded ⟨0, "test", "test"⟩ .notMaster (by decide)) (by decide)

end MongoTests.ReplSets.ContinuousStepdown
