import Mathlib.Order.Lattice
import MongoTests.Lib.Checked
import MongoTests.Lib.Dict
import MongoTests.Lib.Firsts
import MongoTests.Lib.Program

/-!
# The dbHash check in the background

`run_check_repl_dbhash_background.js` on a replica set. The environment gives the outcome of each command.

* `Attempts`: the attempts for a database, the last of which ends the loop.
* `checkCollectionHashesForDB`, `retry`, `checkReplDbhashBackgroundThread`: the code.
-/

namespace MongoTests.Hooks.DbHashBackground

open MongoTests.Lib

/-- The code of an exception. -/
inductive Err where
  | interrupted
  | snapshotUnavailable
  | invalidOptions
  | lockFailed
  | other
  deriving DecidableEq

/-- A node and what its commands raise or give. -/
structure Node where
  host : String
  arbiterOnly : Bool
  /-- A command that fails leaves the fail point off. -/
  configureFailPoint : Option Err
  listDatabases : Except Err (List String)
  ping : Option Err
  dumpOplog : Option Err

/-- A response of `dbHash`; no two collections of a node have the same UUID. -/
structure Response where
  collections : Dict String String
  uuids : Dict String String
  nodup : (uuids.items.map Prod.snd).Nodup

/-- What an attempt meets. The nodes are given by their hosts. -/
structure Attempt (Time : Type) where
  operationTime : String → Time
  /-- What the wait for a secondary raises. -/
  wait : String → Option Err
  hashes : Except Err (String → Response)
  /-- What the diff with a secondary raises, for a collection. -/
  diff : String → String → Option Err
  appendOplogNote : Option Err

structure Info where
  host : String
  hash : String
  collName : String
  uuid : String
  deriving DecidableEq

structure MismatchInfo (Time : Type) where
  primary : Info
  secondary : Info
  dbName : String
  atClusterTime : Option Time
  deriving DecidableEq

structure HashRequest (Time : Type) where
  dbName : String
  hosts : List String
  readAtClusterTime : Time
  deriving DecidableEq

/-- The fail points that are on, the local variables, and the requests made so far. -/
structure State (Time : Type) where
  failPoints : List String
  resetFns : List String
  results : List (MismatchInfo Time)
  hashRequests : List (HashRequest Time)

def start (Time : Type) : State Time := ⟨[], [], [], []⟩

structure Verdict where
  ok : ℕ
  headings : List String
  deriving DecidableEq

def raising : Option Err → Except Err Unit
  | none => .ok ()
  | some err => .error err

/-! ## An attempt -/

section Attempt

variable {Time : Type}

section Compare

variable (dbName : String) (a : Attempt Time)

/-- The hashes of a node by UUID. -/
def hashesByUUID (host : String) (response : Response) : Dict String Info :=
  Dict.ofPairs (response.collections.items.filterMap fun coll =>
    (response.uuids.get coll.1).map fun uuid => (uuid, ⟨host, coll.2, coll.1, uuid⟩))

def compareCollection (primaryInfos secondaryInfos : Dict String Info) (secondary : Node) (uuid : String) :
    Except Err (List (MismatchInfo Time)) :=
  match primaryInfos.get uuid, secondaryInfos.get uuid with
  | some primaryInfo, some secondaryInfo =>
    if primaryInfo.hash ≠ secondaryInfo.hash then
      (raising (a.diff secondary.host uuid)).map fun _ => [⟨primaryInfo, secondaryInfo, dbName, none⟩]
    else .ok []
  | _, _ => .ok []

def compareSecondary (primaryInfos secondaryInfos : Dict String Info) (secondary : Node) :
    Except Err (List (MismatchInfo Time)) :=
  ((firsts (primaryInfos.keys ++ secondaryInfos.keys)).mapM
    (compareCollection dbName a primaryInfos secondaryInfos secondary)).map List.flatten

end Compare

variable (primary : Node) (secondaries : List Node) (dbName : String) (a : Attempt Time)

def checkCollectionHashesForDB : Except Err (List (MismatchInfo Time)) := do
  let hashes ← a.hashes
  let primaryInfos := hashesByUUID primary.host (hashes primary.host)
  let result ← secondaries.mapM fun secondary =>
    compareSecondary dbName a primaryInfos (hashesByUUID secondary.host (hashes secondary.host)) secondary
  pure result.flatten

def waitForSecondaries : Except Err Unit := secondaries.forM fun node => raising (a.wait node.host)

/-- What an attempt gives or raises. -/
def outcome : Except Err (List (MismatchInfo Time)) := do
  waitForSecondaries secondaries a
  checkCollectionHashesForDB primary secondaries dbName a

/-- The latest operation time, of the primary if there are several. -/
def clusterTime [LinearOrder Time] : Time :=
  secondaries.foldl (fun clusterTime node =>
    if clusterTime < a.operationTime node.host then a.operationTime node.host else clusterTime)
    (a.operationTime primary.host)

end Attempt

/-- `hasTransientError` -/
def isTransient (err : Err) : Bool :=
  err = .interrupted || err = .snapshotUnavailable || err = .invalidOptions

/-- The attempts for a database: all but the last one end with a transient error. -/
structure Attempts (Time : Type) (primary : Node) (secondaries : List Node) (dbName : String) where
  retried : List (Attempt Time)
  last : Attempt Time
  transient : ∀ a ∈ retried, ∃ err, outcome primary secondaries dbName a = .error err ∧ isTransient err
  ends : ∀ err, outcome primary secondaries dbName last = .error err → isTransient err = false

def Attempts.all {Time : Type} {primary : Node} {secondaries : List Node} {dbName : String}
    (attempts : Attempts Time primary secondaries dbName) : List (Attempt Time) :=
  attempts.retried ++ [attempts.last]

/-- What a run meets. -/
structure Env (Time : Type) where
  /-- What `new ReplSetTest`, `getPrimary` or `serverStatus` raises. -/
  construct : Option Err
  supportsSnapshotReadConcern : Bool
  /-- What starting the sessions raises. -/
  startSessions : Option Err
  primary : Node
  getSecondaries : List Node
  nodup : ((primary :: getSecondaries).map Node.host).Nodup
  bsonBinaryEqual : Time → Option Time → Except Err Bool
  attempts : (dbName : String) →
    Attempts Time primary (getSecondaries.filter fun node => !node.arbiterOnly) dbName

namespace Env

variable {Time : Type} (env : Env Time)

def secondaries : List Node := env.getSecondaries.filter fun node => !node.arbiterOnly

def sessions : List Node := env.primary :: env.secondaries

end Env

/-! ## The code -/

section Code

variable {Time : Type} [LinearOrder Time] (env : Env Time)

def enableFailPoint (node : Node) : Prog (State Time) Err Unit := do
  Prog.ofExcept (raising node.configureFailPoint)
  Prog.modify fun s =>
    { s with failPoints := s.failPoints ++ [node.host], resetFns := s.resetFns ++ [node.host] }

def listDatabases : Except Err (List String) := do
  let names ← env.sessions.mapM Node.listDatabases
  pure ((firsts names.flatten).filter fun dbName => dbName ∉ ["admin", "config", "local"])

/-- The part of an attempt that may be tried again. -/
def tryAttempt (dbName : String) (a : Attempt Time) : Prog (State Time) Err (List (MismatchInfo Time)) := do
  Prog.ofExcept (waitForSecondaries env.secondaries a)
  Prog.modify fun s =>
    { s with
      hashRequests := s.hashRequests ++
        [⟨dbName, env.sessions.map Node.host, clusterTime env.primary env.secondaries a⟩] }
  Prog.ofExcept (checkCollectionHashesForDB env.primary env.secondaries dbName a)

/-- A no-op write that fails for the global lock is made again later. -/
def noopWrite (a : Attempt Time) : Except Err Unit :=
  if a.appendOplogNote = some .lockFailed then .ok () else raising a.appendOplogNote

/-- The attempt is made again if this returns. -/
def handleError (previousClusterTime : Option Time) (a : Attempt Time) (err : Err) : Except Err Unit := do
  let performNoopWrite ← if err = .snapshotUnavailable then
      env.bsonBinaryEqual (clusterTime env.primary env.secondaries a) previousClusterTime
    else .ok false
  if isTransient err then
    if performNoopWrite then noopWrite a else .ok ()
  else .error err

def MismatchInfo.setAtClusterTime (clusterTime : Time) (mismatchInfo : MismatchInfo Time) : MismatchInfo Time :=
  { mismatchInfo with atClusterTime := some clusterTime }

def pushResult (result : List (MismatchInfo Time)) (clusterTime : Time) (s : State Time) : State Time :=
  { s with results := s.results ++ result.map (MismatchInfo.setAtClusterTime clusterTime) }

/-- One round of the loop: the result, or `none` if the attempt is made again. -/
def round (dbName : String) (previousClusterTime : Option Time) (a : Attempt Time) :
    Prog (State Time) Err (Option (List (MismatchInfo Time))) :=
  Prog.tryCatch
    (do
      let result ← tryAttempt env dbName a
      pure (some result))
    fun err => do
      Prog.ofExcept (handleError env previousClusterTime a err)
      pure none

def retry (dbName : String) : Option Time → List (Attempt Time) → Prog (State Time) Err Unit
  | _, [] => Prog.stop
  | previousClusterTime, a :: rest => do
    let result ← round env dbName previousClusterTime a
    match result with
    | some result => Prog.modify (pushResult result (clusterTime env.primary env.secondaries a))
    | none => retry dbName (some (clusterTime env.primary env.secondaries a)) rest

def checkDb (dbName : String) : Prog (State Time) Err Unit := retry env dbName none (env.attempts dbName).all

/-- From the first fail point to the last database. -/
def checkDatabases : Prog (State Time) Err Unit := do
  env.sessions.forM enableFailPoint
  let dbNames ← Prog.ofExcept (listDatabases env)
  env.sessions.forM fun node => Prog.ofExcept (raising node.ping)
  dbNames.forM (checkDb env)

def resetFn (s : State Time) (host : String) : State Time :=
  { s with failPoints := s.failPoints.filter fun h => h ≠ host }

def reset (s : State Time) : State Time := s.resetFns.foldl resetFn s

def heading (mismatchInfo : MismatchInfo Time) : String :=
  "dbhash mismatch for " ++ mismatchInfo.dbName ++ "." ++ mismatchInfo.primary.collName

def report : Prog (State Time) Err Verdict := do
  let s ← Prog.get
  let headings := s.results.map heading
  if 0 < headings.length then
    env.sessions.forM fun node => Prog.ofExcept (raising node.dumpOplog)
    pure ⟨0, headings⟩
  else pure ⟨1, []⟩

def checkReplDbhashBackgroundThread : Prog (State Time) Err Verdict := do
  Prog.ofExcept (raising env.construct)
  if !env.supportsSnapshotReadConcern then pure ⟨1, []⟩
  else do
    Prog.ofExcept (raising env.startSessions)
    checkDatabases env
    Prog.modify reset
    report env

end Code

end MongoTests.Hooks.DbHashBackground
