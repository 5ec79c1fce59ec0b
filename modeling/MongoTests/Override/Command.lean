import Mathlib.Data.List.Basic
import Mathlib.Data.String.Basic

/-!
# Commands, responses and exceptions of the shell

The data that `network_error_and_txn_override.js` reads and writes, its tables of command names, and
its functions without side effects. What the shell and the server binaries supply (error codes,
`isNetworkError`, `assert.commandWorked`, `tojson`) is a parameter, `Shell`.

* `Cmd`, `Response`, `Exn`, `Shell`;
* `commandSupportsTxn`, `canRetryNetworkErrorForCommand`, `validateCmdNetworkErrorCompatibility`,
  `appendReadAndWriteConcern`, `calculateStmtIdInc`;
* `networkErrorVerdict`: how `shouldRetryWithNetworkErrorOverride` classifies a response.
-/

namespace MongoTests.Override

/-! ## Strings -/

/-- `msg.indexOf(sub)`, with `none` for `-1`. -/
def indexOf (sub : List Char) : List Char → Option ℕ
  | [] => if sub = [] then some 0 else none
  | c :: cs => if sub.isPrefixOf (c :: cs) then some 0 else (indexOf sub cs).map (· + 1)

/-- `msg.indexOf(sub) >= 0`. -/
def includes (msg sub : String) : Bool := (indexOf sub.toList msg.toList).isSome

/-- `msg.startsWith(pre)`. -/
def startsWith (msg pre : String) : Bool := pre.toList.isPrefixOf msg.toList

/-! ## Data -/

/-- The value under the first key of a command: `{insert: "coll"}`, `{getMore: 7}`. -/
inductive CmdValue
  | str (s : String)
  | cursor (id : ℕ)
  | other
  deriving DecidableEq, Repr

/-- The `documents`, `updates` or `deletes` field of a batch write. -/
inductive Batch
  | missing
  /-- An array, or another value with a `length`. -/
  | sized (length : ℕ)
  /-- A value whose `length` is `undefined`. -/
  | unsized
  deriving DecidableEq, Repr

structure ReadConcern where
  level : Option String
  afterClusterTime : Option ℕ := none
  deriving DecidableEq, Repr

inductive WriteConcern
  /-- `null`, or not an object. -/
  | malformed
  | doc (w : Option String) (wtimeout : Option ℕ)
  deriving DecidableEq, Repr

/-- A command object, with the fields that the override reads or writes. A pipeline stage is the
list of its keys, or `none` when it is not an object. -/
structure Cmd where
  /-- `Object.keys(cmdObj)[0]`. -/
  name : String
  /-- `cmdObj[cmdName]`. -/
  value : CmdValue := .other
  lsid : Option ℕ := none
  batch : Batch := .missing
  pipeline : Option (List (Option (List String))) := none
  /-- `explain`, by its truth value. -/
  explain : Option Bool := none
  /-- `out` is an object with the field `inline`. -/
  outInline : Bool := false
  readConcern : Option ReadConcern := none
  writeConcern : Option WriteConcern := none
  txnNumber : Option ℤ := none
  stmtId : Option ℤ := none
  /-- `cmdObj.hasOwnProperty("autocommit")`. -/
  autocommit : Bool := false
  /-- `cmdObj.startTransaction === true`. -/
  startTransaction : Bool := false
  /-- All the other fields. -/
  rest : ℕ := 0
  deriving DecidableEq, Repr

structure ExecutionStats where
  executionSuccess : Bool
  errorCode : Option ℤ
  errorMessage : Option String
  deriving DecidableEq, Repr

/-- A command response; `raw` holds the responses of the shards. -/
structure Response where
  ok : Bool := true
  code : Option ℤ := none
  errmsg : Option String := none
  errorLabels : List String := []
  /-- The codes in `writeErrors`, which the server never sends empty. -/
  writeErrors : List ℤ := []
  /-- The code of `writeConcernError`, when the response has one. -/
  writeConcernError : Option ℤ := none
  /-- `res.cursor.id`. -/
  cursorId : Option ℕ := none
  executionStats : Option ExecutionStats := none
  raw : List Response := []

structure Exn where
  message : String
  errorLabels : List String := []
  deriving DecidableEq, Repr

/-- `new Error(message)`, and what a failed `assert` throws: no error labels. -/
def error (message : String) : Exn := { message := message }

/-- The values of `ErrorCodes` that the override names, and the categories of codes. -/
structure ErrorCodes where
  operationNotSupportedInTransaction : ℤ
  operationFailed : ℤ
  namespaceExists : ℤ
  indexAlreadyExists : ℤ
  namespaceNotFound : ℤ
  indexNotFound : ℤ
  callbackCanceled : ℤ
  /-- `Object.keys(ErrorCodes)`, each with its code. -/
  names : List (String × ℤ)
  isNetworkError : ℤ → Bool
  isNotMasterError : ℤ → Bool
  isWriteConcernError : ℤ → Bool
  isShutdownError : ℤ → Bool
  isInterruption : ℤ → Bool

/-- `TestData`, and the functions of the shell that the override calls. -/
structure Shell where
  /-- `retryOnNetworkErrors`, and not `skipRetryOnNetworkError`. -/
  configuredForNetworkRetry : Bool
  /-- `wrapCRUDinTransactions`. -/
  configuredForTxnOverride : Bool
  /-- `driverSession.getSessionId() !== null`. -/
  hasSessionId : Bool
  defaultTransactionReadConcernLevel : Option String := none
  defaultTransactionWriteConcernW : Option String := none
  defaultReadConcernLevel : Option String := none
  defaultWriteConcernW : Option String := none
  /-- `TestData.enableMajorityReadConcern !== false`. -/
  enableMajorityReadConcern : Bool := true
  /-- `sessionOptions.causalConsistency === true`. -/
  causalConsistency : Bool := false
  /-- `driverSession.getOperationTime()`. -/
  operationTime : Option ℕ := none
  errorCodes : ErrorCodes
  isNetworkError : Exn → Bool
  isRetryableError : Exn → Bool
  canRetryWrites : Cmd → Bool
  /-- `assert.commandWorked` does not throw. -/
  commandWorked : Response → Bool
  /-- What `assert.commandWorked` throws. -/
  commandFailed : Response → Exn
  tojson : Cmd → String
  /-- `NumberInt(NaN)`. -/
  numberIntOfNaN : ℤ := 0

/-! ## Tables -/

/-- Commands assumed to not be blindly retryable. -/
def kNonRetryableCommands : List String :=
  ["_configsvrAddShard", "_configsvrAddShardToZone", "_configsvrCommitChunkMerge",
    "_configsvrCommitChunkMigration", "_configsvrCommitChunkSplit", "_configsvrCreateDatabase",
    "_configsvrEnableSharding", "_configsvrMoveChunk", "_configsvrMovePrimary",
    "_configsvrRemoveShard", "_configsvrRemoveShardFromZone", "_configsvrShardCollection",
    "_configsvrUpdateZoneKeyRange", "_mergeAuthzCollections", "_recvChunkStart", "appendOplogNote",
    "applyOps", "captrunc", "clone", "cloneCollectionAsCapped", "collMod", "convertToCapped",
    "create", "createIndexes", "createRole", "createUser", "deleteIndexes", "drop",
    "dropAllRolesFromDatabase", "dropAllUsersFromDatabase", "dropDatabase", "dropIndexes",
    "dropRole", "dropUser", "emptycapped", "godinsert", "grantPrivilegesToRole",
    "grantRolesToRole", "grantRolesToUser", "mapreduce.shardedfinish", "moveChunk",
    "renameCollection", "revokePrivilegesFromRole", "revokeRolesFromRole", "revokeRolesFromUser",
    "updateRole", "updateUser"]

/-- Commands of `kNonRetryableCommands` whose errors on retries are handled specially. -/
def kAcceptableNonRetryableCommands : List String :=
  ["create", "createIndexes", "deleteIndexes", "drop", "dropDatabase", "dropIndexes"]

def kCmdsThatInsert : List String := ["insert", "update", "findAndModify", "findandmodify"]

/-- Commands that may return different values or fail if retried on a new primary. -/
def kNonFailoverTolerantCommands : List String :=
  ["currentOp", "getLog", "killOp", "logRotate", "planCacheClear", "planCacheClearFilters",
    "planCacheListFilters", "planCacheListPlans", "planCacheListQueryShapes", "planCacheSetFilter",
    "profile", "setParameter", "stageDebug", "startSession"]

def kCmdsSupportingTransactions : List String :=
  ["aggregate", "delete", "find", "findAndModify", "findandmodify", "getMore", "insert", "update"]

def kCmdsThatWrite : List String := ["insert", "update", "findAndModify", "findandmodify", "delete"]

def kRetryableWriteCommands : List String :=
  ["delete", "findandmodify", "findAndModify", "insert", "update"]

def kCommandsSupportingReadConcern : List String :=
  ["aggregate", "count", "distinct", "find", "geoSearch"]

def kCommandsSupportingWriteConcern : List String :=
  ["_configsvrAddShard", "_configsvrAddShardToZone", "_configsvrCommitChunkMerge",
    "_configsvrCommitChunkMigration", "_configsvrCommitChunkSplit", "_configsvrCreateDatabase",
    "_configsvrEnableSharding", "_configsvrMoveChunk", "_configsvrMovePrimary",
    "_configsvrRemoveShard", "_configsvrRemoveShardFromZone", "_configsvrShardCollection",
    "_configsvrUpdateZoneKeyRange", "_mergeAuthzCollections", "_recvChunkStart", "abortTransaction",
    "appendOplogNote", "applyOps", "aggregate", "captrunc", "cleanupOrphaned", "clone",
    "cloneCollectionAsCapped", "collMod", "commitTransaction", "convertToCapped", "create",
    "createIndexes", "createRole", "createUser", "delete", "deleteIndexes", "drop",
    "dropAllRolesFromDatabase", "dropAllUsersFromDatabase", "dropDatabase", "dropIndexes",
    "dropRole", "dropUser", "emptycapped", "findAndModify", "findandmodify", "godinsert",
    "grantPrivilegesToRole", "grantRolesToRole", "grantRolesToUser", "insert", "mapReduce",
    "mapreduce", "mapreduce.shardedfinish", "moveChunk", "renameCollection",
    "revokePrivilegesFromRole", "revokeRolesFromRole", "revokeRolesFromUser",
    "setFeatureCompatibilityVersion", "update", "updateRole", "updateUser"]

def kCommandsSupportingWriteConcernInTransaction : List String :=
  ["abortTransaction", "commitTransaction"]

def kDefaultWtimeout : ℕ := 5 * 60 * 1000 + 567

def kMaxNumRetries : ℤ := 3

def maxOpsInTransaction : ℕ := 10

/-! ## Predicates on commands -/

def isCommitOrAbort (cmdName : String) : Bool :=
  cmdName = "commitTransaction" || cmdName = "abortTransaction"

def isCmdInTransaction (cmdObj : Cmd) : Bool := cmdObj.autocommit

def isRetryableWriteCmdName (cmdName : String) : Bool := cmdName ∈ kRetryableWriteCommands

/-- A stage that is an object, by its first key. -/
def stageName (stage : Option (List String)) : Option String := stage.bind List.head?

/-- The pipeline of an `aggregate`, when it is an array with at least one stage. -/
def aggregatePipeline (cmdObj : Cmd) : List (Option (List String)) :=
  if cmdObj.name = "aggregate" then cmdObj.pipeline.getD [] else []

/-- `makeIsAggregationWithFirstStage(stageName)`. -/
def isAggregationWithFirstStage (name : String) (cmdObj : Cmd) : Bool :=
  (aggregatePipeline cmdObj).head?.bind stageName = some name

def isAggregationWithListLocalSessionsStage : Cmd → Bool :=
  isAggregationWithFirstStage "$listLocalSessions"

def isAggregationWithChangeStreamStage : Cmd → Bool :=
  isAggregationWithFirstStage "$changeStream"

def isAggregationWithOutOrMergeStage (cmdObj : Cmd) : Bool :=
  let last := (aggregatePipeline cmdObj).getLast?.bind stageName
  last = some "$out" || last = some "$merge"

def isMapReduceWithInlineOutput (cmdObj : Cmd) : Bool :=
  (cmdObj.name = "mapReduce" || cmdObj.name = "mapreduce") && cmdObj.outInline

def commandIsNonTxnAggregation (cmdObj : Cmd) : Bool :=
  isAggregationWithOutOrMergeStage cmdObj || isAggregationWithChangeStreamStage cmdObj

/-- `TransactionsUtil.commandSupportsTxn`; `startsWith` of a value that is no string throws. -/
def commandSupportsTxn (dbName : String) (cmdObj : Cmd) : Except Exn Bool :=
  if isCommitOrAbort cmdObj.name then .ok true
  else if cmdObj.name ∉ kCmdsSupportingTransactions ∨ commandIsNonTxnAggregation cmdObj then
    .ok false
  else if dbName = "local" ∨ dbName = "config" ∨ dbName = "admin" then .ok false
  else if cmdObj.name ∈ kCmdsThatWrite then
    match cmdObj.value with
    | .str coll => .ok (!startsWith coll "system." && cmdObj.lsid.isSome)
    | _ => .error (error "cmdObj[cmdName].startsWith is not a function")
  else .ok cmdObj.lsid.isSome

/-- `calculateStmtIdInc`; `none` is an `undefined` length. -/
def calculateStmtIdInc (cmdObj : Cmd) : Option ℕ :=
  if cmdObj.name = "insert" ∨ cmdObj.name = "update" ∨ cmdObj.name = "delete" then
    match cmdObj.batch with
    -- reading `length` of `undefined` throws, and the catch clause returns 1
    | .missing => some 1
    | .sized n => some n
    | .unsized => none
  else some 1

/-! ## Predicates on responses and exceptions -/

def hasError (res : Response) : Bool := !res.ok || !res.writeErrors.isEmpty

def hasWriteConcernError (res : Response) : Bool := res.writeConcernError.isSome

/-- `TransactionsUtil.isTransientTransactionError`, of a response or an exception. -/
def isTransientTransactionError (errorLabels : List String) : Bool :=
  "TransientTransactionError" ∈ errorLabels

def includesErrorCode (serverReply : Response) (code : ℤ) : Bool :=
  serverReply.code = some code || code ∈ serverReply.writeErrors

/-- `/^Could not find host matching read preference.*mode: "primary"/`; `.` matches no newline. -/
def matchesReplicaSetMonitorError (message : String) : Bool :=
  let pre := "Could not find host matching read preference".toList
  pre.isPrefixOf message.toList &&
    (indexOf "mode: \"primary\"".toList
      ((message.toList.drop pre.length).takeWhile (· ≠ '\n'))).isSome

section

variable (env : Shell)

/-- `RetryableWritesUtil.isRetryableCode`; an `undefined` code is in no category. -/
def isRetryableCode (code : Option ℤ) : Bool :=
  code.any fun c => env.errorCodes.isNetworkError c || env.errorCodes.isNotMasterError c ||
    env.errorCodes.isWriteConcernError c || env.errorCodes.isShutdownError c ||
    env.errorCodes.isInterruption c

def kRetryableCodeNames : List String :=
  (env.errorCodes.names.filter fun p => isRetryableCode env (some p.2)).map Prod.fst

/-- `errmsgContainsRetryableCodeName`: the code name stands after the first character. -/
def errmsgContainsRetryableCodeName (errmsg : Option String) : Bool :=
  errmsg.any fun msg => (kRetryableCodeNames env).any fun codeName =>
    (indexOf codeName.toList msg.toList).any (0 < ·)

def isRetryableExecutorCodeAndMessage (code : Option ℤ) (msg : Option String) : Bool :=
  code = some env.errorCodes.operationFailed &&
    msg.any (includes · "InterruptedDueToReplStateChange")

def isRetryableShardCollectionResponse (res : Response) : Bool :=
  errmsgContainsRetryableCodeName env res.errmsg || res.code = some env.errorCodes.callbackCanceled

def isAcceptableRetryFailedResponse (cmdName : String) (res : Response) : Bool :=
  (cmdName = "create" && res.code = some env.errorCodes.namespaceExists) ||
    (cmdName = "createIndexes" && res.code = some env.errorCodes.indexAlreadyExists) ||
    (cmdName = "drop" && res.code = some env.errorCodes.namespaceNotFound) ||
    ((cmdName = "dropIndexes" || cmdName = "deleteIndexes") &&
      res.code = some env.errorCodes.indexNotFound)

/-- Commands in transactions cannot be retried at the statement level, except for the commit and
abort. -/
def canRetryNetworkErrorForCommand (cmdObj : Cmd) : Bool :=
  if !env.configuredForNetworkRetry then false
  else if isCmdInTransaction cmdObj then isCommitOrAbort cmdObj.name
  else true

/-- The refusals of `validateCmdNetworkErrorCompatibility`. -/
def validateCmdNetworkErrorCompatibility (cmdObj : Cmd) : Except Exn Unit :=
  let cmdName := cmdObj.name
  let logSuffix := " CmdName: " ++ cmdName ++ ", CmdObj: " ++ env.tojson cmdObj
  if isRetryableWriteCmdName cmdName ∧ ¬ env.canRetryWrites cmdObj then
    .error (error ("Refusing to run a test that issues non-retryable write operations" ++
      " since the test likely makes assertions on the write results and" ++
      " can lead to spurious failures if a network error occurs." ++ logSuffix))
  else if cmdName = "getMore" then
    .error (error ("Refusing to run a test that issues a getMore command since if a network error" ++
      " occurs during it then we won't know whether the cursor was advanced or not." ++ logSuffix))
  else if cmdName ∈ kNonRetryableCommands ∧ cmdName ∉ kAcceptableNonRetryableCommands then
    .error (error ("Refusing to run a test that issues commands that are not blindly retryable, " ++
      logSuffix))
  else if cmdName ∈ kNonFailoverTolerantCommands then
    .error (error ("Refusing to run a test that issues commands that may return different values" ++
      " after a failover, " ++ logSuffix))
  else if cmdName = "aggregate" then
    let stages := aggregatePipeline cmdObj
    if stages.head?.any (·.any ("$listLocalSessions" ∈ ·)) then
      .error (error ("Refusing to run a test that issues an aggregation command with" ++
        " $listLocalSessions because it relies on in-memory" ++
        " state that may not survive failovers." ++ logSuffix))
    else if stages.getLast?.any (·.any ("$out" ∈ ·)) then
      .error (error ("Refusing to run a test that issues an aggregation command" ++
        " with $out because it is not retryable." ++ logSuffix))
    else if cmdObj.explain.isSome then
      .error (error ("Refusing to run a test that issues an aggregation command with explain" ++
        " because it may return incomplete results if interrupted by a stepdown." ++ logSuffix))
    else .ok ()
  else if cmdName = "mapReduce" ∨ cmdName = "mapreduce" then
    .error (error ("Refusing to run a test that issues a mapReduce command, because it calls " ++
      " std::terminate() if interrupted by a stepdown." ++ logSuffix))
  else .ok ()

/-! ## Read and write concern -/

def kDefaultTransactionReadConcernLevel : String :=
  env.defaultTransactionReadConcernLevel.getD
    (if env.enableMajorityReadConcern then "snapshot" else "local")

def kDefaultTransactionWriteConcernW : String :=
  env.defaultTransactionWriteConcernW.getD "majority"

def kDefaultReadConcernLevel : String :=
  env.defaultReadConcernLevel.getD (if env.enableMajorityReadConcern then "majority" else "local")

def kDefaultWriteConcernW : String := env.defaultWriteConcernW.getD "majority"

/-- `shouldForceReadConcern` at its first use. -/
def shouldForceReadConcern (cmdObj : Cmd) : Bool :=
  if isCmdInTransaction cmdObj then cmdObj.startTransaction
  else cmdObj.name ∈ kCommandsSupportingReadConcern &&
    !(isAggregationWithListLocalSessionsStage cmdObj ||
      isAggregationWithChangeStreamStage cmdObj || isAggregationWithOutOrMergeStage cmdObj ||
      (cmdObj.name = "aggregate" && cmdObj.explain = some true))

/-- `drop` and `convertToCapped` get their own write concern when only the transaction override
is on. -/
def forcesMajorityDrop (cmdObj : Cmd) : Bool :=
  (cmdObj.name = "drop" || cmdObj.name = "convertToCapped") && env.configuredForTxnOverride &&
    !env.configuredForNetworkRetry

/-- `shouldForceWriteConcern` at its first use. -/
def shouldForceWriteConcern (cmdObj : Cmd) : Bool :=
  cmdObj.name ∈ kCommandsSupportingWriteConcern && !forcesMajorityDrop env cmdObj &&
    if isCmdInTransaction cmdObj then cmdObj.name ∈ kCommandsSupportingWriteConcernInTransaction
    else if cmdObj.name = "aggregate" then isAggregationWithOutOrMergeStage cmdObj
    else !isMapReduceWithInlineOutput cmdObj

/-- The level that the override asks for. -/
def readConcernLevel (cmdObj : Cmd) : String :=
  if cmdObj.startTransaction then kDefaultTransactionReadConcernLevel env
  else kDefaultReadConcernLevel env

/-- The read concern that the override sets, or its refusal. -/
def appendReadConcern (cmdObj : Cmd) : Except Exn Cmd :=
  if shouldForceReadConcern cmdObj then
    match cmdObj.readConcern.bind ReadConcern.level with
    | some level =>
      if level ≠ readConcernLevel env cmdObj then
        .error (error ("refusing to override existing readConcern " ++ level ++
          " with readConcern " ++ readConcernLevel env cmdObj))
      else .ok withReadConcern
    | none => .ok withReadConcern
  else .ok cmdObj
where
  withReadConcern : Cmd :=
    { cmdObj with
      readConcern := some
        { level := some (readConcernLevel env cmdObj)
          afterClusterTime := if env.causalConsistency then env.operationTime else none } }

/-- The write concern that the override sets, or its refusal. -/
def appendWriteConcern (cmdObj : Cmd) : Except Exn Cmd :=
  if shouldForceWriteConcern env cmdObj then
    match cmdObj.writeConcern with
    | some .malformed => .error refusal
    | some (.doc (some w) _) =>
      if w ≠ kDefaultWriteConcernW env then .error refusal else .ok withWriteConcern
    | _ => .ok withWriteConcern
  else .ok cmdObj
where
  refusal : Exn :=
    error ("Cowardly refusing to override write concern of command: " ++ env.tojson cmdObj)
  withWriteConcern : Cmd :=
    { cmdObj with
      writeConcern := some (.doc
        (some (if cmdObj.name ∈ kCommandsSupportingWriteConcernInTransaction then
          kDefaultTransactionWriteConcernW env else kDefaultWriteConcernW env))
        (some kDefaultWtimeout)) }

def appendReadAndWriteConcern (cmdObj : Cmd) : Except Exn Cmd := do
  let cmdObj :=
    if forcesMajorityDrop env cmdObj then
      { cmdObj with
        writeConcern := cmdObj.writeConcern.or (some (.doc (some "majority") (some kDefaultWtimeout))) }
    else cmdObj
  appendWriteConcern env (← appendReadConcern env cmdObj)

/-! ## Responses under network retries -/

/-- How `shouldRetryWithNetworkErrorOverride` ends. -/
inductive Verdict
  /-- `kContinue`, after a log message. -/
  | kContinue
  /-- The response to pass up; `logged` when a safe error was overridden. -/
  | pass (res : Response) (logged : Bool)
  /-- `res.errmsg.indexOf` of a response without `errmsg`. -/
  | typeError

/-- `res.ok` was falsy and the code is not known to be retryable by itself. -/
def retryableByCommand (cmdName : String) (res : Response) : Bool :=
  ((cmdName = "listCollections" || cmdName = "listIndexes") &&
      res.code = some env.errorCodes.operationFailed &&
      res.errmsg.any (includes · "failed to read command response from shard")) ||
    (cmdName = "shardCollection" && isRetryableShardCollectionResponse env res) ||
    (cmdName = "drop" && errmsgContainsRetryableCodeName env res.errmsg)

/-- An `explain` that a stepdown interrupted; `none` when reading `errmsg` throws. -/
def interruptedExplain (res : Response) : Option Bool :=
  if res.executionStats.any fun stats => !stats.executionSuccess &&
      (isRetryableCode env stats.errorCode ||
        isRetryableExecutorCodeAndMessage env stats.errorCode stats.errorMessage) then some true
  else if !res.ok then res.errmsg.map (includes · "child command cannot run on this node")
  else some false

/-- The check on write concern errors at the end. -/
def writeConcernVerdict (res : Response) (logged : Bool) : Verdict :=
  if hasWriteConcernError res && !hasError res && isRetryableCode env res.writeConcernError then
    .kContinue
  else .pass res logged

mutual

/-- `shouldRetryWithNetworkErrorOverride`, without the log messages. -/
def networkErrorVerdict (cmdName : String) (shouldOverrideAcceptableError : Bool) :
    Response → Verdict
  | ⟨ok, code, errmsg, labels, writeErrors, wce, cursorId, stats, raw⟩ =>
    let res : Response := ⟨ok, code, errmsg, labels, writeErrors, wce, cursorId, stats, raw⟩
    if isRetryableWriteCmdName cmdName then
      if (cmdName = "findandmodify" ∨ cmdName = "findAndModify") ∧
          isRetryableExecutorCodeAndMessage env code errmsg then .kContinue
      -- don't interfere with retryable writes
      else .pass res false
    else if cmdName = "commitTransaction" ∧ hasWriteConcernError res then .kContinue
    else match (if cmdName = "explain" then interruptedExplain env res else some false) with
    | none => .typeError
    | some true => .kContinue
    | some false =>
      if ok then writeConcernVerdict env res false
      else if isRetryableCode env code ∨ isRetryableExecutorCodeAndMessage env code errmsg then
        .kContinue
      else match (if code = none then rawResponseVerdict cmdName raw else some false) with
      | none => .typeError
      | some true => .kContinue
      | some false =>
        if retryableByCommand env cmdName res then .kContinue
        else if !shouldOverrideAcceptableError || !isAcceptableRetryFailedResponse env cmdName res
        then .pass res false
        -- swallow safe errors that may come from a retry
        else writeConcernVerdict env { res with ok := true } true

/-- `rawResponseHasRetryableError`; `none` when it throws. -/
def rawResponseVerdict (cmdName : String) : List Response → Option Bool
  | [] => some false
  | shardRes :: rest =>
    match networkErrorVerdict cmdName false shardRes with
    | .kContinue => some true
    | .typeError => none
    | .pass _ _ => rawResponseVerdict cmdName rest

end

end

end MongoTests.Override
