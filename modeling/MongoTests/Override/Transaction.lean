import MongoTests.Lib.Program
import MongoTests.Override.Server

/-!
# The transaction and network error override

Embeds `jstests/libs/override_methods/network_error_and_txn_override.js`: `runCommandOverride` and
everything it calls, as programs over the variables of the module and the server. A nested command
runs through `run`, which `runCommandOverride` ties to itself with less fuel. A run stops where its
fuel is used up or the server has not answered yet.

Three variables are not in the source: `catches`, the catch clauses around the running code;
`raised`, the exceptions so far, each with `ops` and the catch clauses at that point; and `commits`,
a record for every return of `commitTransaction`.

* `State`, `raise`, `clientFunction`;
* `commitTransaction`, `abortTransaction`, `setupTransactionCommand`, `retryEntireTransaction`,
  `retryWithTxnOverride`, `retryWithTxnOverrideException`;
* `attempts`, the retry loop; `runCommandOverrideBody`; `runCommandOverride`;
* `issue`: the test runs a command.
-/

namespace MongoTests.Override

open MongoTests.Lib

/-! ## State -/

/-- A `try` of `runCommandOverrideBody`, with what its catch clause reads. -/
structure Catch where
  cmdObj : Cmd
  startTime : ℕ
  numNetworkErrorRetries : ℤ

/-- An exception, with `ops`, the time and the catch clauses around it, the innermost first. -/
structure Raised where
  exn : Exn
  ops : List Op
  now : ℕ
  catches : List Catch

/-- A return of `commitTransaction`: `ops` when it was called, and the state it left. -/
structure Commit where
  pushed : List Op
  txnNumber : ℤ
  server : Server
  opsAfter : List Op
  txnNumberAfter : ℤ

structure State where
  ops : List Op := []
  txnNumber : ℤ := -1
  stmtId : ℤ := 0
  nestingLevel : ℕ := 0
  currentCommandID : List ℕ := []
  newestCommandID : ℕ := 0
  inCommandNetworkErrorRetry : Bool := false
  nonTxnAggCursorSet : List ℕ := []
  server : Server := ⟨-1, .aborted, []⟩
  /-- The answers of the server to come. -/
  answers : List Answer := []
  now : ℕ := 0
  catches : List Catch := []
  raised : List Raised := []
  commits : List Commit := []

abbrev M := Prog State Exn

variable {α : Type}

def State.note (s : State) (e : Exn) : State :=
  { s with raised := s.raised ++ [⟨e, s.ops, s.now, s.catches⟩] }

/-- `throw e` of an exception that no catch clause has seen yet. -/
def raise (e : Exn) : M α := do
  Prog.modify (State.note · e)
  Prog.throw e

def ofExcept : Except Exn α → M α
  | .ok a => pure a
  | .error e => raise e

def jsAssert (c : Bool) (text : String) : M Unit := if c then pure () else raise (error text)

def when (c : Bool) (m : M Unit) : M Unit := if c then m else pure ()

/-- `logMsgFull` and `logErrorFull`: the assertion after the message. -/
def log : M Unit := do
  let s ← Prog.get
  jsAssert (s.nestingLevel = s.currentCommandID.length) "nestingLevel, currentCommandID.length"

def isNested : M Bool := do
  let s ← Prog.get
  jsAssert (0 < s.nestingLevel) "nestingLevel > 0"
  pure (s.nestingLevel ≠ 1)

def clearOpsList : M Unit := Prog.modify fun s => { s with ops := [] }

/-- The original `runCommand`: one request to the server. -/
def clientFunction (dbName : String) (cmdObj : Cmd) : M Response := fun s =>
  match s.answers with
  | [] => Prog.stop s
  | ans :: answers =>
    match s.server.handle ⟨dbName, cmdObj⟩ ans with
    | none => Prog.stop s
    | some server =>
      ofExcept ans.result { s with answers := answers, server := server, now := ans.now }

/-! ## Transactions -/

/-- `TransactionsUtil.isTransientTransactionError(e) && cmdName !== "abortTransaction"`. -/
def retriesTransient (errorLabels : List String) (cmdObj : Cmd) : Bool :=
  isTransientTransactionError errorLabels && cmdObj.name ≠ "abortTransaction"

def commitCmd (lsid : Option ℕ) (txnNumber : ℤ) : Cmd :=
  { name := "commitTransaction", autocommit := true, lsid := lsid, txnNumber := some txnNumber }

def abortCmd (lsid : Option ℕ) (txnNumber : ℤ) : Cmd :=
  { name := "abortTransaction", autocommit := true, lsid := lsid, txnNumber := some txnNumber }

def createCmd (lsid : Option ℕ) (collName : CmdValue) : Cmd :=
  { name := "create"
    value := collName
    lsid := lsid
    writeConcern := some (.doc (some "majority") none) }

/-- Bump the txnNumber and reset the stmtId. -/
def State.bump (s : State) : State := { s with txnNumber := s.txnNumber + 1, stmtId := 1 }

def startNewTransaction (cmdObj : Cmd) : M Cmd := do
  Prog.modify State.bump
  pure { cmdObj with startTransaction := true }

section

variable (env : Shell)

def assertCommandWorked (res : Response) : M Unit :=
  if env.commandWorked res then pure () else raise (env.commandFailed res)

/-- The part of `continueTransaction` that pushes the command to `ops`. -/
def pushOp (dbName : String) (cmdObj : Cmd) : M Unit :=
  Prog.modify fun s => { s with ops := s.ops ++ [⟨dbName, { cmdObj with txnNumber := none }⟩] }

def continueTransaction (dbName : String) (cmdObj : Cmd) : M Cmd := do
  let s ← Prog.get
  let cmdObj :=
    { cmdObj with txnNumber := some s.txnNumber, stmtId := some s.stmtId, autocommit := true }
  Prog.modify fun s =>
    { s with
      stmtId := match calculateStmtIdInc cmdObj with
        | some inc => s.stmtId + inc
        | none => env.numberIntOfNaN }
  jsAssert cmdObj.readConcern.isNone "!cmdObj.hasOwnProperty('readConcern')"
  jsAssert cmdObj.writeConcern.isNone "!cmdObj.hasOwnProperty('writeConcern')"
  let nested ← isNested
  when (!nested && !s.inCommandNetworkErrorRetry) (pushOp dbName cmdObj)
  pure cmdObj

/-- A `getMore` on a cursor that was created outside of any transaction. -/
def isCommandNonTxnGetMore (cmdObj : Cmd) (s : State) : Bool :=
  cmdObj.name = "getMore" && match cmdObj.value with
    | .cursor id => id ∈ s.nonTxnAggCursorSet
    | _ => false

variable (run : String → Cmd → M Response)

/-- Commits the given transaction. Throws on failure to commit. -/
def commitTransaction (lsid : Option ℕ) (txnNumber : ℤ) : M Unit := do
  jsAssert env.configuredForTxnOverride "configuredForTxnOverride()"
  jsAssert (0 ≤ txnNumber) "txnNumber >= 0"
  log
  let entry ← Prog.get
  let res ← run "admin" (commitCmd lsid txnNumber)
  assertCommandWorked env res
  clearOpsList
  Prog.modify fun s =>
    { s with commits := s.commits ++ [⟨entry.ops, txnNumber, s.server, s.ops, s.txnNumber⟩] }

def abortTransaction (lsid : Option ℕ) (txnNumber : ℤ) : M Unit := do
  jsAssert env.configuredForTxnOverride "configuredForTxnOverride()"
  jsAssert (0 ≤ txnNumber) "txnNumber >= 0"
  log
  let res ← run "admin" (abortCmd lsid txnNumber)
  -- a transient error means that the transaction has aborted
  if isTransientTransactionError res.errorLabels then pure () else assertCommandWorked env res

/-- The transaction that a command which supports transactions runs in. -/
def chooseTransaction (cmdObj : Cmd) (lsid : Option ℕ) : M Cmd := do
  let nested ← isNested
  let s ← Prog.get
  if nested then pure cmdObj
  else if s.ops = [] then do
    jsAssert (cmdObj.name ≠ "getMore") "cmdName !== 'getMore'"
    startNewTransaction cmdObj
  else if cmdObj.name = "getMore" then pure cmdObj
  else if maxOpsInTransaction ≤ s.ops.length then do
    log
    commitTransaction env run lsid s.txnNumber
    startNewTransaction cmdObj
  else pure cmdObj

/-- A command that does not support transactions ends the current one. -/
def endTransaction (lsid : Option ℕ) : M Unit := do
  let s ← Prog.get
  when (s.ops ≠ []) do
    let nested ← isNested
    when (!nested) do
      log
      commitTransaction env run lsid s.txnNumber

def setupTransactionCommand (dbName : String) (cmdObj : Cmd) (lsid : Option ℕ) : M Cmd := do
  let cmdObj := { cmdObj with readConcern := none, writeConcern := none }
  let commandSupportsTransaction ← ofExcept (commandSupportsTxn dbName cmdObj)
  let s ← Prog.get
  if commandSupportsTransaction && env.hasSessionId && !isCommandNonTxnGetMore cmdObj s then do
    let cmdObj ← chooseTransaction env run cmdObj lsid
    let cmdObj ← continueTransaction env dbName cmdObj
    ofExcept (appendReadAndWriteConcern env cmdObj)
  else do
    endTransaction env run lsid
    ofExcept (appendReadAndWriteConcern env cmdObj)

/-- The loop of `retryEntireTransaction`; `res` is the response of the command before. -/
def retryOps (retriedTxnNumber : ℤ) (res : Response) : List Op → M Response
  | [] => pure res
  | op :: rest => do
    log
    let res ← run op.dbName op.cmdObj
    if hasError res || hasWriteConcernError res then pure res
    else do
      assertCommandWorked env res
      let s ← Prog.get
      -- a nested retry has completed the transaction
      if s.txnNumber ≠ retriedTxnNumber then pure res else retryOps retriedTxnNumber res rest

/-- Retries the entire transaction without committing it. -/
def retryEntireTransaction : M Response := do
  let s ← Prog.get
  jsAssert (0 < s.ops.length) "ops.length > 0"
  let _ ← startNewTransaction { name := "ignored object" }
  let t ← Prog.get
  log
  retryOps env run t.txnNumber {} t.ops

/-- Creates the given collection, retrying if needed. Throws on failure. -/
def createCollectionExplicitly (dbName : String) (collName : CmdValue) (lsid : Option ℕ) :
    M Unit := do
  log
  let res ← run dbName (createCmd lsid collName)
  assertCommandWorked env res

/-- The retry after a transient transaction error. Retrying the transaction does not retry a
`commitTransaction`, so it is retried here. -/
def retryAfterTransient (cmdObj : Cmd) (lsid : Option ℕ) : M Response := do
  log
  let res ← retryEntireTransaction env run
  let s ← Prog.get
  when (!hasError res && cmdObj.name = "commitTransaction")
    (commitTransaction env run lsid s.txnNumber)
  pure res

def retryWithTxnOverride (res : Response) (dbName : String) (cmdObj : Cmd) (lsid : Option ℕ) :
    M Response := do
  jsAssert env.configuredForTxnOverride "configuredForTxnOverride()"
  if hasError res && isStatement cmdObj then do
    let s ← Prog.get
    jsAssert (0 < s.ops.length) "ops.length > 0"
    abortTransaction env run lsid s.txnNumber
    if cmdObj.name ∈ kCmdsThatInsert &&
        includesErrorCode res env.errorCodes.operationNotSupportedInTransaction then do
      createCollectionExplicitly env run dbName cmdObj.value lsid
      retryEntireTransaction env run
    else if env.configuredForNetworkRetry && isRetryableCode env res.code then do
      log
      retryEntireTransaction env run
    else if retriesTransient res.errorLabels cmdObj then retryAfterTransient env run cmdObj lsid
    else pure res
  else if retriesTransient res.errorLabels cmdObj then retryAfterTransient env run cmdObj lsid
  else pure res

/-- `retryWithTxnOverrideException` has a response instead of `null`. -/
def retriesTxnException (cmdObj : Cmd) (e : Exn) : Bool :=
  retriesTransient e.errorLabels cmdObj ||
    (env.configuredForNetworkRetry && env.isNetworkError e &&
      !canRetryNetworkErrorForCommand env cmdObj)

def retryWithTxnOverrideException (e : Exn) (cmdObj : Cmd) (lsid : Option ℕ) :
    M (Option Response) := do
  jsAssert env.configuredForTxnOverride "configuredForTxnOverride()"
  if retriesTransient e.errorLabels cmdObj then do
    let res ← retryAfterTransient env run cmdObj lsid
    pure (some res)
  else if retriesTxnException env cmdObj e then do
    log
    let res ← retryEntireTransaction env run
    pure (some res)
  else pure none

/-! ## Network errors -/

/-- `shouldRetryWithNetworkErrorOverride`; `none` is `kContinue`. -/
def shouldRetryWithNetworkErrorOverride (res : Response) (cmdObj : Cmd) : M (Option Response) := do
  jsAssert env.configuredForNetworkRetry "configuredForNetworkRetry()"
  match networkErrorVerdict env cmdObj.name true res with
  | .kContinue => do
    log
    pure none
  | .pass res logged => do
    when logged log
    pure (some res)
  | .typeError => raise (error "res.errmsg is undefined")

/-- Whether `shouldRetryWithNetworkExceptionOverride` subtracts from the retries; `none` when it
throws. -/
def networkExceptionVerdict (now : ℕ) (c : Catch) (e : Exn) : Option Bool :=
  if c.numNetworkErrorRetries = 0 then none
  else if matchesReplicaSetMonitorError e.message && now - c.startTime < 5 * 60 * 1000 then
    some false
  else if includes e.message "writeConcernError" && env.isRetryableError e then some false
  else if !env.isNetworkError e then none
  -- the shell retries it, or has done so
  else if isRetryableWriteCmdName c.cmdObj.name && env.canRetryWrites c.cmdObj then none
  else some true

def shouldRetryWithNetworkExceptionOverride (e : Exn) (c : Catch) : M Bool := do
  jsAssert env.configuredForNetworkRetry "configuredForNetworkRetry()"
  let s ← Prog.get
  log
  match networkExceptionVerdict env s.now c e with
  | some decrement => pure decrement
  | none => Prog.throw e

/-- The catch clause does not throw `e` again. -/
def Catch.retries (now : ℕ) (c : Catch) (e : Exn) : Bool :=
  (env.configuredForTxnOverride && retriesTxnException env c.cmdObj e) ||
    (canRetryNetworkErrorForCommand env c.cmdObj && (networkExceptionVerdict env now c e).isSome)

/-! ## The retry loop -/

inductive Pass
  | done (res : Response)
  | again (numNetworkErrorRetries : ℤ)

/-- Remembers the cursors of aggregations outside of transactions. -/
def recordCursor (res : Response) (cmdObj : Cmd) : M Unit :=
  when (!hasError res && commandIsNonTxnAggregation cmdObj) <|
    match res.cursorId with
    | some id => Prog.modify fun s => { s with nonTxnAggCursorSet := id :: s.nonTxnAggCursorSet }
    | none => raise (error "res.cursor is undefined")

/-- The part of the loop that looks at the response for the transaction override. -/
def processTxnResponse (res : Response) (dbName : String) (cmdObj : Cmd) (lsid : Option ℕ) :
    M Response :=
  if env.configuredForTxnOverride then do
    log
    recordCursor res cmdObj
    retryWithTxnOverride env run res dbName cmdObj lsid
  else pure res

/-- The part of the loop that looks at the response for network retries. -/
def processNetworkResponse (res : Response) (c : Catch) : M Pass :=
  if canRetryNetworkErrorForCommand env c.cmdObj then do
    let networkRetryRes ← shouldRetryWithNetworkErrorOverride env res c.cmdObj
    match networkRetryRes with
    | none => pure (.again c.numNetworkErrorRetries)
    | some res => pure (.done res)
  else pure (.done res)

def attempt (dbName : String) (lsid : Option ℕ) (c : Catch) : M Pass := do
  let res ← clientFunction dbName c.cmdObj
  let res ← processTxnResponse env run res dbName c.cmdObj lsid
  processNetworkResponse env res c

/-- The catch clause after `retryWithTxnOverrideException`. -/
def onNetworkException (e : Exn) (c : Catch) : M Pass :=
  if canRetryNetworkErrorForCommand env c.cmdObj then do
    let decrementRetryCount ← shouldRetryWithNetworkExceptionOverride env e c
    when decrementRetryCount log
    log
    Prog.modify fun s => { s with inCommandNetworkErrorRetry := true }
    pure (.again (if decrementRetryCount then c.numNetworkErrorRetries - 1
      else c.numNetworkErrorRetries))
  else Prog.throw e

def onException (e : Exn) (lsid : Option ℕ) (c : Catch) : M Pass :=
  if env.configuredForTxnOverride then do
    let txnRetryOnException ← retryWithTxnOverrideException env run e c.cmdObj lsid
    match txnRetryOnException with
    | some res => pure (.done res)
    | none => onNetworkException env e c
  else onNetworkException env e c

def State.enterTry (c : Catch) (s : State) : State := { s with catches := c :: s.catches }

def State.leaveTry (s : State) : State := { s with catches := s.catches.tail }

/-- `try { m } catch (e) { h }`, with the catch clause in `catches` while `m` runs. -/
def tryWith (c : Catch) (m : M α) (h : Exn → M α) : M α :=
  Prog.tryCatch
    (Prog.ensuring (do
      Prog.modify (State.enterTry c)
      m) State.leaveTry)
    h

def attempts (dbName : String) (cmdObj : Cmd) (lsid : Option ℕ) (startTime : ℕ) :
    ℕ → ℤ → M Response
  | 0, _ => Prog.stop
  | fuel + 1, numNetworkErrorRetries => do
    let c : Catch := ⟨cmdObj, startTime, numNetworkErrorRetries⟩
    let pass ← tryWith c (attempt env run dbName lsid c) fun e => onException env run e lsid c
    match pass with
    | .done res => pure res
    | .again retries =>
      if 0 ≤ retries then attempts dbName cmdObj lsid startTime fuel retries
      else raise (error "MONGO UNREACHABLE")

/-- Top level commands must support network error retries. -/
def validate (cmdObj : Cmd) : M Unit :=
  when env.configuredForNetworkRetry do
    let nested ← isNested
    when (!nested && !isCmdInTransaction cmdObj) do
      let s ← Prog.get
      jsAssert (!s.inCommandNetworkErrorRetry) "!inCommandNetworkErrorRetry"
      ofExcept (validateCmdNetworkErrorCompatibility env cmdObj)

/-- The command as the transaction override sends it. -/
def setupCommand (dbName : String) (cmdObj : Cmd) (lsid : Option ℕ) : M Cmd :=
  if env.configuredForTxnOverride then setupTransactionCommand env run dbName cmdObj lsid
  else pure cmdObj

def runCommandOverrideBody (fuel : ℕ) (dbName : String) (cmdObj : Cmd) (lsid : Option ℕ) :
    M Response := do
  let s ← Prog.get
  validate env cmdObj
  let cmdObj ← setupCommand env run dbName cmdObj lsid
  attempts env run dbName cmdObj lsid s.now fuel
    (if canRetryNetworkErrorForCommand env cmdObj then kMaxNumRetries else 0)

/-- Clears `ops` when a top level command returns an error to the test. -/
def clearOnFailure (res : Response) (lsid : Option ℕ) : M Unit :=
  when env.configuredForTxnOverride do
    let nested ← isNested
    let s ← Prog.get
    when (!nested && hasError res && s.ops ≠ []) do
      log
      clearOpsList
      abortTransaction env run lsid s.txnNumber

end

/-- A command object, possibly in the wrapped form `{query: {...}}` or `{$query: {...}}`. -/
inductive CmdArg
  | plain (cmdObj : Cmd)
  | query (cmdObj : Cmd)
  | dollarQuery (cmdObj : Cmd)

def CmdArg.unwrap : CmdArg → Cmd
  | .plain cmdObj => cmdObj
  | .query cmdObj => cmdObj
  | .dollarQuery cmdObj => cmdObj

/-- What `runCommandOverride` does before its `try`. -/
def enter (s : State) : State :=
  { s with
    currentCommandID := s.currentCommandID ++ [s.newestCommandID]
    newestCommandID := s.newestCommandID + 1
    nestingLevel := s.nestingLevel + 1 }

def leave (s : State) : State :=
  { s with
    nestingLevel := s.nestingLevel - 1
    currentCommandID := s.currentCommandID.dropLast
    inCommandNetworkErrorRetry := false }

/-- Top level runCommand override function. -/
def runCommandOverride (env : Shell) : ℕ → String → CmdArg → M Response
  | 0, _, _ => Prog.stop
  | fuel + 1, dbName, arg => do
    let run := fun dbName cmdObj => runCommandOverride env fuel dbName (.plain cmdObj)
    let cmdObj := arg.unwrap
    Prog.modify enter
    Prog.ensuring (do
      let res ← runCommandOverrideBody env run fuel dbName cmdObj cmdObj.lsid
      clearOnFailure env run res cmdObj.lsid
      pure res) leave

/-! ## A test -/

/-- A top level command of the test, with the answers that the server gives while it runs. -/
structure Call where
  dbName : String
  arg : CmdArg
  answers : List Answer
  fuel : ℕ

/-- The override between two commands of the test, or in the middle of one, and how the last command
ended. -/
structure Test where
  state : State := {}
  last : Option (Outcome Exn Response) := none

/-- **The test issues a command**, unless the one before has not ended; `raised` collects the
exceptions of this command. -/
def issue (env : Shell) (t : Test) (c : Call) : Option Test :=
  match t.last with
  | some .stop => none
  | _ =>
    let p := runCommandOverride env c.fuel c.dbName c.arg
      { t.state with answers := c.answers, raised := [] }
    some ⟨p.2, some p.1⟩

/-- The shell has just loaded the override. -/
def Fresh (t : Test) : Prop := t = {}

def Test.threw (t : Test) : Bool :=
  match t.last with
  | some (.error _) => true
  | _ => false

/-- The last command returned a response with an error, or threw. -/
def Test.failed (t : Test) : Bool :=
  match t.last with
  | some (.ok res) => hasError res
  | some (.error _) => true
  | _ => false

def Test.ended (t : Test) : Bool :=
  match t.last with
  | some .stop => false
  | _ => true

theorem issue_eq_some {env : Shell} {t t' : Test} {c : Call} :
    issue env t c = some t' ↔ t.ended = true ∧
      runCommandOverride env c.fuel c.dbName c.arg
        { t.state with answers := c.answers, raised := [] } = (t'.last.getD .stop, t'.state) ∧
      t'.last.isSome := by
  obtain ⟨s', last'⟩ := t'
  unfold issue Test.ended
  split
  · simp
  · cases last' with
    | none => simp
    | some o => simp [Prod.ext_iff, and_comm]

/-! ## Concrete commands and answers -/

/-- A shell whose network errors are told by their message, as `isNetworkError` does. -/
def testShell (configuredForNetworkRetry : Bool) : Shell where
  configuredForNetworkRetry := configuredForNetworkRetry
  configuredForTxnOverride := true
  hasSessionId := true
  errorCodes :=
    { operationNotSupportedInTransaction := 263
      operationFailed := 96
      namespaceExists := 48
      indexAlreadyExists := 68
      namespaceNotFound := 26
      indexNotFound := 27
      callbackCanceled := 90
      names := [("HostUnreachable", 6), ("NotMaster", 10107), ("WriteConcernFailed", 64),
        ("ShutdownInProgress", 91), ("Interrupted", 11601)]
      isNetworkError := (· = 6)
      isNotMasterError := (· = 10107)
      isWriteConcernError := (· = 64)
      isShutdownError := (· = 91)
      isInterruption := (· = 11601) }
  isNetworkError e := includes e.message "network error"
  isRetryableError _ := false
  canRetryWrites _ := true
  commandWorked res := !hasError res && !hasWriteConcernError res
  commandFailed res := { message := "command failed", errorLabels := res.errorLabels }
  tojson cmdObj := cmdObj.name

/-- An insert of one document; `n` tells the documents apart. -/
def insertCmd (n : ℕ) : Cmd :=
  { name := "insert", value := .str "coll", lsid := some 0, batch := .sized 1, rest := n }

def Answer.worked : Answer := ⟨.ok {}, .applied, false, 0⟩

def Answer.badValue : Answer := ⟨.ok { ok := false, code := some 2 }, .failed, false, 0⟩

/-- The connection was closed before the server saw the request. -/
def Answer.closed : Answer :=
  ⟨.error (error "network error while attempting to run command"), .untouched, false, 0⟩

def insertCall (n : ℕ) (answers : List Answer) : Call :=
  ⟨"test", .plain (insertCmd n), answers, 4⟩

end MongoTests.Override
