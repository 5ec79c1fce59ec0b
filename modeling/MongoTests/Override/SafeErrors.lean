import MongoTests.Override.Nesting
import MongoTests.Override.RetryLoop

/-!
# Safe errors

`shouldRetryWithNetworkErrorOverride` overrides a failed response of `create`, `createIndexes`,
`drop`, `dropIndexes` and `deleteIndexes` whose code is safe, since the command may have completed
before the connection was closed. It does so for the response to a first attempt too.

* `Responds`: the answer that an iteration gets.
* `SwallowedOnRetries`: only a response to a later attempt is overridden.
* `Swallows`: the code overrides this response.
* **`swallowed_on_retries_iff`**.
-/

namespace MongoTests.Override

open MongoTests.Lib Prog

variable {env : Shell} {s u : State} {res res' : Response} {l : Command}

/-! ## Verdicts -/

/-- A safe code belongs to one of five commands. -/
theorem name_of_acceptable {cmdName : String}
    (h : isAcceptableRetryFailedResponse env cmdName res = true) :
    isRetryableWriteCmdName cmdName = false ∧ isCommitOrAbort cmdName = false ∧ cmdName ≠ "explain" ∧
      res.code ≠ none := by
  simp only [isAcceptableRetryFailedResponse, Bool.or_eq_true, Bool.and_eq_true, decide_eq_true_eq] at h
  rcases h with ((⟨rfl, hcode⟩ | ⟨rfl, hcode⟩) | ⟨rfl, hcode⟩) | ⟨rfl | rfl, hcode⟩
  all_goals
    rw [hcode]
    exact ⟨by decide, by decide, by decide, by simp⟩

theorem verdict_of_safeFailure {cmdName : String} (h : SafeFailure env cmdName res) :
    networkErrorVerdict env cmdName true res = .pass { res with ok := true } true := by
  obtain ⟨hwrite, hcommitOrAbort, hexplain, hcode⟩ := name_of_acceptable h.acceptable
  have hcommit : cmdName ≠ "commitTransaction" := by
    rintro rfl
    simp [isCommitOrAbort] at hcommitOrAbort
  obtain ⟨hfailed, haccept, hretry, hexecutor, hcommand, hwc⟩ := h
  obtain ⟨ok, code, errmsg, labels, writeErrors, wce, cursorId, stats, raw⟩ := res
  simp only at hfailed hretry hexecutor hcode hwc
  subst hfailed
  rw [networkErrorVerdict]
  simp only [hwrite, hcommit, hexplain, hretry, hexecutor, hcode, hcommand, haccept, Bool.false_eq_true,
    false_and, false_or, if_false, Bool.not_true, Bool.or_false]
  rw [writeConcernVerdict, if_neg]
  simpa [hasWriteConcernError, hasError] using hwc

/-! ## First attempts -/

/-- The server answers the request of the iteration that starts in `u`, and with this response. -/
def Responds (l : Command) (u : State) (res : Response) : Prop :=
  ∃ ans answers server, u.answers = ans :: answers ∧
    u.server.handle ⟨l.dbName, l.cmdObj⟩ ans = some server ∧ ans.result = .ok res

/-- Only the response to a later attempt is overridden; that to the first one is passed up as it is. -/
structure SwallowedOnRetries (env : Shell) (l : Command) (u : State) : Prop where
  retried : ∀ {j k n v res res' s'}, Iterates env l u j k n v → Responds l v res → res.ok = false →
    l.block env n v = (.ok (.done res'), s') → res'.ok = true → 0 < j
  first : ∀ {res res' s'}, Responds l u res →
    l.block env (l.initialRetries env) u = (.ok (.done res'), s') → res' = res

/-- The first answer is a safe failure, of a command that is retried outside of transactions. -/
def Swallows (env : Shell) (l : Command) (u : State) : Prop :=
  ∃ res, Responds l u res ∧ SafeFailure env l.cmdObj.name res ∧
    canRetryNetworkErrorForCommand env l.cmdObj = true ∧
    (env.configuredForTxnOverride = true → retriesTransient res.errorLabels l.cmdObj = false)

theorem Iterates.eq_start {j k : ℕ} {n : ℤ} {s₀ : State} (h : Iterates env l s₀ j k n s) (hj : j = 0) :
    s = s₀ ∧ n = l.initialRetries env := by
  cases h with
  | start => exact ⟨rfl, rfl⟩
  | response => cases hj
  | exception => cases hj

theorem clientFunction_eq (h : Responds l u res) :
    ∃ t, clientFunction l.dbName l.cmdObj u = (.ok res, t) ∧
      t.core = { u.core with server := t.server } := by
  obtain ⟨ans, answers, server, hanswers, hserver, hresult⟩ := h
  refine ⟨{ u with answers := answers, server := server, now := ans.now }, ?_, rfl⟩
  simp only [clientFunction, hanswers, hserver, hresult]
  rfl

section Block

variable {n : ℤ} {run : String → Cmd → M Response} {dbName : String} {cmdObj : Cmd} {lsid : Option ℕ}

/-- With `ops` empty, the transaction override has nothing to retry. -/
theorem wp_processTxnResponse_first (hl : Level s)
    (hops : env.configuredForTxnOverride = true → s.ops = []) :
    wp (processTxnResponse env run res dbName cmdObj lsid)
      (fun res' _ => res' = res ∧
        (env.configuredForTxnOverride = true → retriesTransient res.errorLabels cmdObj = false))
      (fun _ _ => True) (fun _ => True) s := by
  rw [processTxnResponse, wp_ite]
  refine ⟨fun htxn => ?_, fun hno => ⟨rfl, fun h => absurd h hno⟩⟩
  rw [wp_bind, wp_log hl]
  refine wp_quiet_bind (fun _ => quiet_recordCursor res cmdObj) (fun _ t ht => ?_)
    (fun _ _ _ => trivial) fun _ _ => trivial
  have hempty : t.ops = [] := (congrArg Core.ops ht).trans (hops htxn)
  have hlevel : Level t := by
    rw [Level, show t.nestingLevel = s.nestingLevel from congrArg Core.nestingLevel ht,
      show t.currentCommandID = s.currentCommandID from congrArg Core.currentCommandID ht]
    exact hl
  rw [retryWithTxnOverride, wp_bind, wp_jsAssert]
  refine ⟨fun _ => ?_, fun _ => trivial⟩
  rw [wp_ite]
  refine ⟨fun _ => ?_, fun _ => ?_⟩
  · rw [wp_bind, wp_get, wp_bind, wp_jsAssert]
    exact ⟨fun hpos => by simp [hempty] at hpos, fun _ => trivial⟩
  · rw [wp_ite]
    refine ⟨fun _ => ?_, fun hno => ⟨rfl, fun _ => Bool.eq_false_iff.mpr hno⟩⟩
    rw [retryAfterTransient, wp_bind, wp_log hlevel, wp_bind, retryEntireTransaction, wp_bind, wp_get,
      wp_bind, wp_jsAssert]
    exact ⟨fun hpos => by simp [hempty] at hpos, fun _ => trivial⟩

/-- The `try` block, after the server has answered. -/
theorem wp_block_of_responds {Q : Pass → State → Prop} {E : Exn → State → Prop} {S : State → Prop}
    (hl : Level u) (hops : env.configuredForTxnOverride = true → u.ops = []) (hres : Responds l u res)
    (h : ∀ t, Level t → (env.configuredForTxnOverride = true → t.ops = []) →
      wp (processTxnResponse env l.run res l.dbName l.cmdObj l.lsid)
        (fun r s => wp (processNetworkResponse env r (l.clause n)) (fun a s => Q a s.leaveTry)
          (fun e s => E e s.leaveTry) S s) (fun e s => E e s.leaveTry) S t) :
    wp (l.block env n) Q E S u := by
  have hres' : Responds l (u.enterTry (l.clause n)) res := hres
  obtain ⟨t, hclient, hcore⟩ := clientFunction_eq hres'
  rw [Command.block, inTry, wp_ensuring, wp_bind, wp_modify, attempt]
  refine (wp_bind_of_ok hclient).mpr ?_
  rw [wp_bind]
  refine h t ?_ fun htxn => (congrArg Core.ops hcore).trans (hops htxn)
  rw [Level, show t.nestingLevel = u.nestingLevel from congrArg Core.nestingLevel hcore,
    show t.currentCommandID = u.currentCommandID from congrArg Core.currentCommandID hcore]
  exact hl

/-- The first attempt passes the response up, unless the code swallows it. -/
theorem first_of_not_swallows (hl : Level u) (hops : env.configuredForTxnOverride = true → u.ops = [])
    (hno : ¬ Swallows env l u) (hres : Responds l u res)
    (hblock : l.block env n u = (.ok (.done res'), s)) : res' = res := by
  have hwp : wp (l.block env n) (fun pass _ => ∀ r, pass = .done r → r = res) (fun _ _ => True)
      (fun _ => True) u := by
    refine wp_block_of_responds hl hops hres fun t hlt hopst => ?_
    refine wp.mono (wp_processTxnResponse_first hlt hopst) (fun r t' hr => ?_) (fun _ _ _ => trivial)
      fun _ _ => trivial
    obtain ⟨rfl, htransient⟩ := hr
    rw [processNetworkResponse, wp_ite]
    refine ⟨fun hcan => ?_, fun _ r hr => ?_⟩
    · rw [wp_bind, shouldRetryWithNetworkErrorOverride, wp_bind, wp_jsAssert]
      refine ⟨fun _ => ?_, fun _ => trivial⟩
      cases hv : networkErrorVerdict env (l.clause n).cmdObj.name true r with
      | kContinue =>
        rw [wp_bind]
        refine wp_of_forall (fun _ _ r hr => ?_) (fun _ _ => trivial) fun _ => trivial
        cases hr
      | pass res' logged =>
        rw [wp_bind]
        refine wp_of_forall (fun _ _ r' hr' => ?_) (fun _ _ => trivial) fun _ => trivial
        cases hr'
        rcases networkErrorVerdict_pass hv with heq | hsafe
        · exact heq
        · exact absurd ⟨r, hres, hsafe, hcan, htransient⟩ hno
      | typeError => trivial
    · cases hr
      rfl
  exact hwp.ok hblock res' rfl

/-- A command that is retried, and whose errors are safe, is not in a transaction. -/
theorem isCmdInTransaction_of_canRetry (haccept : isAcceptableRetryFailedResponse env cmdObj.name res = true)
    (hcan : canRetryNetworkErrorForCommand env cmdObj = true) : isCmdInTransaction cmdObj = false := by
  by_contra htxn
  rw [Bool.not_eq_false] at htxn
  have hnot := (name_of_acceptable haccept).2.1
  rw [canRetryNetworkErrorForCommand, htxn, if_pos rfl, hnot] at hcan
  split_ifs at hcan

/-- The response to the first attempt is overridden. -/
theorem block_of_swallows (hl : Level u) (hops : env.configuredForTxnOverride = true → u.ops = [])
    (hres : Responds l u res) (hsafe : SafeFailure env l.cmdObj.name res)
    (hcan : canRetryNetworkErrorForCommand env l.cmdObj = true)
    (htransient : env.configuredForTxnOverride = true →
      retriesTransient res.errorLabels l.cmdObj = false) :
    ∃ s', l.block env n u = (.ok (.done { res with ok := true }), s') := by
  have herror : hasError res = true := by simp [hasError, hsafe.failed]
  have hstatement : isStatement l.cmdObj = false := by
    rw [isStatement, isCmdInTransaction_of_canRetry hsafe.acceptable hcan, Bool.false_and]
  have hwp : wp (l.block env n) (fun pass _ => pass = .done { res with ok := true })
      (fun _ _ => False) (fun _ => False) u := by
    refine wp_block_of_responds hl hops hres fun t hlt _ => ?_
    have hnetwork : wp (processNetworkResponse env res (l.clause n))
        (fun pass _ => pass = .done { res with ok := true }) (fun _ _ => False) (fun _ => False) t := by
      have hverdict : networkErrorVerdict env (l.clause n).cmdObj.name true res =
          .pass { res with ok := true } true := verdict_of_safeFailure hsafe
      have hclause : canRetryNetworkErrorForCommand env (l.clause n).cmdObj = true := hcan
      rw [processNetworkResponse, if_pos hclause, wp_bind, shouldRetryWithNetworkErrorOverride,
        configuredForNetworkRetry_of_canRetry hcan, jsAssert_true, wp_bind, wp_pure, hverdict]
      show wp (when true log >>= fun _ => pure (some { res with ok := true })) _ _ _ t
      rw [wp_bind, wp_when]
      exact ⟨fun _ => (wp_log hlt).mpr rfl, fun h => absurd h (by decide)⟩
    rw [processTxnResponse, wp_ite]
    refine ⟨fun htxn => ?_, fun _ => hnetwork⟩
    rw [wp_bind, wp_log hlt, wp_bind, recordCursor, herror, wp_when]
    refine ⟨fun h => absurd h (by simp), fun _ => ?_⟩
    rw [retryWithTxnOverride, htxn, jsAssert_true, wp_bind, wp_pure, hstatement, Bool.and_false,
      if_neg (by decide), htransient htxn, if_neg (by decide)]
    exact hnetwork
  obtain ⟨pass, s', hblock, rfl⟩ := hwp.exists_ok
  exact ⟨s', hblock⟩

theorem swallowedOnRetries_iff (hl : Level u)
    (hops : env.configuredForTxnOverride = true → u.ops = []) :
    SwallowedOnRetries env l u ↔ ¬ Swallows env l u := by
  constructor
  · rintro h ⟨res, hres, hsafe, hcan, htransient⟩
    obtain ⟨s', hblock⟩ := block_of_swallows hl hops hres hsafe hcan htransient
    have hok := congrArg Response.ok (h.first hres hblock)
    rw [hsafe.failed] at hok
    cases hok
  · intro hno
    refine ⟨?_, fun hres hblock => first_of_not_swallows hl hops hno hres hblock⟩
    intro j k n v res res' s' h hres hfailed hblock hok
    refine Nat.pos_of_ne_zero fun hj => ?_
    obtain ⟨rfl, rfl⟩ := h.eq_start hj
    rw [first_of_not_swallows hl hops hno hres hblock, hfailed] at hok
    cases hok

/-- Such a command does not support transactions. -/
theorem commandSupportsTxn_eq (hname : cmdObj.name ∈ kAcceptableNonRetryableCommands) :
    commandSupportsTxn dbName { cmdObj with readConcern := none, writeConcern := none } = .ok false := by
  obtain ⟨hcommit, htxn⟩ : isCommitOrAbort cmdObj.name = false ∧
      cmdObj.name ∉ kCmdsSupportingTransactions := by
    revert hname
    generalize cmdObj.name = cmdName
    revert cmdName
    decide
  rw [commandSupportsTxn, hcommit, if_neg (by decide), if_pos (.inl htxn)]

/-- After anything, a program that ends in a state without `ops`. -/
theorem wp_bind_of_forall {α β : Type} {m : M α} {f : α → M β} {Q : β → State → Prop}
    (h : ∀ a t, wp (f a) Q (fun _ _ => True) (fun _ => True) t) :
    wp (m >>= f) Q (fun _ _ => True) (fun _ => True) s := by
  rw [wp_bind]
  exact wp_of_forall h (fun _ _ => trivial) fun _ => trivial

theorem wp_commitTransaction_ops (m : ℤ) :
    wp (commitTransaction env run lsid m) (fun _ t => t.ops = []) (fun _ _ => True) (fun _ => True) s := by
  refine wp_bind_of_forall fun _ _ => wp_bind_of_forall fun _ _ => wp_bind_of_forall fun _ _ =>
    wp_bind_of_forall fun _ _ => wp_bind_of_forall fun _ _ => wp_bind_of_forall fun _ t => ?_
  rw [wp_bind, clearOpsList, wp_modify, wp_modify]

/-- Before a top level command that does not support transactions, the transaction is committed. -/
theorem wp_setupCommand_safe (hname : cmdObj.name ∈ kAcceptableNonRetryableCommands)
    (htop : s.nestingLevel = 1) :
    wp (setupCommand env run dbName cmdObj lsid)
      (fun _ t => env.configuredForTxnOverride = true → t.ops = []) (fun _ _ => True) (fun _ => True)
      s := by
  have htrue : ∀ (m : M Cmd) t, t.ops = [] → (∀ c, (quiet c).Holds m) →
      wp m (fun _ t => env.configuredForTxnOverride = true → t.ops = []) (fun _ _ => True)
        (fun _ => True) t := by
    intro m t ht hm
    refine wp.mono (hm t.core t rfl) (fun _ t' ht' _ => ?_) (fun _ _ _ => trivial) fun _ _ => trivial
    exact (congrArg Core.ops ht').trans ht
  rw [setupCommand, wp_ite]
  refine ⟨fun _ => ?_, fun hno h => absurd h hno⟩
  rw [setupTransactionCommand, wp_bind, commandSupportsTxn_eq hname, ofExcept, wp_pure, wp_bind, wp_get,
    Bool.false_and, Bool.false_and, if_neg (by decide), wp_bind, endTransaction, wp_bind, wp_get, wp_when]
  refine ⟨fun _ => ?_, fun hops => htrue _ s ?_ fun _ => holds_ofExcept quiet_raise _⟩
  · rw [wp_bind, wp_isNested (by omega), wp_when]
    refine ⟨fun _ => ?_, fun hnested => by simp [htop] at hnested⟩
    refine wp_bind_of_forall fun _ t => wp.imp (wp_commitTransaction_ops s.txnNumber) fun _ t' ht' => ?_
    exact htrue _ t' ht' fun _ => holds_ofExcept quiet_raise _
  · simpa using hops

/-- The loop of a command starts in `u` and sends `cmdObj'`. -/
def Starts (env : Shell) (run : String → Cmd → M Response) (dbName : String) (cmdObj : Cmd) (s : State)
    (cmdObj' : Cmd) (u : State) : Prop :=
  ∃ t, validate env cmdObj s = (.ok (), t) ∧
    setupCommand env run dbName cmdObj cmdObj.lsid t = (.ok cmdObj', u)

theorem Starts.level_ops {cmdObj' : Cmd} {fuel : ℕ}
    (h : Starts env (nestedRun env fuel) dbName cmdObj s cmdObj' u)
    (hname : cmdObj.name ∈ kAcceptableNonRetryableCommands) (hl : Level s) (htop : s.nestingLevel = 1) :
    Level u ∧ (env.configuredForTxnOverride = true → u.ops = []) := by
  obtain ⟨t, hvalidate, hsetup⟩ := h
  have hrun : ∀ dbName cmdObj, nesting.Holds (nestedRun env fuel dbName cmdObj) :=
    fun dbName cmdObj => keeps_nesting.runCommandOverride fuel dbName (.plain cmdObj)
  have hvalid : nesting.Holds (validate env cmdObj) := holds_validate nesting_raise cmdObj
  have hsame : SameNesting s t := (hvalid s hl).ok hvalidate
  have hlt := hsame.level hl
  have hsame' : SameNesting t u := (keeps_nesting.setupCommand hrun dbName cmdObj _ t hlt).ok hsetup
  exact ⟨hsame'.level hlt, (wp_setupCommand_safe hname (hsame.nestingLevel.trans htop)).ok hsetup⟩

end Block

/-- Network retries without the transaction override. -/
def networkShell : Shell := { testShell true with configuredForTxnOverride := false }

def createColl : Cmd := { name := "create", value := .str "coll" }

def createLoop : Command := ⟨nestedRun networkShell 1, "test", createColl, none, 0⟩

/-- The collection exists. -/
def Answer.namespaceExists : Answer := ⟨.ok { ok := false, code := some 48 }, .failed, false, 0⟩

/-- The state in which a first command of a test is sent. -/
def firstCommand (answers : List Answer) : State := enter { answers := answers }

theorem starts_createColl (answers : List Answer) :
    Starts networkShell (nestedRun networkShell 1) "test" createColl (firstCommand answers) createColl
      (firstCommand answers) :=
  ⟨firstCommand answers, rfl, rfl⟩

end MongoTests.Override
