import MongoTests.Override.Nesting

/-!
# What the override commits

Every return of `commitTransaction` leaves on the server a committed transaction with exactly the
commands in `ops`, in order, provided that the test stops after a command that threw with `ops` not
empty. Between two commands of such a test the transaction of the override is open on the server
with all of `ops`, and a top level command either extends it or ends it.

* `Settled`, `Top`: between two commands, and where a top level command chooses its transaction;
* `wp_setupCommand_top`, `wp_attempts_top`, `wp_clearOnFailure_top`: the parts of a top level command;
* **`committed_as_issued`**: all returns of `commitTransaction` in a run are exact.
-/

namespace MongoTests.Override

open MongoTests.Lib Prog

variable {env : Shell} {s : State} {c : Core} {cmdObj : Cmd} {n : ℤ}

/-! ## Top level commands -/

/-- A return does not change the state. -/
def still (s₀ : State) : Contract State Exn where
  pre s := s = s₀
  ret _ s := s = s₀
  exc _ _ s := s.core = s₀.core
  halt s := s = s₀
  refl hs := hs
  next _ h := h
  trans _ h := h
  transExc _ h := h
  halt_of_pre hs := hs

theorem still_raise : Raises (still s) := by
  rintro _ e _ rfl
  rw [Contract.HoldsAt, wp_raise]
  rfl

/-- A command does not end in the middle of a network retry. -/
def calm : Contract State Exn where
  pre s := s.inCommandNetworkErrorRetry = false
  ret _ s := s.inCommandNetworkErrorRetry = false
  exc _ _ s := s.inCommandNetworkErrorRetry = false
  halt _ := True
  refl hs := hs
  next _ h := h
  trans _ h := h
  transExc _ h := h
  halt_of_pre _ := trivial

theorem calm_raise : Raises calm := fun _ e s hs => by
  rw [Contract.HoldsAt, wp_raise]
  exact hs

/-- The `finally` clause resets the flag. -/
theorem calm_runCommandOverride (env : Shell) (fuel : ℕ) (dbName : String) (arg : CmdArg) :
    calm.Holds (runCommandOverride env fuel dbName arg) := by
  cases fuel with
  | zero => exact .stop
  | succ fuel =>
    intro s _
    rw [Contract.HoldsAt, runCommandOverride, wp_bind, wp_modify, wp_ensuring]
    exact wp_of_forall (fun _ _ => rfl) (fun _ _ => rfl) fun _ => trivial

theorem calm_commitTransaction (env : Shell) (fuel : ℕ) (lsid : Option ℕ) (n : ℤ) :
    calm.Holds (commitTransaction env (nestedRun env fuel) lsid n) :=
  .bind (holds_jsAssert calm_raise _ _) fun _ => .bind (holds_jsAssert calm_raise _ _) fun _ =>
    .bind (holds_log calm_raise) fun _ => .get_bind fun _ =>
    .bind (calm_runCommandOverride env fuel _ _) fun res =>
    .bind (holds_assertCommandWorked calm_raise res) fun _ => .bind (.modify fun _ hs => hs) fun _ =>
    .modify fun _ hs => hs

/-- Between two commands of the test, when none has thrown: the transaction of the override is open
on the server with all of `ops`. -/
structure Settled (c : Core) : Prop where
  ops : Replayable c.ops
  commits : AllExact c
  full : c.ops ≠ [] → Full c

/-- The state in which a top level command chooses its transaction. -/
structure Top (s : State) : Prop where
  ready : Ready s.core
  level : s.nestingLevel = 1
  calm : s.inCommandNetworkErrorRetry = false

theorem replayable_nil : Replayable [] := ⟨by simp, by simp, by simp⟩

theorem Full.synced (h : Full c) (m : ℤ) : Synced m c := fun _ _ => by rw [h]

section TopLevel

variable {fuel : ℕ} {dbName : String} {lsid : Option ℕ}

/-- The commit before a new transaction, or before a command outside of transactions. -/
theorem wp_commitTransaction_top (hdoc : Documented env) (hs : Top s) (hne : s.ops ≠ [])
    (hfull : Full s.core) :
    wp (commitTransaction env (nestedRun env fuel) lsid s.txnNumber)
      (fun _ t => Top t ∧ t.ops = []) (fun _ t => AllExact t.core) (fun t => AllExact t.core) s := by
  have hcommit := wp_commitTransaction (replays_runCommandOverride hdoc fuel) hdoc lsid hs.ready
    (le_refl s.txnNumber) hne (hfull.synced _)
  have hcalm := calm_commitTransaction env fuel lsid s.txnNumber s hs.calm
  refine wp.mono (hcommit.and hcalm) (fun _ t ht => ?_) (fun _ t ht => ht.1.commits) fun t ht => ht.1
  obtain ⟨⟨haround, hempty, _⟩, hflag⟩ := ht
  refine ⟨⟨⟨haround.level hs.ready, ?_, ?_, haround.commits⟩, ?_, hflag⟩, hempty⟩
  · rw [haround.nestingLevel]
    exact hs.ready.nested
  · rw [show t.core.ops = [] from hempty]
    exact replayable_nil
  · exact haround.nestingLevel.trans hs.level

/-- The command starts a transaction, or goes on with one that is open with all of `ops`. -/
theorem wp_chooseTransaction_top (hdoc : Documented env) (hs : Top s)
    (hfull : s.ops ≠ [] → Full s.core) :
    wp (chooseTransaction env (nestedRun env fuel) cmdObj lsid)
      (fun cmdObj' t => Top t ∧ (cmdObj' = { cmdObj with startTransaction := true } ∧ t.ops = [] ∨
        cmdObj' = cmdObj ∧ t.ops ≠ [] ∧ Full t.core))
      (fun _ t => AllExact t.core) (fun t => AllExact t.core) s := by
  have hbump : ∀ t : State, Top t → Top t.bump := fun t ht =>
    ⟨⟨ht.ready.level, ht.ready.nested, ht.ready.ops, ht.ready.commits⟩, ht.level, ht.calm⟩
  have hone : decide (s.nestingLevel ≠ 1) = false := by simp [hs.level]
  rw [chooseTransaction, wp_bind, wp_isNested hs.ready.nested, wp_bind, wp_get, hone,
    if_neg Bool.false_ne_true, wp_ite, wp_ite, wp_ite]
  refine ⟨fun hnil => ?_, fun hne => ⟨fun _ => ⟨hs, .inr ⟨rfl, hne, hfull hne⟩⟩, fun _ =>
    ⟨fun _ => ?_, fun _ => ⟨hs, .inr ⟨rfl, hne, hfull hne⟩⟩⟩⟩⟩
  · rw [wp_bind, wp_jsAssert]
    refine ⟨fun _ => ?_, fun _ => hs.ready.commits⟩
    rw [startNewTransaction, wp_bind, wp_modify, wp_pure]
    exact ⟨hbump s hs, .inl ⟨rfl, hnil⟩⟩
  · rw [wp_bind, wp_log hs.ready.level, wp_bind]
    refine wp.imp (wp_commitTransaction_top hdoc hs hne (hfull hne)) fun _ t ht => ?_
    rw [startNewTransaction, wp_bind, wp_modify, wp_pure]
    exact ⟨hbump t ht.1, .inl ⟨rfl, ht.2⟩⟩

theorem wp_endTransaction_top (hdoc : Documented env) (hs : Top s)
    (hfull : s.ops ≠ [] → Full s.core) :
    wp (endTransaction env (nestedRun env fuel) lsid)
      (fun _ t => Top t ∧ t.ops = []) (fun _ t => AllExact t.core) (fun t => AllExact t.core) s := by
  have hone : decide (s.nestingLevel ≠ 1) = false := by simp [hs.level]
  rw [endTransaction, wp_bind, wp_get, wp_when]
  refine ⟨fun hne => ?_, fun hnil => ⟨hs, by simpa using hnil⟩⟩
  have hne : s.ops ≠ [] := of_decide_eq_true hne
  rw [wp_bind, wp_isNested hs.ready.nested, hone, wp_when]
  refine ⟨fun _ => ?_, fun h => by simp at h⟩
  rw [wp_bind, wp_log hs.ready.level]
  exact wp_commitTransaction_top hdoc hs hne (hfull hne)

/-- The command is a statement of the current transaction, the last one in `ops`; once it has
succeeded the transaction has all of `ops`. -/
structure InTxn (dbName : String) (cmdObj : Cmd) (c : Core) : Prop where
  statement : isStatement cmdObj = true
  txnNumber : cmdObj.txnNumber = some c.txnNumber
  ops : c.ops ≠ []
  complete : ∀ srv', Extended ⟨dbName, cmdObj⟩ c.txnNumber c.server srv' →
    srv' = ⟨c.txnNumber, .inProgress, c.ops.map Op.issued⟩

theorem Replayable.push {ops : List Op} {op : Op} (h : Replayable ops)
    (hst : isStatement op.cmdObj = true) (hnum : op.cmdObj.txnNumber = none)
    (hstart : ops = [] → op.cmdObj.startTransaction = true) : Replayable (ops ++ [op]) where
  statement := by
    intro op' hop'
    rcases List.mem_append.1 hop' with h' | h'
    · exact h.statement op' h'
    · rw [List.mem_singleton.1 h']
      exact hst
  txnNumber := by
    intro op' hop'
    rcases List.mem_append.1 hop' with h' | h'
    · exact h.txnNumber op' h'
    · rw [List.mem_singleton.1 h']
      exact hnum
  start := by
    intro op' hop'
    cases ops with
    | nil =>
      cases hop'
      exact hstart rfl
    | cons first rest => exact h.start op' hop'

/-- **A top level command is pushed**, and goes to the transaction of `ops`. -/
theorem wp_continueTransaction_top (hs : Top s) (hread : cmdObj.readConcern = none)
    (hwrite : cmdObj.writeConcern = none) (hname : isCommitOrAbort cmdObj.name = false)
    (hops : s.ops = [] ∧ cmdObj.startTransaction = true ∨ s.ops ≠ [] ∧ Full s.core) :
    wp (continueTransaction env dbName cmdObj)
      (fun cmdObj' t => Top t ∧ ∀ cmdObj'', cmdObj''.bare = cmdObj'.bare →
        InTxn dbName cmdObj'' t.core)
      (fun _ t => AllExact t.core) (fun t => AllExact t.core) s := by
  have hone : decide (s.nestingLevel ≠ 1) = false := by simp [hs.level]
  rw [continueTransaction, wp_bind, wp_get, wp_bind, wp_modify, wp_bind, wp_jsAssert]
  refine ⟨fun _ => ?_, fun h => by simp [hread] at h⟩
  rw [wp_bind, wp_jsAssert]
  refine ⟨fun _ => ?_, fun h => by simp [hwrite] at h⟩
  rw [wp_bind, wp_isNested (by exact hs.ready.nested), wp_bind, wp_when]
  refine ⟨fun _ => ?_, fun h => by simp [hone, hs.calm] at h⟩
  rw [pushOp, wp_modify, wp_pure]
  have hst : ∀ c : Cmd, c.autocommit = true → c.name = cmdObj.name → isStatement c = true := by
    intro c hauto hc
    simp [isStatement, isCmdInTransaction, hauto, hc, hname]
  let op : Op := ⟨dbName, { cmdObj with
    txnNumber := none, stmtId := some s.stmtId, autocommit := true }⟩
  have hpushed : Replayable (s.ops ++ [op]) := by
    refine hs.ready.ops.push (hst _ rfl rfl) rfl fun hnil => ?_
    rcases hops with ⟨_, hstart⟩ | ⟨hne, _⟩
    · exact hstart
    · exact absurd hnil hne
  refine ⟨⟨⟨hs.ready.level, hs.ready.nested, hpushed, hs.ready.commits⟩, hs.level, hs.calm⟩, ?_⟩
  intro cmd hbare
  have hauto : cmd.autocommit = true := congrArg Cmd.autocommit hbare
  have hname' : cmd.name = cmdObj.name := (congrArg Cmd.name hbare :)
  have hstart : cmd.startTransaction = op.cmdObj.startTransaction :=
    (congrArg Cmd.startTransaction hbare :)
  have hissued : Op.issued ⟨dbName, cmd⟩ = op.issued :=
    (congrArg (fun c => Op.issued ⟨dbName, c⟩) hbare :)
  refine ⟨hst cmd hauto hname', congrArg Cmd.txnNumber hbare, by simp [State.core], ?_⟩
  intro srv' hext
  have hext' : Extended op s.txnNumber s.server srv' := by
    unfold Extended at hext ⊢
    rw [← hstart, ← hissued]
    exact hext
  refine Extended.next hext' (show Replayable (s.ops ++ op :: []) from hpushed) fun hne => ?_
  rcases hops with ⟨hnil, _⟩ | ⟨_, hfull⟩
  · exact absurd hnil hne
  · exact hfull

/-- **The command of the test goes to the transaction of `ops`**, or outside of transactions when
`ops` is empty. -/
theorem wp_setupCommand_top (hdoc : Documented env) (htxn : env.configuredForTxnOverride = true)
    (hs : Top s) (hfull : s.ops ≠ [] → Full s.core) (hname : isCommitOrAbort cmdObj.name = false) :
    wp (setupCommand env (nestedRun env fuel) dbName cmdObj lsid)
      (fun cmdObj' t => Top t ∧
        (InTxn dbName cmdObj' t.core ∨ t.ops = [] ∧ cmdObj'.name = cmdObj.name))
      (fun _ t => AllExact t.core) (fun t => AllExact t.core) s := by
  rw [setupCommand, htxn, if_pos rfl, setupTransactionCommand, wp_bind]
  cases commandSupportsTxn dbName { cmdObj with readConcern := none, writeConcern := none } with
  | error e =>
    rw [ofExcept, wp_raise]
    exact hs.ready.commits
  | ok supported =>
    rw [ofExcept, wp_pure, wp_bind, wp_get, wp_ite]
    refine ⟨fun _ => ?_, fun _ => ?_⟩
    · rw [wp_bind]
      refine wp.imp (wp_chooseTransaction_top hdoc hs hfull) fun c₁ t ht => ?_
      rw [wp_bind]
      have hcontinue : wp (continueTransaction env dbName c₁)
          (fun cmdObj' t => Top t ∧ ∀ cmdObj'', cmdObj''.bare = cmdObj'.bare →
            InTxn dbName cmdObj'' t.core)
          (fun _ t => AllExact t.core) (fun t => AllExact t.core) t := by
        rcases ht.2 with ⟨rfl, hnil⟩ | ⟨rfl, hne, hopen⟩
        · exact wp_continueTransaction_top ht.1 rfl rfl hname (.inl ⟨hnil, rfl⟩)
        · exact wp_continueTransaction_top ht.1 rfl rfl hname (.inr ⟨hne, hopen⟩)
      refine wp.imp hcontinue fun c₂ t' ht' => ?_
      exact wp_appendReadAndWriteConcern (fun c₃ hc₃ => ⟨ht'.1, .inl (ht'.2 c₃ hc₃)⟩)
        fun _ => ht'.1.ready.commits
    · rw [wp_bind]
      refine wp.imp (wp_endTransaction_top hdoc hs hfull) fun _ t ht => ?_
      exact wp_appendReadAndWriteConcern
        (fun c₂ hc₂ => ⟨ht.1, .inr ⟨ht.2, (congrArg Cmd.name hc₂ :)⟩⟩) fun _ => ht.1.ready.commits

structure Answered (res : Response) (t : State) : Prop where
  ready : Ready t.core
  level : t.nestingLevel = 1
  full : hasError res = false → t.ops ≠ [] → Full t.core

theorem wp_attempts_top (hdoc : Documented env) (hs : Top s)
    (hcmd : InTxn dbName cmdObj s.core ∨ s.ops = [] ∧ cmdObj.name ≠ "commitTransaction")
    (startTime n : ℕ) (retries : ℤ) :
    wp (attempts env (nestedRun env fuel) dbName cmdObj lsid startTime n retries)
      Answered (fun _ t => AllExact t.core) (fun t => AllExact t.core) s := by
  have hrun := replays_runCommandOverride hdoc fuel
  rcases hcmd with hin | ⟨hnil, hname⟩
  · have hnum : ∀ n, cmdObj.txnNumber = some n → n = s.txnNumber := fun n hn =>
      Option.some.inj (hn.symm.trans hin.txnNumber)
    refine wp.mono (wp_attempts_statement hrun hdoc hin.statement hs.ready
      (Int.sub_one_lt_of_le (le_refl s.txnNumber)) hnum n retries) (fun res t ht => ?_)
      (fun _ _ h => h.commits) fun _ h => h
    refine ⟨hs.ready.of_nested ht.nested, ht.nested.nestingLevel.trans hs.level, fun he _ => ?_⟩
    rcases ht.ran he with ⟨hsame, hext⟩ | ⟨_, hfull⟩
    · have hserver := hin.complete _ hext
      rw [Full, hserver, hsame, ht.nested.ops]
    · exact hfull
  · -- the command leaves alone what is older than the transaction it names, if any
    let bound : ℤ := min s.txnNumber (cmdObj.txnNumber.getD s.txnNumber) - 1
    have hbound : bound < s.txnNumber := by omega
    have hsp : ∀ m ≤ bound, Server.Spares m cmdObj := by
      intro m hm
      refine .inl fun n hn => ?_
      simp only [bound, hn, Option.getD_some] at hm
      omega
    refine wp.mono (keeps_attempts hrun hdoc hname hsp dbName lsid startTime n retries s
      ⟨hs.ready, hbound⟩) (fun res t ht => ?_) (fun _ _ h => h.commits) fun _ h => h
    refine ⟨hs.ready.of_nested ht, ht.nestingLevel.trans hs.level, fun _ hne => ?_⟩
    exact absurd (ht.ops.trans hnil) hne

/-- After an error `ops` is empty, so it does not matter what is left on the server. -/
theorem wp_clearOnFailure_top (hdoc : Documented env) (htxn : env.configuredForTxnOverride = true)
    {res : Response} (hs : Answered res s) :
    wp (clearOnFailure env (nestedRun env fuel) res lsid)
      (fun _ t => Settled t.core) (fun _ t => AllExact t.core) (fun t => AllExact t.core) s := by
  have hrun := replays_runCommandOverride hdoc fuel
  have hone : decide (s.nestingLevel ≠ 1) = false := by simp [hs.level]
  rw [clearOnFailure, htxn, wp_when]
  refine ⟨fun _ => ?_, fun h => by simp at h⟩
  rw [wp_bind, wp_isNested hs.ready.nested, wp_bind, wp_get, hone, wp_when]
  refine ⟨fun _ => ?_, fun hkeep => ⟨hs.ready.ops, hs.ready.commits, fun hne => ?_⟩⟩
  · rw [wp_bind, wp_log hs.ready.level, wp_bind, clearOpsList, wp_modify]
    let t : State := { s with ops := [] }
    have ht : Ready t.core := ⟨hs.ready.level, hs.ready.nested, replayable_nil, hs.ready.commits⟩
    refine wp.mono (keeps_abortTransaction hrun lsid s.txnNumber t
      ⟨ht, Int.sub_one_lt_of_le (le_refl s.txnNumber)⟩) (fun _ t' h => ?_) (fun _ _ h => h.commits)
      fun _ h => h
    have hnil : t'.core.ops = [] := h.ops
    refine ⟨?_, h.commits, fun hne => absurd hnil hne⟩
    rw [hnil]
    exact replayable_nil
  · have hne' : s.ops ≠ [] := hne
    refine hs.full ?_ hne'
    simpa [hne'] using hkeep

/-- **A top level command.** -/
theorem wp_runCommandOverride_top (hdoc : Documented env) (htxn : env.configuredForTxnOverride = true)
    {arg : CmdArg} (hname : isCommitOrAbort arg.unwrap.name = false) (hidle : Idle s)
    (hcalm : s.inCommandNetworkErrorRetry = false) (hs : Settled s.core) :
    wp (runCommandOverride env fuel dbName arg) (fun _ t => Settled t.core)
      (fun _ t => AllExact t.core) (fun t => AllExact t.core) s := by
  cases fuel with
  | zero => exact hs.commits
  | succ fuel =>
    have htop : Top (enter s) := by
      refine ⟨⟨level_enter hidle.level, Nat.succ_pos _, hs.ops, hs.commits⟩, ?_, hcalm⟩
      show s.nestingLevel + 1 = 1
      rw [hidle.nestingLevel]
    rw [runCommandOverride, wp_bind, wp_modify, wp_ensuring, wp_bind, runCommandOverrideBody, wp_bind,
      wp_get, wp_bind]
    refine wp.mono (holds_validate still_raise arg.unwrap (enter s) rfl) (fun _ t ht => ?_)
      (fun _ t ht => ?_) fun t ht => ?_
    · have ht : t = enter s := ht
      subst ht
      rw [wp_bind]
      refine wp.imp (wp_setupCommand_top hdoc htxn htop hs.full hname) fun cmdObj' t ht => ?_
      have hcmd : InTxn dbName cmdObj' t.core ∨ t.ops = [] ∧ cmdObj'.name ≠ "commitTransaction" := by
        refine ht.2.imp_right fun hout => ⟨hout.1, fun hcommit => ?_⟩
        rw [← hout.2, hcommit] at hname
        simp [isCommitOrAbort] at hname
      refine wp.imp (wp_attempts_top hdoc ht.1 hcmd _ _ _) fun res t' ht' => ?_
      rw [wp_bind]
      exact wp.imp (wp_clearOnFailure_top hdoc htxn ht') fun _ _ h => ⟨h.ops, h.commits, h.full⟩
    · have hcore : t.core.commits = s.commits := congrArg Core.commits ht
      show ∀ r ∈ t.core.commits, r.Exact
      rw [hcore]
      exact hs.commits
    · have ht : t = enter s := ht
      subst ht
      exact hs.commits

end TopLevel

/-! ## Runs -/

/-- The test has not gone on after a command that threw and left something in `ops`, and it leaves
commits and aborts to the override. -/
def Careful (t : Test) (c : Call) : Prop :=
  (t.threw = true → t.state.ops = []) ∧ isCommitOrAbort c.arg.unwrap.name = false

instance (t : Test) (c : Call) : Decidable (Careful t c) :=
  inferInstanceAs (Decidable ((_ → _) ∧ _))

structure Faithful (t : Test) : Prop where
  commits : AllExact t.state.core
  calm : t.ended = true → t.state.inCommandNetworkErrorRetry = false
  settled : t.ended = true → t.threw = false → Settled t.state.core

theorem faithful_fresh : Faithful {} where
  commits := fun _ hr => absurd hr List.not_mem_nil
  calm _ := rfl
  settled _ _ := ⟨replayable_nil, fun _ hr => absurd hr List.not_mem_nil, fun hne => absurd rfl hne⟩

variable {t t' : Test} {k : Call}

/-- A command that threw and left `ops` empty does no harm. -/
theorem Faithful.settled_of_careful (h : Faithful t) (hended : t.ended = true) (hk : Careful t k) :
    Settled t.state.core := by
  cases hthrew : t.threw with
  | false => exact h.settled hended hthrew
  | true =>
    have hnil : t.state.core.ops = [] := hk.1 hthrew
    refine ⟨?_, h.commits, fun hne => absurd hnil hne⟩
    rw [hnil]
    exact replayable_nil

theorem faithful_issue (hdoc : Documented env) (htxn : env.configuredForTxnOverride = true)
    (hidle : t.ended = true → Idle t.state) (h : Faithful t) (hk : Careful t k)
    (hi : issue env t k = some t') : Faithful t' := by
  obtain ⟨hended, hrun, hsome⟩ := issue_eq_some.1 hi
  have hs := hidle hended
  have hset := h.settled_of_careful hended hk
  let s₀ : State := { t.state with answers := k.answers, raised := [] }
  have hs₀ : Idle s₀ := ⟨hs.nestingLevel, hs.currentCommandID, hs.catches⟩
  have hcalm := calm_runCommandOverride env k.fuel k.dbName k.arg s₀ (h.calm hended)
  have htop : wp (runCommandOverride env k.fuel k.dbName k.arg) (fun _ t => Settled t.core)
      (fun _ t => AllExact t.core) (fun t => AllExact t.core) s₀ :=
    wp_runCommandOverride_top hdoc htxn hk.2 hs₀ (h.calm hended)
      ⟨hset.ops, hset.commits, hset.full⟩
  obtain ⟨s', _ | (res | e | _)⟩ := t'
  · simp at hsome
  · have hset' : Settled s'.core := htop.ok hrun
    exact ⟨hset'.commits, fun _ => hcalm.ok hrun, fun _ _ => hset'⟩
  · exact ⟨htop.error hrun, fun _ => hcalm.error hrun, fun _ hthrew => by simp [Test.threw] at hthrew⟩
  · refine ⟨(wp_of_eq hrun).1 htop, fun hend => ?_, fun hend => ?_⟩ <;> simp [Test.ended] at hend

/-- **Every return of `commitTransaction` has committed exactly what the test issued**, in any run
that does not go on after a command that threw with `ops` not empty. -/
theorem committed_as_issued (hdoc : Documented env) (htxn : env.configuredForTxnOverride = true)
    (h : Reach (issue env) Careful Fresh t) : ∀ r ∈ t.state.commits, r.Exact := by
  have hidle : ∀ t, Reach (issue env) Careful Fresh t → t.ended = true → Idle t.state := fun t ht =>
    idle_of_reach (ht.mono fun _ _ _ => trivial)
  have hinv : Faithful t := by
    refine Reach.inv_of hidle (fun t ht => ?_) (fun t k t' ht _ ih hk hi => ?_) h
    · rw [ht]
      exact faithful_fresh
    · exact faithful_issue hdoc htxn ht ih hk hi
  exact hinv.commits

/-- The transaction has been aborted by the server and may be retried. -/
def Answer.transient : Answer :=
  ⟨.ok { ok := false, code := some 251, errorLabels := ["TransientTransactionError"] }, .failed,
    false, 0⟩

/-- The test runs a command outside of transactions, so the override commits first. -/
def pingCall (answers : List Answer) : Call :=
  ⟨"test", .plain { name := "ping", lsid := some 0 }, answers, 6⟩

/-- The transaction is aborted under the second insert, and once more under the commit; both times
it is replayed. -/
theorem two_replays_commit_both_inserts :
    ∃ t, Reach (issue (testShell true)) Careful Fresh t ∧
      (∃ r ∈ t.state.commits,
        r.pushed.map Op.issued = [⟨"test", insertCmd 1⟩, ⟨"test", insertCmd 2⟩] ∧
        r.txnNumber = 1 ∧ r.server.number = 2) ∧ ∀ r ∈ t.state.commits, r.Exact := by
  have hdoc : Documented (testShell true) := by
    intro res
    simp [testShell]
  obtain ⟨t, h, hcommits⟩ : ∃ t, Reach (issue (testShell true)) Careful Fresh t ∧
      ∃ r ∈ t.state.commits,
        r.pushed.map Op.issued = [⟨"test", insertCmd 1⟩, ⟨"test", insertCmd 2⟩] ∧
        r.txnNumber = 1 ∧ r.server.number = 2 :=
    Reach.exists_of_run (.start rfl) [insertCall 1 [.worked],
      insertCall 2 [.transient, .worked, .worked, .worked],
      pingCall [.transient, .worked, .worked, .worked, .worked]] (by decide +kernel)
  exact ⟨t, h, hcommits, committed_as_issued hdoc rfl h⟩

/-- **A commit without an insert that threw**: `ops` still has it, the server has never seen it. -/
theorem thrown_insert_not_committed :
    ∃ t, Reach (issue (testShell false)) Free Fresh t ∧ ∃ r ∈ t.state.commits,
      r.pushed.map Op.issued =
        [⟨"test", insertCmd 1⟩, ⟨"test", insertCmd 2⟩, ⟨"test", insertCmd 3⟩] ∧
      r.server = ⟨0, .committed, [⟨"test", insertCmd 1⟩, ⟨"test", insertCmd 3⟩]⟩ ∧ ¬ r.Exact := by
  obtain ⟨t, h, r, hr, hpushed, hserver⟩ : ∃ t, Reach (issue (testShell false)) Free Fresh t ∧
      ∃ r ∈ t.state.commits, r.pushed.map Op.issued =
        [⟨"test", insertCmd 1⟩, ⟨"test", insertCmd 2⟩, ⟨"test", insertCmd 3⟩] ∧
      r.server = ⟨0, .committed, [⟨"test", insertCmd 1⟩, ⟨"test", insertCmd 3⟩]⟩ :=
    Reach.exists_of_run (.start rfl) [insertCall 1 [.worked], insertCall 2 [.closed],
      insertCall 3 [.worked], pingCall [.worked, .worked]] (by decide +kernel)
  refine ⟨t, h, r, hr, hpushed, hserver, fun hexact => ?_⟩
  have hlen := congrArg List.length hexact.stmts
  rw [hserver, hpushed] at hlen
  simp at hlen

end MongoTests.Override
