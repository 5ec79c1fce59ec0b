import MongoTests.Override.Rules

/-!
# The parts of the override under a contract

A pair of contracts, one for nested code and a wider one for the body of a top level command, that
survives exceptions, requests, the catch clause and small changes of the state is kept by every part
of the override, and by `runCommandOverride` however deep the nesting.

* `Mild`: a change of the other variables.
* `Keeps`: what the two contracts need.
* **`Keeps.runCommandOverride`**.
-/

namespace MongoTests.Override

open MongoTests.Lib Prog

variable {α β : Type} {env : Shell}

/-- The nesting, the catch clauses and the exceptions stay, and `ops` stays or is cleared. -/
structure Mild (g : State → State) : Prop where
  nestingLevel : ∀ s, (g s).nestingLevel = s.nestingLevel
  currentCommandID : ∀ s, (g s).currentCommandID = s.currentCommandID
  catches : ∀ s, (g s).catches = s.catches
  raised : ∀ s, (g s).raised = s.raised
  ops : ∀ s, (g s).ops = s.ops ∨ (g s).ops = []

variable (env) in
/-- `C` for nested code and `C'` for the body of a command, which may push to `ops`. -/
structure Keeps (C C' : Contract State Exn) : Prop where
  raise : Raises C
  widen : ∀ {α : Type} {m : M α}, C.Holds m → C'.Holds m
  modify : ∀ {g : State → State}, Mild g → C.Holds (Prog.modify g)
  clientFunction : ∀ dbName cmdObj, C.Holds (clientFunction dbName cmdObj)
  /-- Only a top level command is pushed. -/
  push : ∀ (c : Bool) (dbName : String) (cmdObj : Cmd), C'.Holds (do
    let nested ← isNested
    when (!nested && c) (pushOp dbName cmdObj)
    pure cmdObj)
  tryWith : ∀ {c : Catch} {m : M Pass} {run : String → Cmd → M Response} {lsid : Option ℕ}, C.Holds m →
    C.Holds (retryAfterTransient env run c.cmdObj lsid) → C.Holds (retryEntireTransaction env run) →
    C.Holds (tryWith c m fun e => onException env run e lsid c)
  pre_enter : ∀ {s : State}, C.pre s → C'.pre (enter s)
  leave : ∀ {α : Type} {m : M α} {s : State}, C.pre s → C'.HoldsAt m (enter s) →
    wp m (fun _ t => C.ret s (leave t)) (fun e t => C.exc s e (leave t)) C.halt (enter s)

namespace Keeps

variable {C C' : Contract State Exn} (hC : Keeps env C C')
include hC

theorem raise' : Raises C' := fun α e => hC.widen (hC.raise α e)

theorem clearOpsList : C.Holds clearOpsList :=
  hC.modify ⟨fun _ => rfl, fun _ => rfl, fun _ => rfl, fun _ => rfl, fun _ => .inr rfl⟩

theorem startNewTransaction (cmdObj : Cmd) : C.Holds (startNewTransaction cmdObj) := by
  refine .bind (hC.modify ?_) fun _ => .pure _
  exact ⟨fun _ => rfl, fun _ => rfl, fun _ => rfl, fun _ => rfl, fun _ => .inl rfl⟩

theorem continueTransaction (dbName : String) (cmdObj : Cmd) :
    C'.Holds (continueTransaction env dbName cmdObj) := by
  refine .get_bind fun s => .bind (hC.widen (hC.modify ?_)) fun _ =>
    .bind (holds_jsAssert hC.raise' _ _) fun _ => .bind (holds_jsAssert hC.raise' _ _) fun _ =>
    hC.push _ dbName _
  exact ⟨fun _ => rfl, fun _ => rfl, fun _ => rfl, fun _ => rfl, fun _ => .inl rfl⟩

theorem recordCursor (res : Response) (cmdObj : Cmd) : C.Holds (recordCursor res cmdObj) := by
  refine holds_when ?_
  cases res.cursorId with
  | some id =>
    exact hC.modify ⟨fun _ => rfl, fun _ => rfl, fun _ => rfl, fun _ => rfl, fun _ => .inl rfl⟩
  | none => exact hC.raise _ _

section Run

variable {run : String → Cmd → M Response} (hrun : ∀ dbName cmdObj, C.Holds (run dbName cmdObj))
include hrun

theorem commitTransaction (lsid : Option ℕ) (n : ℤ) : C.Holds (commitTransaction env run lsid n) := by
  refine .bind (holds_jsAssert hC.raise _ _) fun _ => .bind (holds_jsAssert hC.raise _ _) fun _ =>
    .bind (holds_log hC.raise) fun _ => .get_bind fun _ => .bind (hrun _ _) fun res =>
    .bind (holds_assertCommandWorked hC.raise res) fun _ => .bind hC.clearOpsList fun _ =>
    hC.modify ?_
  exact ⟨fun _ => rfl, fun _ => rfl, fun _ => rfl, fun _ => rfl, fun _ => .inl rfl⟩

theorem abortTransaction (lsid : Option ℕ) (n : ℤ) : C.Holds (abortTransaction env run lsid n) :=
  .bind (holds_jsAssert hC.raise _ _) fun _ => .bind (holds_jsAssert hC.raise _ _) fun _ =>
    .bind (holds_log hC.raise) fun _ => .bind (hrun _ _) fun res =>
    .ite (.pure ()) (holds_assertCommandWorked hC.raise res)

theorem chooseTransaction (cmdObj : Cmd) (lsid : Option ℕ) :
    C.Holds (chooseTransaction env run cmdObj lsid) := by
  refine .bind (holds_isNested hC.raise) fun _ => .get_bind fun s =>
    .ite (.pure _) (.ite ?_ (.ite (.pure _) (.ite ?_ (.pure _))))
  · exact .bind (holds_jsAssert hC.raise _ _) fun _ => hC.startNewTransaction cmdObj
  · exact .bind (holds_log hC.raise) fun _ =>
      .bind (hC.commitTransaction hrun lsid _) fun _ => hC.startNewTransaction cmdObj

theorem endTransaction (lsid : Option ℕ) : C.Holds (endTransaction env run lsid) :=
  .get_bind fun _ => holds_when (.bind (holds_isNested hC.raise) fun _ =>
    holds_when (.bind (holds_log hC.raise) fun _ => hC.commitTransaction hrun lsid _))

theorem setupTransactionCommand (dbName : String) (cmdObj : Cmd) (lsid : Option ℕ) :
    C'.Holds (setupTransactionCommand env run dbName cmdObj lsid) := by
  refine .bind (holds_ofExcept hC.raise' _) fun _ => .get_bind fun _ => .ite ?_ ?_
  · exact .bind (hC.widen (hC.chooseTransaction hrun _ lsid)) fun cmdObj =>
      .bind (hC.continueTransaction dbName cmdObj) fun _ => holds_ofExcept hC.raise' _
  · exact .bind (hC.widen (hC.endTransaction hrun lsid)) fun _ => holds_ofExcept hC.raise' _

theorem setupCommand (dbName : String) (cmdObj : Cmd) (lsid : Option ℕ) :
    C'.Holds (setupCommand env run dbName cmdObj lsid) :=
  .ite (hC.setupTransactionCommand hrun dbName cmdObj lsid) (.pure _)

theorem retryOps (n : ℤ) (ops : List Op) : ∀ res, C.Holds (retryOps env run n res ops) := by
  induction ops with
  | nil => exact fun res => .pure res
  | cons op rest ih =>
    exact fun _ => .bind (holds_log hC.raise) fun _ => .bind (hrun _ _) fun res =>
      .ite (.pure res) (.bind (holds_assertCommandWorked hC.raise res) fun _ =>
        .get_bind fun _ => .ite (.pure res) (ih res))

theorem retryEntireTransaction : C.Holds (retryEntireTransaction env run) :=
  .get_bind fun _ => .bind (holds_jsAssert hC.raise _ _) fun _ =>
    .bind (hC.startNewTransaction _) fun _ => .get_bind fun _ =>
    .bind (holds_log hC.raise) fun _ => hC.retryOps hrun _ _ _

theorem createCollectionExplicitly (dbName : String) (collName : CmdValue) (lsid : Option ℕ) :
    C.Holds (createCollectionExplicitly env run dbName collName lsid) :=
  .bind (holds_log hC.raise) fun _ => .bind (hrun _ _) fun res =>
    holds_assertCommandWorked hC.raise res

theorem retryAfterTransient (cmdObj : Cmd) (lsid : Option ℕ) :
    C.Holds (retryAfterTransient env run cmdObj lsid) :=
  .bind (holds_log hC.raise) fun _ => .bind (hC.retryEntireTransaction hrun) fun res =>
    .get_bind fun _ => .bind (holds_when (hC.commitTransaction hrun lsid _)) fun _ => .pure res

theorem retryWithTxnOverride (res : Response) (dbName : String) (cmdObj : Cmd) (lsid : Option ℕ) :
    C.Holds (retryWithTxnOverride env run res dbName cmdObj lsid) := by
  have htransient : C.Holds (if retriesTransient res.errorLabels cmdObj then
      Override.retryAfterTransient env run cmdObj lsid else pure res) :=
    .ite (hC.retryAfterTransient hrun cmdObj lsid) (.pure res)
  refine .bind (holds_jsAssert hC.raise _ _) fun _ => .ite (.get_bind fun _ =>
    .bind (holds_jsAssert hC.raise _ _) fun _ => .bind (hC.abortTransaction hrun lsid _)
    fun _ => .ite ?_ (.ite ?_ htransient)) htransient
  · exact .bind (hC.createCollectionExplicitly hrun dbName _ lsid) fun _ =>
      hC.retryEntireTransaction hrun
  · exact .bind (holds_log hC.raise) fun _ => hC.retryEntireTransaction hrun

theorem attempt (dbName : String) (lsid : Option ℕ) (c : Catch) :
    C.Holds (attempt env run dbName lsid c) := by
  refine .bind (hC.clientFunction _ _) fun res => .bind (.ite ?_ (.pure res)) fun res =>
    holds_processNetworkResponse hC.raise res c
  exact .bind (holds_log hC.raise) fun _ => .bind (hC.recordCursor res c.cmdObj) fun _ =>
    hC.retryWithTxnOverride hrun res dbName c.cmdObj lsid

/-- One iteration of the retry loop. -/
theorem iteration (dbName : String) (lsid : Option ℕ) (c : Catch) :
    C.Holds (Override.tryWith c (Override.attempt env run dbName lsid c)
      fun e => onException env run e lsid c) :=
  hC.tryWith (hC.attempt hrun dbName lsid c) (hC.retryAfterTransient hrun _ lsid)
    (hC.retryEntireTransaction hrun)

theorem attempts (dbName : String) (cmdObj : Cmd) (lsid : Option ℕ) (startTime fuel : ℕ) :
    ∀ retries, C.Holds (attempts env run dbName cmdObj lsid startTime fuel retries) := by
  induction fuel with
  | zero => exact fun _ => .stop
  | succ fuel ih =>
    intro retries
    refine .bind (hC.iteration hrun dbName lsid _) fun pass => ?_
    cases pass with
    | done res => exact .pure res
    | again retries => exact .ite (ih retries) (hC.raise _ _)

theorem body (fuel : ℕ) (dbName : String) (cmdObj : Cmd) (lsid : Option ℕ) :
    C'.Holds (runCommandOverrideBody env run fuel dbName cmdObj lsid) :=
  .get_bind fun _ => .bind (holds_validate hC.raise' cmdObj) fun _ =>
    .bind (hC.setupCommand hrun dbName cmdObj lsid) fun cmdObj =>
    hC.widen (hC.attempts hrun dbName cmdObj lsid _ fuel _)

theorem clearOnFailure (res : Response) (lsid : Option ℕ) :
    C.Holds (clearOnFailure env run res lsid) :=
  holds_when (.bind (holds_isNested hC.raise) fun _ => .get_bind fun _ =>
    holds_when (.bind (holds_log hC.raise) fun _ => .bind hC.clearOpsList fun _ =>
      hC.abortTransaction hrun lsid _))

end Run

/-- **Every command keeps the contract**, however deep the nesting. -/
theorem runCommandOverride (fuel : ℕ) : ∀ dbName arg, C.Holds (runCommandOverride env fuel dbName arg) := by
  induction fuel with
  | zero => exact fun _ _ => .stop
  | succ fuel ih =>
    intro dbName arg s hs
    have hrun : ∀ dbName cmdObj,
        C.Holds (Override.runCommandOverride env fuel dbName (.plain cmdObj)) :=
      fun dbName cmdObj => ih dbName (.plain cmdObj)
    rw [Contract.HoldsAt, Override.runCommandOverride, wp_bind, wp_modify, wp_ensuring]
    refine hC.leave hs (Contract.Holds.bind (hC.body hrun fuel dbName _ _) (fun res => ?_) _
      (hC.pre_enter hs))
    exact .bind (hC.widen (hC.clearOnFailure hrun res _)) fun _ => .pure res

end Keeps

end MongoTests.Override
