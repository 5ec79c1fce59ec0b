import MongoTests.Lib.Machine
import MongoTests.Override.Parts

/-!
# The retry loop

The iterations of the loop of `runCommandOverrideBody`: each one sends the command, looks at the
response, and retries what it can; the retries that are left say how many ordinary network errors
there were. The nesting level is restored on every exit.

* `nesting`: the contract of the nesting level, kept by every part (`keeps_nesting`).
* `Command.block`, `Command.handler`: the `try` block and the catch clause of an iteration.
* `Iterates`: the start of an iteration, with the iterations and the ordinary errors before it.
* `LoopEnds`, `BodyEnds`: how the loop and the body end.
* **`retry_loop_discipline`**.
-/

namespace MongoTests.Override

open MongoTests.Lib Prog

variable {α : Type} {env : Shell} {s s' : State}

/-! ## The nesting level -/

/-- The nesting level is what it was. -/
structure SameNesting (s s' : State) : Prop where
  nestingLevel : s'.nestingLevel = s.nestingLevel
  currentCommandID : s'.currentCommandID = s.currentCommandID

theorem SameNesting.level (h : SameNesting s s') (hl : Level s) : Level s' := by
  rw [Level, h.nestingLevel, h.currentCommandID]
  exact hl

/-- Every return and every exception restores the nesting level, and a run stops at the right one. -/
def nesting : Contract State Exn where
  pre := Level
  ret := SameNesting
  exc s _ s' := SameNesting s s'
  halt := Level
  refl _ := ⟨rfl, rfl⟩
  next hl h := h.level hl
  trans h h' := ⟨h'.nestingLevel.trans h.nestingLevel, h'.currentCommandID.trans h.currentCommandID⟩
  transExc h h' := ⟨h'.nestingLevel.trans h.nestingLevel, h'.currentCommandID.trans h.currentCommandID⟩
  halt_of_pre hl := hl

theorem nesting_raise : Raises nesting := by
  intro α e s hs
  rw [Contract.HoldsAt, wp_raise]
  exact ⟨rfl, rfl⟩

theorem nesting_clientFunction (dbName : String) (cmdObj : Cmd) :
    nesting.Holds (clientFunction dbName cmdObj) := by
  intro s hs
  refine wp_clientFunction hs fun ans answers server _ => ?_
  have hsame : SameNesting s { s with answers := answers, server := server, now := ans.now } :=
    ⟨rfl, rfl⟩
  exact Contract.HoldsAt.after hsame (holds_ofExcept nesting_raise ans.result _ (hsame.level hs))

/-- The `try` block with its catch clause around it. -/
def inTry (c : Catch) (m : M α) : M α :=
  Prog.ensuring (do
    Prog.modify (State.enterTry c)
    m) State.leaveTry

theorem nesting_inTry {c : Catch} {m : M α} (hm : nesting.Holds m) : nesting.Holds (inTry c m) := by
  intro s hs
  rw [Contract.HoldsAt, inTry, wp_ensuring, wp_bind, wp_modify]
  exact wp.mono (hm (s.enterTry c) hs) (fun _ _ ht => ⟨ht.nestingLevel, ht.currentCommandID⟩)
    (fun _ _ ht => ⟨ht.nestingLevel, ht.currentCommandID⟩) fun _ ht => ht

theorem nesting_onException {c : Catch} {run : String → Cmd → M Response} {lsid : Option ℕ} {e : Exn}
    (htransient : nesting.Holds (retryAfterTransient env run c.cmdObj lsid))
    (htxn : nesting.Holds (retryEntireTransaction env run)) :
    nesting.Holds (onException env run e lsid c) :=
  fun s hs => wp_catch hs ⟨rfl, rfl⟩ (htransient s hs) (fun _ _ => htxn s hs) fun _ _ _ => ⟨rfl, rfl⟩

theorem SameNesting.leave (h : SameNesting (enter s) s') : SameNesting s (leave s') where
  nestingLevel := by simp [Override.leave, h.nestingLevel, enter]
  currentCommandID := by simp [Override.leave, h.currentCommandID, enter]

theorem keeps_nesting : Keeps env nesting nesting where
  raise := nesting_raise
  widen h := h
  modify hg := .modify fun s _ => ⟨hg.nestingLevel s, hg.currentCommandID s⟩
  clientFunction := nesting_clientFunction
  push _ _ cmdObj := .bind (holds_isNested nesting_raise) fun _ =>
    .bind (holds_when (.modify fun _ _ => ⟨rfl, rfl⟩)) fun _ => .pure cmdObj
  tryWith hm htransient htxn s hs := by
    rw [Contract.HoldsAt, tryWith, wp_tryCatch]
    exact wp.mono (nesting_inTry hm s hs) (fun _ _ ht => ht)
      (fun _ t ht => Contract.HoldsAt.after ht (nesting_onException htransient htxn t (ht.level hs)))
      fun _ ht => ht
  pre_enter := level_enter
  leave _ h := wp.mono h (fun _ _ ht => ht.leave) (fun _ _ ht => ht.leave) fun _ ht => ht

/-! ## Iterations -/

/-- A command in its retry loop, with the `run` of the commands nested in it. -/
structure Command where
  run : String → Cmd → M Response
  dbName : String
  cmdObj : Cmd
  lsid : Option ℕ
  startTime : ℕ

namespace Command

variable (env : Shell) (l : Command) (n : ℤ)

def clause : Catch := ⟨l.cmdObj, l.startTime, n⟩

/-- The `try` block, with `n` retries left. -/
def block : M Pass := inTry (l.clause n) (attempt env l.run l.dbName l.lsid (l.clause n))

/-- The catch clause. -/
def handler (e : Exn) : M Pass := onException env l.run e l.lsid (l.clause n)

def loop (fuel : ℕ) : M Response := attempts env l.run l.dbName l.cmdObj l.lsid l.startTime fuel n

/-- The rest of the loop after an iteration. -/
def next (fuel : ℕ) : Pass → M Response
  | .done res => pure res
  | .again retries =>
    if 0 ≤ retries then l.loop env retries fuel else raise (error "MONGO UNREACHABLE")

/-- `numNetworkErrorRetries` before the loop. -/
def initialRetries : ℤ := if canRetryNetworkErrorForCommand env l.cmdObj then kMaxNumRetries else 0

/-- An ordinary network error: a first one would be subtracted from the retries. -/
def ordinary (now : ℕ) (e : Exn) : Bool := networkExceptionVerdict env now (l.clause 1) e = some true

end Command

/-- An iteration starts in `s` with `n` retries left, after `j` other iterations that started from
`s₀`, of which `k` met an ordinary network error. -/
inductive Iterates (env : Shell) (l : Command) (s₀ : State) : ℕ → ℕ → ℤ → State → Prop
  | start : Iterates env l s₀ 0 0 (l.initialRetries env) s₀
  | response {j k : ℕ} {n n' : ℤ} {s s' : State} (h : Iterates env l s₀ j k n s)
      (hblock : l.block env n s = (.ok (.again n'), s')) : Iterates env l s₀ (j + 1) k n' s'
  | exception {j k : ℕ} {n n' : ℤ} {s t s' : State} {e : Exn} (h : Iterates env l s₀ j k n s)
      (hblock : l.block env n s = (.error e, t)) (hcatch : l.handler env n e t = (.ok (.again n'), s')) :
      Iterates env l s₀ (j + 1) (if l.ordinary env t.now e then k + 1 else k) n' s'

/-- How the loop ends: an iteration returns a response, or throws what its catch clause does not
retry, or what the retry in the catch clause throws. -/
inductive LoopEnds (env : Shell) (l : Command) (s₀ : State) : Outcome Exn Response × State → Prop
  | returned {j k : ℕ} {n : ℤ} {s s' : State} {res : Response} (h : Iterates env l s₀ j k n s)
      (hblock : l.block env n s = (.ok (.done res), s')) : LoopEnds env l s₀ (.ok res, s')
  | retriedTxn {j k : ℕ} {n : ℤ} {s t s' : State} {e : Exn} {res : Response}
      (h : Iterates env l s₀ j k n s) (hblock : l.block env n s = (.error e, t))
      (hcatch : l.handler env n e t = (.ok (.done res), s')) : LoopEnds env l s₀ (.ok res, s')
  | threw {j k : ℕ} {n : ℤ} {s t : State} {e : Exn} (h : Iterates env l s₀ j k n s)
      (hblock : l.block env n s = (.error e, t)) (hcatch : (l.clause n).retries env t.now e = false) :
      LoopEnds env l s₀ (.error e, t)
  | retryThrew {j k : ℕ} {n : ℤ} {s t s' : State} {e e' : Exn} (h : Iterates env l s₀ j k n s)
      (hblock : l.block env n s = (.error e, t)) (hretries : (l.clause n).retries env t.now e = true)
      (hcatch : l.handler env n e t = (.error e', s')) : LoopEnds env l s₀ (.error e', s')
  | stopped {s' : State} (hl : Level s') : LoopEnds env l s₀ (.stop, s')

section Loop

variable {l : Command} {s₀ t : State} {j k : ℕ} {n n' : ℤ} {e : Exn}

/-- A response does not change the retries that are left. -/
theorem again_of_block (h : l.block env n s = (.ok (.again n'), s')) : n' = n := by
  have hwp : wp (l.block env n) (fun pass _ => ∀ r, pass = .again r → r = n) (fun _ _ => True)
      (fun _ => True) s := by
    rw [Command.block, inTry, wp_ensuring, wp_bind, wp_modify, attempt, wp_bind]
    refine wp_of_forall (fun res t => ?_) (fun _ _ => trivial) fun _ => trivial
    rw [wp_bind]
    refine wp_of_forall (fun res t => ?_) (fun _ _ => trivial) fun _ => trivial
    rw [processNetworkResponse, wp_ite]
    refine ⟨fun _ => ?_, fun _ => ?_⟩
    · rw [wp_bind]
      refine wp_of_forall (fun networkRetryRes t => ?_) (fun _ _ => trivial) fun _ => trivial
      cases networkRetryRes with
      | none =>
        rintro r hr
        cases hr
        rfl
      | some res =>
        rintro r hr
        cases hr
    · rintro r hr
      cases hr
  exact hwp.ok h n' rfl

/-- An exception that is retried has a verdict. -/
theorem again_of_handler (hl : Level t) (h : l.handler env n e t = (.ok (.again n'), s')) :
    ∃ decrement, networkExceptionVerdict env t.now (l.clause n) e = some decrement ∧
      n' = (l.clause n).retriesLeft decrement := by
  cases hc : (l.clause n).retries env t.now e with
  | false =>
    rw [Command.handler, onException_eq hl hc] at h
    cases h
  | true =>
    have hdone : ∀ m : M Response, wp m (fun res _ => ∀ r, Pass.done res = .again r →
        ∃ decrement, networkExceptionVerdict env t.now (l.clause n) e = some decrement ∧
          r = (l.clause n).retriesLeft decrement) (fun _ _ => True) (fun _ => True) t := by
      intro m
      refine wp_of_forall (fun res _ r hr => ?_) (fun _ _ => trivial) fun _ => trivial
      cases hr
    have hwp : wp (l.handler env n e) (fun pass _ => ∀ r, pass = .again r →
        ∃ decrement, networkExceptionVerdict env t.now (l.clause n) e = some decrement ∧
          r = (l.clause n).retriesLeft decrement) (fun _ _ => True) (fun _ => True) t := by
      refine wp_onException hl hc (hdone _) (fun _ _ => hdone _) fun _ decrement hd r hr => ?_
      cases hr
      exact ⟨decrement, hd, rfl⟩
    exact hwp.ok h n' rfl

/-- The retries only decide whether there is a verdict. -/
theorem networkExceptionVerdict_clause (now : ℕ) (hn : n ≠ 0) :
    networkExceptionVerdict env now (l.clause n) e = networkExceptionVerdict env now (l.clause 1) e := by
  have h0 : (l.clause n).numNetworkErrorRetries ≠ 0 := hn
  have h1 : (l.clause 1).numNetworkErrorRetries ≠ 0 := one_ne_zero
  rw [networkExceptionVerdict, if_neg h0, networkExceptionVerdict, if_neg h1]
  rfl

theorem initialRetries_nonneg (env : Shell) (l : Command) : 0 ≤ l.initialRetries env := by
  rw [Command.initialRetries]
  split_ifs <;> decide

theorem initialRetries_le (env : Shell) (l : Command) : l.initialRetries env ≤ kMaxNumRetries := by
  rw [Command.initialRetries]
  split_ifs <;> decide

variable (hrun : ∀ dbName cmdObj, nesting.Holds (l.run dbName cmdObj))
include hrun

theorem nesting_block (n : ℤ) : nesting.Holds (l.block env n) :=
  nesting_inTry (keeps_nesting.attempt hrun l.dbName l.lsid (l.clause n))

theorem nesting_handler (n : ℤ) (e : Exn) : nesting.Holds (l.handler env n e) :=
  nesting_onException (keeps_nesting.retryAfterTransient hrun _ l.lsid)
    (keeps_nesting.retryEntireTransaction hrun)

theorem Iterates.level (h : Iterates env l s₀ j k n s) (hl : Level s₀) : Level s := by
  induction h with
  | start => exact hl
  | response _ hblock ih =>
    have hsame : SameNesting _ _ := (nesting_block hrun _ _ ih).ok hblock
    exact hsame.level ih
  | exception _ hblock hcatch ih =>
    have hsame : SameNesting _ _ := (nesting_block hrun _ _ ih).error hblock
    have hl' := hsame.level ih
    have hsame' : SameNesting _ _ := (nesting_handler hrun _ _ _ hl').ok hcatch
    exact hsame'.level hl'

/-- **The retries that are left** say how many ordinary network errors were retried. -/
theorem Iterates.retries (h : Iterates env l s₀ j k n s) (hl : Level s₀) :
    n = l.initialRetries env - (k : ℤ) ∧ 0 ≤ n := by
  induction h with
  | start => exact ⟨by simp, initialRetries_nonneg env l⟩
  | response _ hblock ih =>
    rw [again_of_block hblock]
    exact ih
  | exception h hblock hcatch ih =>
    rename_i j k n n' s t s' e
    have hlevel := h.level hrun hl
    have hsame : SameNesting s t := (nesting_block hrun _ _ hlevel).error hblock
    obtain ⟨decrement, hd, rfl⟩ := again_of_handler (hsame.level hlevel) hcatch
    -- without retries left the exception is thrown
    have hn : n ≠ 0 := by
      rintro rfl
      simp [networkExceptionVerdict, Command.clause] at hd
    rw [networkExceptionVerdict_clause t.now hn] at hd
    rw [Command.ordinary, hd, Catch.retriesLeft]
    cases decrement with
    | false => exact ih
    | true =>
      simp only [decide_true, if_true, Command.clause]
      omega

theorem Iterates.errors_le (h : Iterates env l s₀ j k n s) (hl : Level s₀) :
    (k : ℤ) ≤ kMaxNumRetries := by
  have hretries := h.retries hrun hl
  have hle := initialRetries_le env l
  omega

omit hrun in
theorem loop_succ (fuel : ℕ) :
    l.loop env n (fuel + 1) =
      (Prog.tryCatch (l.block env n) (l.handler env n) >>= l.next env fuel) := by
  funext u
  show attempts env l.run l.dbName l.cmdObj l.lsid l.startTime (fuel + 1) n u = _
  rw [attempts]
  refine congrArg (fun f => (Prog.tryCatch (l.block env n) (l.handler env n) >>= f) u) ?_
  funext pass
  cases pass <;> rfl

/-- The loop goes on, since retries are left. -/
theorem next_ends {fuel : ℕ} (h : Iterates env l s₀ j k n s) (hl : Level s₀)
    (hgo : LoopEnds env l s₀ (l.loop env n fuel s)) :
    LoopEnds env l s₀ (l.next env fuel (.again n) s) := by
  rw [Command.next, if_pos (h.retries hrun hl).2]
  exact hgo

/-- The catch clause, and the loop after it. -/
theorem handler_ends {fuel : ℕ} (h : Iterates env l s₀ j k n s) (hl : Level s₀)
    (hblock : l.block env n s = (.error e, t))
    (hgo : ∀ {j k n s}, Iterates env l s₀ j k n s → LoopEnds env l s₀ (l.loop env n fuel s)) :
    LoopEnds env l s₀ ((l.handler env n e >>= l.next env fuel) t) := by
  have hlevel := h.level hrun hl
  have hsame : SameNesting s t := (nesting_block hrun n s hlevel).error hblock
  have hlt : Level t := hsame.level hlevel
  cases hcatch : l.handler env n e t with
  | mk o s' =>
    cases o with
    | ok pass =>
      rw [bind_eq_of_ok hcatch]
      cases pass with
      | done res => exact .retriedTxn h hblock hcatch
      | again n' =>
        have h' := h.exception hblock hcatch
        exact next_ends hrun h' hl (hgo h')
    | error e' =>
      rw [bind_eq_of_error hcatch]
      cases hretries : (l.clause n).retries env t.now e with
      | true => exact .retryThrew h hblock hretries hcatch
      | false =>
        rw [Command.handler, onException_eq hlt hretries] at hcatch
        cases hcatch
        exact .threw h hblock hretries
    | stop =>
      rw [bind_eq_of_stop hcatch]
      have hhandler : nesting.Holds (l.handler env n e) := nesting_handler hrun n e
      exact .stopped ((hhandler t hlt).stop hcatch)

/-- **How the loop ends**, from any iteration. -/
theorem loop_ends (fuel : ℕ) (h : Iterates env l s₀ j k n s) (hl : Level s₀) :
    LoopEnds env l s₀ (l.loop env n fuel s) := by
  induction fuel generalizing j k n s with
  | zero => exact .stopped (h.level hrun hl)
  | succ fuel ih =>
    rw [loop_succ]
    cases hblock : l.block env n s with
    | mk o t =>
      cases o with
      | ok pass =>
        rw [tryCatch_bind_of_ok hblock]
        cases pass with
        | done res => exact .returned h hblock
        | again n' =>
          have h' := h.response hblock
          exact next_ends hrun h' hl (ih h')
      | error e =>
        rw [tryCatch_bind_of_error hblock]
        exact handler_ends hrun h hl hblock ih
      | stop =>
        rw [tryCatch_bind_of_stop hblock]
        have hholds : nesting.Holds (l.block env n) := nesting_block hrun n
        exact .stopped ((hholds s (h.level hrun hl)).stop hblock)

end Loop

/-! ## The body -/

/-- How `runCommandOverrideBody` ends: with an exception before the loop, or as the loop does. -/
inductive BodyEnds (env : Shell) (run : String → Cmd → M Response) (dbName : String) (cmdObj : Cmd)
    (lsid : Option ℕ) (s : State) : Outcome Exn Response × State → Prop
  | refused {e : Exn} {s' : State} (hvalidate : validate env cmdObj s = (.error e, s')) :
      BodyEnds env run dbName cmdObj lsid s (.error e, s')
  | setupThrew {e : Exn} {t s' : State} (hvalidate : validate env cmdObj s = (.ok (), t))
      (hsetup : setupCommand env run dbName cmdObj lsid t = (.error e, s')) :
      BodyEnds env run dbName cmdObj lsid s (.error e, s')
  | loop {cmdObj' : Cmd} {t u : State} {r : Outcome Exn Response × State}
      (hvalidate : validate env cmdObj s = (.ok (), t))
      (hsetup : setupCommand env run dbName cmdObj lsid t = (.ok cmdObj', u))
      (hloop : LoopEnds env ⟨run, dbName, cmdObj', lsid, s.now⟩ u r) :
      BodyEnds env run dbName cmdObj lsid s r
  | stopped {s' : State} (hl : Level s') : BodyEnds env run dbName cmdObj lsid s (.stop, s')

theorem body_ends {run : String → Cmd → M Response}
    (hrun : ∀ dbName cmdObj, nesting.Holds (run dbName cmdObj)) (fuel : ℕ) (dbName : String)
    (cmdObj : Cmd) (lsid : Option ℕ) (hl : Level s) :
    BodyEnds env run dbName cmdObj lsid s
      (runCommandOverrideBody env run fuel dbName cmdObj lsid s) := by
  have hvalid : nesting.Holds (validate env cmdObj) := holds_validate nesting_raise cmdObj
  rw [runCommandOverrideBody, get_bind_apply]
  cases hv : validate env cmdObj s with
  | mk o t =>
    cases o with
    | error e =>
      rw [bind_eq_of_error hv]
      exact .refused hv
    | stop =>
      rw [bind_eq_of_stop hv]
      exact .stopped ((hvalid s hl).stop hv)
    | ok =>
      rw [bind_eq_of_ok hv]
      have hsame : SameNesting s t := (hvalid s hl).ok hv
      have hlt : Level t := hsame.level hl
      have hset : nesting.Holds (setupCommand env run dbName cmdObj lsid) :=
        keeps_nesting.setupCommand hrun dbName cmdObj lsid
      cases hs : setupCommand env run dbName cmdObj lsid t with
      | mk o' u =>
        cases o' with
        | error e =>
          rw [bind_eq_of_error hs]
          exact .setupThrew hv hs
        | stop =>
          rw [bind_eq_of_stop hs]
          exact .stopped ((hset t hlt).stop hs)
        | ok cmdObj' =>
          rw [bind_eq_of_ok hs]
          have hsame' : SameNesting t u := (hset t hlt).ok hs
          exact .loop hv hs (loop_ends hrun fuel .start (hsame'.level hlt))

/-! ## Commands of a test -/

theorem nesting_of_eq {fuel : ℕ} {dbName : String} {arg : CmdArg} {o : Outcome Exn Response}
    (hl : Level s) (hrun : runCommandOverride env fuel dbName arg s = (o, s')) :
    Level s' ∧ (o ≠ .stop → SameNesting s s') := by
  have hnesting := (@keeps_nesting env).runCommandOverride fuel dbName arg s hl
  cases o with
  | ok res =>
    have hsame : SameNesting s s' := hnesting.ok hrun
    exact ⟨hsame.level hl, fun _ => hsame⟩
  | error e =>
    have hsame : SameNesting s s' := hnesting.error hrun
    exact ⟨hsame.level hl, fun _ => hsame⟩
  | stop => exact ⟨hnesting.stop hrun, fun hne => absurd rfl hne⟩

theorem level_of_reach {t : Test} (h : Reach (issue env) Free Fresh t) : Level t.state := by
  refine Reach.inv (I := fun t => Level t.state) ?_ ?_ h
  · rintro _ rfl
    rfl
  · intro t c t' hl _ hi
    have hl' : Level { t.state with answers := c.answers, raised := [] } := hl
    exact (nesting_of_eq hl' (issue_eq_some.1 hi).2.1).1

/-- **The discipline of the retry loop.** In every state of every test the nesting level is the
length of `currentCommandID`. From any such state, every command restores both on every exit, and the
body of every command ends with a response, or an exception that is thrown before the loop, that the
catch clause does not retry, or that is thrown by the retry in the catch clause; the retries never
fall below 0, and no more than `kMaxNumRetries` ordinary network errors are retried. -/
theorem retry_loop_discipline (env : Shell) :
    (∀ t, Reach (issue env) Free Fresh t → Level t.state) ∧
    ∀ s, Level s → ∀ (fuel : ℕ) (dbName : String),
      (∀ arg o s', runCommandOverride env fuel dbName arg s = (o, s') →
        Level s' ∧ (o ≠ .stop → SameNesting s s')) ∧
      ∀ (run : String → Cmd → M Response),
        (run = fun dbName cmdObj => runCommandOverride env fuel dbName (.plain cmdObj)) →
        ∀ (cmdObj : Cmd) (lsid : Option ℕ),
          (∀ n, BodyEnds env run dbName cmdObj lsid s
            (runCommandOverrideBody env run n dbName cmdObj lsid s)) ∧
          ∀ startTime j k n s', Iterates env ⟨run, dbName, cmdObj, lsid, startTime⟩ s j k n s' →
            (k : ℤ) ≤ kMaxNumRetries ∧ 0 ≤ n := by
  refine ⟨fun t => level_of_reach, fun s hl fuel dbName => ⟨fun arg o s' hrun => ?_, ?_⟩⟩
  · exact nesting_of_eq hl hrun
  · rintro run rfl cmdObj lsid
    have hrun : ∀ dbName cmdObj, nesting.Holds (runCommandOverride env fuel dbName (.plain cmdObj)) :=
      fun dbName cmdObj => keeps_nesting.runCommandOverride fuel dbName (.plain cmdObj)
    refine ⟨fun n => body_ends hrun n dbName cmdObj lsid hl, fun startTime j k n s' h => ?_⟩
    exact ⟨h.errors_le hrun hl, (h.retries hrun hl).2⟩

/-- The connection is closed under the first command. -/
def closedOnce : State := { answers := [.closed, .worked] }

theorem retry_loop_discipline_insert :
    ∃ o s', runCommandOverride (testShell true) 4 "test" (.plain (insertCmd 1)) closedOnce = (o, s') ∧
      Level s' ∧ (o ≠ .stop → SameNesting closedOnce s') := by
  obtain ⟨-, hlevel⟩ := retry_loop_discipline (testShell true)
  obtain ⟨hcommand, -⟩ := hlevel closedOnce rfl 4 "test"
  obtain ⟨⟨o, s'⟩, hrun⟩ : ∃ r,
      runCommandOverride (testShell true) 4 "test" (.plain (insertCmd 1)) closedOnce = r := ⟨_, rfl⟩
  exact ⟨o, s', hrun, hcommand _ o s' hrun⟩

end MongoTests.Override
