import Mathlib.Algebra.Order.Field.Rat
import Mathlib.Data.List.Basic
import MongoTests.Lib.Program

/-!
# Transactions that are retried

`withTxnAndAutoRetry` of `fsm_workload_helpers/auto_retry_transaction.js`, with `PrepareHelpers` of
`core/txns/libs/prepare_helpers.js`. The session starts a transaction on the server for every
attempt; a request goes to the newest one. The server answers as it likes, within what `Txn.Allows`
says. A run stops where its fuel is used up or the server has no answer.

* `shouldRetryEntireTxnOnError`, `commitTransactionWithKilledSessionRetries`, `attempt`,
  `withTxnAndAutoRetry`.
* `Txn.mayHaveCommitted`: a commit was sent, and no answer says that it failed for good.
* `Txn.commitDropped`: the commit of a prepared transaction failed, and an abort went through.
* **`exactlyOnce_iff`**: one attempt commits, the last one, unless a failed commit was dropped.
-/

namespace MongoTests.Fsm.AutoRetry

open MongoTests.Lib Prog

/-! ## Errors -/

structure Response where
  ok : Bool
  code : Option ℤ
  errorLabels : Option (List String)

/-- What an exception has; no `writeErrors` when it is not an array. -/
structure TxnError where
  errorLabels : Option (List String)
  code : Option ℤ
  writeErrors : Option (List (Option ℤ))

def isTransientLabelled (errorLabels : Option (List String)) : Bool :=
  "TransientTransactionError" ∈ errorLabels.getD []

structure ErrorCodes where
  interrupted : ℤ
  cursorKilled : ℤ
  cursorNotFound : ℤ
  noSuchTransaction : ℤ

/-- The functions of the shell. An assertion about a response that throws copies its labels. -/
structure Shell where
  errorCodes : ErrorCodes
  isNetworkError : TxnError → Bool
  /-- What `assert.commandWorked` throws. -/
  commandWorked : Response → Option TxnError
  /-- What `assert.commandWorkedOrFailedWithCode` throws. -/
  commandWorkedOrFailedWithCode : Response → List ℤ → Option TxnError
  /-- What the assertions about `res.prepareTimestamp` throw. -/
  prepareTimestampFailed : Response → Option TxnError
  ok_of_commandWorked : ∀ {res}, commandWorked res = none → res.ok = true
  labels_of_commandWorked : ∀ {res e}, commandWorked res = some e →
    isTransientLabelled e.errorLabels = true → isTransientLabelled res.errorLabels = true
  labels_of_failed : ∀ {res codes e}, commandWorkedOrFailedWithCode res codes = some e →
    isTransientLabelled e.errorLabels = true → isTransientLabelled res.errorLabels = true

/-! ## The server -/

inductive TxnStatus
  | active
  | committed
  | aborted
  deriving DecidableEq

/-- What is sent in an attempt; `func` stands for all that it sends. -/
inductive Request
  | func
  | prepare
  | commit
  | abort
  deriving DecidableEq

abbrev Entry := Request × Except TxnError Response

/-- What `func` returns is not read. -/
def Entry.labelled : Entry → Bool
  | (.func, .ok _) => false
  | (_, .ok res) => isTransientLabelled res.errorLabels
  | (_, .error e) => isTransientLabelled e.errorLabels

def Entry.committed : Entry → Bool
  | (.commit, .ok res) => res.ok
  | _ => false

/-- A transaction of the session, with the answers to its requests, the newest first. -/
structure Txn where
  status : TxnStatus
  log : List Entry
  commit_of_committed : status = .committed → log.any (·.1 = .commit) = true
  aborted_of_labelled : log.any Entry.labelled = true → status = .aborted

structure Answer where
  result : Except TxnError Response
  /-- The transaction after the request. -/
  status : TxnStatus

namespace Txn

def new : Txn := ⟨.active, [], by simp, by simp⟩

def commitSent (t : Txn) : Bool := t.log.any (·.1 = .commit)

/-- An answer says that the transaction has not committed and will not. -/
def labelled (t : Txn) : Bool := t.log.any Entry.labelled

/-- A commit was sent that may have succeeded. -/
def mayHaveCommitted (t : Txn) : Bool := t.commitSent && !t.labelled

/-- `func` ran to completion. -/
def funcCompleted (t : Txn) : Bool :=
  t.log.any fun
    | (.func, .ok _) => true
    | _ => false

/-- `commitTransaction` of `PrepareHelpers` had a response without `ok`, aborted the transaction and
returned. -/
def commitDropped (shell : Shell) (t : Txn) : Bool :=
  match t.log with
  | (.abort, .ok abortRes) :: (.commit, .ok res) :: _ => !res.ok &&
    (shell.commandWorkedOrFailedWithCode abortRes [shell.errorCodes.noSuchTransaction]).isNone
  | _ => false

/-- A new transaction on the session aborts one that is open. -/
def superseded (t : Txn) : Txn where
  status := if t.status = .active then .aborted else t.status
  log := t.log
  commit_of_committed := by
    split_ifs
    · simp
    · exact t.commit_of_committed
  aborted_of_labelled h := by simp [t.aborted_of_labelled h]

/-- The server may give this answer. An end of the transaction is final, and it commits only where
`commitTransaction` was sent; after `ok` it has committed, after the label it has not. -/
def Allows (t : Txn) (r : Request) (ans : Answer) : Prop :=
  (t.status ≠ .active → ans.status = t.status) ∧
  (ans.status = .committed → t.commitSent = true ∨ r = .commit) ∧
  (Entry.labelled (r, ans.result) = true → ans.status = .aborted) ∧
  (Entry.committed (r, ans.result) = true → ans.status = .committed)

instance (t : Txn) (r : Request) (ans : Answer) : Decidable (t.Allows r ans) :=
  inferInstanceAs (Decidable (_ ∧ _))

/-- The transaction after an answer. -/
def answered (t : Txn) (r : Request) (ans : Answer) : Option Txn :=
  if h : t.Allows r ans then
    some {
      status := ans.status
      log := (r, ans.result) :: t.log
      commit_of_committed := fun hc => by
        rcases h.2.1 hc with hsent | rfl
        · rw [List.any_cons, Bool.or_eq_true]
          exact .inr hsent
        · rfl
      aborted_of_labelled := fun hl => by
        rw [List.any_cons, Bool.or_eq_true] at hl
        rcases hl with hl | hl
        · exact h.2.2.1 hl
        · have haborted := t.aborted_of_labelled hl
          exact (h.1 (by rw [haborted]; decide)).trans haborted }
  else none

end Txn

/-! ## The program -/

/-- The call that threw. -/
inductive Origin
  | parameters
  | func
  | prepare
  | commit
  | abort
  deriving DecidableEq

structure Exn where
  error : TxnError
  origin : Origin

structure State where
  /-- The transactions of the attempts, the newest first. -/
  txns : List Txn := []
  answers : List Answer := []
  hasCommitTxnError : Bool := false
  hasTransientError : Bool := false

abbrev M := Prog State Exn

/-- A request to the server, and where it is made. -/
def request (r : Request) (origin : Origin) : M Response := fun s =>
  match s.answers, s.txns with
  | ans :: answers, t :: earlier =>
    match t.answered r ans with
    | none => Prog.stop s
    | some t' =>
      match ans.result with
      | .ok res => (.ok res, { s with txns := t' :: earlier, answers := answers })
      | .error e => (.error ⟨e, origin⟩, { s with txns := t' :: earlier, answers := answers })
  | _, _ => Prog.stop s

/-- An assertion that throws `e`, or nothing. -/
def assertNone (e : Option TxnError) (origin : Origin) : M Unit :=
  match e with
  | none => pure ()
  | some e => Prog.throw ⟨e, origin⟩

section Model

variable (shell : Shell)

def isKilledSessionCode (code : Option ℤ) : Bool :=
  code = some shell.errorCodes.interrupted || code = some shell.errorCodes.cursorKilled ||
    code = some shell.errorCodes.cursorNotFound

def shouldRetryEntireTxnOnError (e : TxnError) (hasCommitTxnError retryOnKilledSession : Bool) : Bool :=
  if isTransientLabelled e.errorLabels then true
  -- it is unknown whether the commit succeeded
  else if hasCommitTxnError then false
  else if shell.isNetworkError e then true
  else retryOnKilledSession && (isKilledSessionCode shell e.code ||
    match e.writeErrors with
    | some codes => codes.all (isKilledSessionCode shell)
    | none => false)

def commitTransactionWithKilledSessionRetries (retryOnKilledSession : Bool) : ℕ → M Unit
  | 0 => Prog.stop
  | fuel + 1 => do
    let commitRes ← request .commit .commit
    if !commitRes.ok && retryOnKilledSession && isKilledSessionCode shell commitRes.code then
      commitTransactionWithKilledSessionRetries retryOnKilledSession fuel
    else assertNone (shell.commandWorked commitRes) .commit

/-- `PrepareHelpers.prepareTransaction` -/
def prepareTransaction : M Unit := do
  let res ← request .prepare .prepare
  assertNone (shell.commandWorked res) .prepare
  assertNone (shell.prepareTimestampFailed res) .prepare

/-- The end of the transaction on the shell session, after the response to its commit. -/
def endOnShellSession (res : Response) : M Unit :=
  if res.ok then do
    let commitRes ← request .commit .commit
    assertNone (shell.commandWorked commitRes) .commit
  else do
    let abortRes ← request .abort .commit
    assertNone (shell.commandWorkedOrFailedWithCode abortRes [shell.errorCodes.noSuchTransaction])
      .commit

/-- `PrepareHelpers.commitTransaction` -/
def commitTransaction : M Response := do
  let res ← request .commit .commit
  endOnShellSession shell res
  pure res

/-- `session.startTransaction_forTesting` -/
def startTransaction : M Unit :=
  Prog.modify fun s => { s with txns := Txn.new :: s.txns.map Txn.superseded }

variable (retryOnKilledSession : Bool) (prepareProbability : ℚ)
  -- what `Random.rand()` returns, by the number of attempts
  (rand : ℕ → ℚ)

/-- The inner `try`. -/
def commitAttempt (fuel : ℕ) : M Unit := do
  let s ← Prog.get
  if rand s.txns.length < prepareProbability then do
    prepareTransaction shell
    -- the response is not looked at
    let _ ← commitTransaction shell
    pure ()
  else commitTransactionWithKilledSessionRetries shell retryOnKilledSession fuel

/-- The shell learns that no transaction is in progress, also where the server has aborted it or the
session was killed. -/
def abortAfterError (hasCommitTxnError : Bool) : M Unit :=
  if hasCommitTxnError then pure ()
  else do
    let res ← request .abort .abort
    assertNone (shell.commandWorkedOrFailedWithCode res
      [shell.errorCodes.noSuchTransaction, shell.errorCodes.interrupted]) .abort

/-- The outer catch clause. -/
def onError (e : Exn) : M Unit := do
  let s ← Prog.get
  abortAfterError shell s.hasCommitTxnError
  if shouldRetryEntireTxnOnError shell e.error s.hasCommitTxnError retryOnKilledSession then
    Prog.modify fun s => { s with hasTransientError := true }
  else Prog.throw e

/-- The body of the loop. -/
def attempt (fuel : ℕ) : M Unit := do
  startTransaction
  Prog.modify fun s => { s with hasCommitTxnError := false, hasTransientError := false }
  Prog.tryCatch (do
    let _ ← request .func .func
    Prog.tryCatch (commitAttempt shell retryOnKilledSession prepareProbability rand fuel) fun e => do
      Prog.modify fun s => { s with hasCommitTxnError := true }
      Prog.throw e) (onError shell retryOnKilledSession)

def attempts (fuel : ℕ) : ℕ → M Unit
  | 0 => Prog.stop
  | n + 1 => do
    attempt shell retryOnKilledSession prepareProbability rand fuel
    let s ← Prog.get
    if s.hasTransientError then attempts fuel n else pure ()

def assertionError : TxnError := ⟨none, none, none⟩

def withTxnAndAutoRetry (fuel : ℕ) : M Unit := do
  assertNone (if !retryOnKilledSession || prepareProbability = 0 then none else some assertionError)
    .parameters
  attempts shell retryOnKilledSession prepareProbability rand fuel fuel

end Model

/-! ## Transactions -/

section Txns

variable {t t' : Txn} {r : Request} {result : Except TxnError Response}

/-- `t'` is `t` after a request with this result. -/
structure Answers (t : Txn) (r : Request) (result : Except TxnError Response) (t' : Txn) : Prop where
  log : t'.log = (r, result) :: t.log
  committed : Entry.committed (r, result) = true → t'.status = .committed

theorem answers_of_eq {ans : Answer} (h : t.answered r ans = some t') : Answers t r ans.result t' := by
  unfold Txn.answered at h
  split_ifs at h with hallows
  cases h
  exact ⟨rfl, hallows.2.2.2⟩

theorem Txn.not_committed (h : t.mayHaveCommitted = false) : t.status ≠ .committed := by
  intro hc
  have hsent : t.commitSent = true := t.commit_of_committed hc
  rw [Txn.mayHaveCommitted, hsent, Bool.true_and, Bool.not_eq_false'] at h
  rw [t.aborted_of_labelled h] at hc
  cases hc

theorem Txn.mayHaveCommitted_of_commitSent (h : t.commitSent = false) : t.mayHaveCommitted = false := by
  rw [Txn.mayHaveCommitted, h, Bool.false_and]

theorem Answers.mayHaveCommitted (h : Answers t r result t')
    (hlabel : Entry.labelled (r, result) = true) : t'.mayHaveCommitted = false := by
  simp [Txn.mayHaveCommitted, Txn.labelled, h.log, hlabel]

theorem Answers.funcCompleted (h : Answers t r result t') (ht : t.funcCompleted = true) :
    t'.funcCompleted = true := by
  rw [Txn.funcCompleted, h.log, List.any_cons, Bool.or_eq_true]
  exact .inr ht

theorem Answers.commitSent (h : Answers t r result t') (hr : r ≠ .commit) (ht : t.commitSent = false) :
    t'.commitSent = false := by
  rw [Txn.commitSent, h.log, List.any_cons, decide_eq_false hr, Bool.false_or]
  exact ht

variable {shell : Shell}

theorem Answers.commitDropped (h : Answers t r result t') (hr : r ≠ .abort) :
    t'.commitDropped shell = false := by
  rw [Txn.commitDropped, h.log]
  cases r with
  | abort => exact absurd rfl hr
  | func | prepare | commit => rfl

theorem Answers.commitDropped_of_error {e : TxnError} (h : Answers t r (.error e) t') :
    t'.commitDropped shell = false := by
  rw [Txn.commitDropped, h.log]
  cases r <;> rfl

@[simp] theorem Txn.log_superseded : t.superseded.log = t.log := rfl

theorem Txn.status_superseded (h : t.mayHaveCommitted = false) : t.superseded.status = .aborted := by
  have hne := Txn.not_committed h
  show (if t.status = .active then .aborted else t.status) = TxnStatus.aborted
  cases hs : t.status with
  | active => rfl
  | committed => exact absurd hs hne
  | aborted => rfl

end Txns

/-! ## Rules -/

section Rules

variable {α : Type} {shell : Shell} {s : State} {t : Txn} {earlier : List Txn} {r : Request}
  {origin : Origin} {E : Exn → State → Prop} {S : State → Prop}

theorem wp_request {Q : Response → State → Prop} (hs : s.txns = t :: earlier) (hstop : S s)
    (hok : ∀ t' res answers, Answers t r (.ok res) t' →
      Q res { s with txns := t' :: earlier, answers := answers })
    (herror : ∀ t' e answers, Answers t r (.error e) t' →
      E ⟨e, origin⟩ { s with txns := t' :: earlier, answers := answers }) :
    wp (request r origin) Q E S s := by
  unfold wp request
  rw [hs]
  cases s.answers with
  | nil => exact hstop
  | cons ans answers =>
    dsimp only
    cases h : t.answered r ans with
    | none => exact hstop
    | some t' =>
      have hans := answers_of_eq h
      revert hans
      cases ans.result with
      | ok res => exact fun hans => hok t' res answers hans
      | error e => exact fun hans => herror t' e answers hans

theorem wp_assertNone {Q : Unit → State → Prop} {e : Option TxnError}
    (hok : e = none → Q () s) (herror : ∀ e', e = some e' → E ⟨e', origin⟩ s) :
    wp (assertNone e origin) Q E S s := by
  cases e with
  | none => exact hok rfl
  | some e' => exact herror e' rfl

end Rules

/-! ## One attempt -/

section Attempt

variable {shell : Shell} {s : State} {t t' : Txn} {earlier : List Txn}

/-- `func` has run to completion, and the transaction has committed unless a failed commit was
dropped. -/
structure Finished (shell : Shell) (t : Txn) : Prop where
  completed : t.funcCompleted = true
  committed : t.commitDropped shell = false → t.status = .committed

/-- The attempt threw `e`. -/
structure Failed (shell : Shell) (e : Exn) (t : Txn) : Prop where
  kept : t.commitDropped shell = false
  labelled : isTransientLabelled e.error.errorLabels = true → t.mayHaveCommitted = false
  other : e.origin ≠ .commit → t.mayHaveCommitted = false

/-- The newest transaction, and what stays. -/
def Newest (s : State) (earlier : List Txn) (P : Txn → Prop) (s' : State) : Prop :=
  ∃ t', s'.txns = t' :: earlier ∧ s'.hasTransientError = s.hasTransientError ∧
    s'.hasCommitTxnError = s.hasCommitTxnError ∧ P t'

/-- What a part of the attempt does to the newest transaction. -/
def Part {α : Type} (shell : Shell) (m : M α) (s : State) (earlier : List Txn) (P : Txn → Prop) : Prop :=
  wp m (fun _ => Newest s earlier P) (fun e => Newest s earlier (Failed shell e))
    (Newest s earlier fun t => t.commitDropped shell = false) s

theorem failed_of_labelled {e : TxnError} (hkept : t.commitDropped shell = false)
    (h : isTransientLabelled e.errorLabels = true → t.mayHaveCommitted = false) :
    Failed shell ⟨e, .commit⟩ t :=
  ⟨hkept, h, fun hne => absurd rfl hne⟩

theorem Answers.failed {r : Request} {e : TxnError} (h : Answers t r (.error e) t') :
    Failed shell ⟨e, .commit⟩ t' := by
  refine failed_of_labelled h.commitDropped_of_error fun hl => h.mayHaveCommitted ?_
  cases r <;> exact hl

theorem failed_of_not_sent {e : Exn} (hkept : t.commitDropped shell = false)
    (h : t.commitSent = false) : Failed shell e t :=
  ⟨hkept, fun _ => t.mayHaveCommitted_of_commitSent h, fun _ => t.mayHaveCommitted_of_commitSent h⟩

theorem part_commitTransactionWithKilledSessionRetries {retryOnKilledSession : Bool} (fuel : ℕ)
    (hs : s.txns = t :: earlier) (hkept : t.commitDropped shell = false)
    (hfunc : t.funcCompleted = true) :
    Part shell (commitTransactionWithKilledSessionRetries shell retryOnKilledSession fuel) s earlier
      (Finished shell) := by
  induction fuel generalizing s t with
  | zero => exact ⟨t, hs, rfl, rfl, hkept⟩
  | succ fuel ih =>
    rw [Part, commitTransactionWithKilledSessionRetries, wp_bind]
    refine wp_request hs ⟨t, hs, rfl, rfl, hkept⟩ (fun t' res answers hans => ?_)
      fun t' e answers hans => ?_
    · have hkept' : t'.commitDropped shell = false := hans.commitDropped (by decide)
      rw [wp_ite]
      refine ⟨fun _ => ih rfl hkept' (hans.funcCompleted hfunc), fun _ => ?_⟩
      refine wp_assertNone (fun hnone => ?_) fun e he => ?_
      · have hcommitted := hans.committed (shell.ok_of_commandWorked hnone)
        exact ⟨t', rfl, rfl, rfl, hans.funcCompleted hfunc, fun _ => hcommitted⟩
      · exact ⟨t', rfl, rfl, rfl, failed_of_labelled hkept' fun hl =>
          hans.mayHaveCommitted (shell.labels_of_commandWorked he hl)⟩
    · exact ⟨t', rfl, rfl, rfl, hans.failed⟩

theorem part_commitTransaction (hs : s.txns = t :: earlier) (hkept : t.commitDropped shell = false)
    (hfunc : t.funcCompleted = true) :
    Part shell (commitTransaction shell) s earlier (Finished shell) := by
  rw [Part, commitTransaction, wp_bind]
  refine wp_request hs ⟨t, hs, rfl, rfl, hkept⟩ (fun t₁ res answers hans => ?_)
    fun t' e answers hans => ?_
  · have hkept₁ : t₁.commitDropped shell = false := hans.commitDropped (by decide)
    have hfunc₁ := hans.funcCompleted hfunc
    rw [wp_bind, endOnShellSession, wp_ite]
    refine ⟨fun _ => ?_, fun hres => ?_⟩
    · rw [wp_bind]
      refine wp_request rfl ⟨t₁, rfl, rfl, rfl, hkept₁⟩ (fun t' res' answers' hans' => ?_)
        fun t' e answers' hans' => ?_
      · refine wp_assertNone (fun hnone => ?_) fun e he => ?_
        · have hcommitted := hans'.committed (shell.ok_of_commandWorked hnone)
          exact ⟨t', rfl, rfl, rfl, hans'.funcCompleted hfunc₁, fun _ => hcommitted⟩
        · exact ⟨t', rfl, rfl, rfl, failed_of_labelled (hans'.commitDropped (by decide)) fun hl =>
            hans'.mayHaveCommitted (shell.labels_of_commandWorked he hl)⟩
      · exact ⟨t', rfl, rfl, rfl, hans'.failed⟩
    · rw [wp_bind]
      refine wp_request rfl ⟨t₁, rfl, rfl, rfl, hkept₁⟩ (fun t' res' answers' hans' => ?_)
        fun t' e answers' hans' => ?_
      · have hdropped : t'.commitDropped shell = (shell.commandWorkedOrFailedWithCode res'
            [shell.errorCodes.noSuchTransaction]).isNone := by
          rw [Txn.commitDropped, hans'.log, hans.log]
          simp [hres]
        refine wp_assertNone (fun hnone => ?_) fun e he => ?_
        · have htrue : t'.commitDropped shell = true := by rw [hdropped, hnone, Option.isNone_none]
          exact ⟨t', rfl, rfl, rfl, hans'.funcCompleted hfunc₁, fun hfalse =>
            absurd (htrue.symm.trans hfalse) (by decide)⟩
        · have hfalse : t'.commitDropped shell = false := by rw [hdropped, he, Option.isNone_some]
          exact ⟨t', rfl, rfl, rfl, failed_of_labelled hfalse fun hl =>
            hans'.mayHaveCommitted (shell.labels_of_failed he hl)⟩
      · exact ⟨t', rfl, rfl, rfl, hans'.failed⟩
  · exact ⟨t', rfl, rfl, rfl, hans.failed⟩

/-- `func` has run to completion, and no commit was sent. -/
structure Uncommitted (shell : Shell) (t : Txn) : Prop where
  completed : t.funcCompleted = true
  kept : t.commitDropped shell = false
  unsent : t.commitSent = false

theorem Newest.trans {s' s'' : State} {P P' : Txn → Prop} (h : Newest s earlier P s')
    (h' : Newest s' earlier P' s'') : Newest s earlier P' s'' := by
  obtain ⟨-, -, htransient, hcommit, -⟩ := h
  obtain ⟨t'', htxns, htransient', hcommit', hP⟩ := h'
  exact ⟨t'', htxns, htransient'.trans htransient, hcommit'.trans hcommit, hP⟩

theorem Part.bind {α β : Type} {m : M α} {f : α → M β} {P P' : Txn → Prop}
    (hm : Part shell m s earlier P)
    (hf : ∀ a s' t', s'.txns = t' :: earlier → P t' → Part shell (f a) s' earlier P') :
    Part shell (m >>= f) s earlier P' := by
  rw [Part, wp_bind]
  refine wp.mono hm (fun a s' h => ?_) (fun _ _ h => h) fun _ h => h
  obtain ⟨t', htxns, -, -, hP⟩ := id h
  exact wp.mono (hf a s' t' htxns hP) (fun _ _ h' => h.trans h') (fun _ _ h' => h.trans h')
    fun _ h' => h.trans h'

theorem Part.pure {α : Type} {P : Txn → Prop} (a : α) (hs : s.txns = t :: earlier) (hP : P t) :
    Part shell (pure a : M α) s earlier P :=
  ⟨t, hs, rfl, rfl, hP⟩

theorem part_prepareTransaction (hs : s.txns = t :: earlier) (ht : Uncommitted shell t) :
    Part shell (prepareTransaction shell) s earlier (Uncommitted shell) := by
  have hassert : ∀ (e : Option TxnError) s' t', s'.txns = t' :: earlier → Uncommitted shell t' →
      Part shell (assertNone e .prepare) s' earlier (Uncommitted shell) := by
    intro e s' t' hs' ht'
    exact wp_assertNone (fun _ => ⟨t', hs', rfl, rfl, ht'⟩)
      fun _ _ => ⟨t', hs', rfl, rfl, failed_of_not_sent ht'.kept ht'.unsent⟩
  refine Part.bind (P := Uncommitted shell) ?_ fun res s' t' hs' ht' =>
    Part.bind (hassert _ s' t' hs' ht') fun _ => hassert _
  refine wp_request hs ⟨t, hs, rfl, rfl, ht.kept⟩ (fun t' res answers hans => ?_)
    fun t' e answers hans => ?_
  · exact ⟨t', rfl, rfl, rfl, hans.funcCompleted ht.completed, hans.commitDropped (by decide),
      hans.commitSent (by decide) ht.unsent⟩
  · exact ⟨t', rfl, rfl, rfl, failed_of_not_sent hans.commitDropped_of_error
      (hans.commitSent (by decide) ht.unsent)⟩

variable {retryOnKilledSession : Bool} {prepareProbability : ℚ} {rand : ℕ → ℚ}

theorem part_commitAttempt (fuel : ℕ) (hs : s.txns = t :: earlier) (ht : Uncommitted shell t) :
    Part shell (commitAttempt shell retryOnKilledSession prepareProbability rand fuel) s earlier
      (Finished shell) := by
  rw [Part, commitAttempt, wp_bind, wp_get, wp_ite]
  refine ⟨fun _ => ?_, fun _ => ?_⟩
  · refine Part.bind (part_prepareTransaction hs ht) fun _ s' t' hs' ht' => ?_
    exact Part.bind (part_commitTransaction hs' ht'.kept ht'.completed) fun _ s'' t'' hs'' ht'' =>
      Part.pure () hs'' ht''
  · exact part_commitTransactionWithKilledSessionRetries fuel hs ht.kept ht.completed

end Attempt

/-! ## All attempts -/

section Attempts

variable {shell : Shell} {s : State} {t : Txn} {earlier : List Txn}

/-- An attempt that is over: its transaction is aborted, and no commit that it sent may have
succeeded. -/
structure Settled (shell : Shell) (u : Txn) : Prop where
  aborted : u.status = .aborted
  lost : u.mayHaveCommitted = false
  kept : u.commitDropped shell = false

/-- The attempts before the newest are over. -/
def Past (shell : Shell) (s : State) : Prop := ∀ u ∈ s.txns.tail, Settled shell u

/-- The next attempt may start. -/
structure Ready (shell : Shell) (s : State) : Prop where
  past : Past shell s
  lost : ∀ u ∈ s.txns, u.mayHaveCommitted = false
  kept : ∀ u ∈ s.txns, u.commitDropped shell = false

structure Returned (shell : Shell) (s : State) : Prop where
  past : Past shell s
  finished : ∃ t ∈ s.txns.head?, Finished shell t

structure Threw (shell : Shell) (e : Exn) (s : State) : Prop where
  past : Past shell s
  kept : ∀ u ∈ s.txns, u.commitDropped shell = false
  other : e.origin ≠ .commit → ∀ u ∈ s.txns, u.mayHaveCommitted = false

structure Stopped (shell : Shell) (s : State) : Prop where
  past : Past shell s
  kept : ∀ u ∈ s.txns, u.commitDropped shell = false

theorem Ready.superseded (h : Ready shell s) :
    ∀ u ∈ s.txns.map Txn.superseded, Settled shell u := by
  intro u hu
  obtain ⟨t, ht, rfl⟩ := List.mem_map.mp hu
  exact ⟨Txn.status_superseded (h.lost t ht), h.lost t ht, h.kept t ht⟩

/-- The state after an attempt, whatever its newest transaction. -/
theorem forall_mem_txns {P : Txn → Prop} (hs : s.txns = t :: earlier) (ht : P t)
    (hearlier : ∀ u ∈ earlier, P u) : ∀ u ∈ s.txns, P u := by
  rw [hs]
  exact List.forall_mem_cons.mpr ⟨ht, hearlier⟩

theorem past_of_eq (hs : s.txns = t :: earlier) (hearlier : ∀ u ∈ earlier, Settled shell u) : Past shell s := by
  rw [Past, hs]
  exact hearlier

variable {retryOnKilledSession : Bool} {prepareProbability : ℚ} {rand : ℕ → ℚ}

/-- The end of the catch clause: the error is retried, or thrown again. -/
theorem wp_retryOrThrow {c : Bool} {e : Exn} (hs : s.txns = t :: earlier)
    (hearlier : ∀ u ∈ earlier, Settled shell u) (hfailed : Failed shell e t)
    (hlost : c = true → t.mayHaveCommitted = false) :
    wp (if c = true then Prog.modify fun s => { s with hasTransientError := true } else Prog.throw e)
      (fun _ s' => if s'.hasTransientError = true then Ready shell s' else Returned shell s')
      (Threw shell) (Stopped shell) s := by
  have hkept := forall_mem_txns hs hfailed.kept fun u hu => (hearlier u hu).kept
  rw [wp_ite]
  refine ⟨fun hc => ?_, fun _ => ?_⟩
  · rw [wp_modify, if_pos rfl]
    exact ⟨past_of_eq hs hearlier, forall_mem_txns hs (hlost hc) fun u hu => (hearlier u hu).lost, hkept⟩
  · exact ⟨past_of_eq hs hearlier, hkept, fun hne =>
      forall_mem_txns hs (hfailed.other hne) fun u hu => (hearlier u hu).lost⟩

/-- An error of the commit is only retried with the label. -/
theorem wp_onError_commit {e : Exn} (hs : s.txns = t :: earlier)
    (hearlier : ∀ u ∈ earlier, Settled shell u) (hfailed : Failed shell e t)
    (hcommit : s.hasCommitTxnError = true) :
    wp (onError shell retryOnKilledSession e)
      (fun _ s' => if s'.hasTransientError = true then Ready shell s' else Returned shell s')
      (Threw shell) (Stopped shell) s := by
  rw [onError, wp_bind, wp_get, hcommit, wp_bind, abortAfterError, if_pos rfl, wp_pure]
  refine wp_retryOrThrow hs hearlier hfailed fun hretry => hfailed.labelled ?_
  unfold shouldRetryEntireTxnOnError at hretry
  by_contra hlabel
  rw [if_neg hlabel, if_pos rfl] at hretry
  cases hretry

/-- The transaction of an attempt whose `func` threw is aborted. -/
theorem wp_onError_func {e : Exn} {result : Except TxnError Response} (hs : s.txns = t :: earlier)
    (hearlier : ∀ u ∈ earlier, Settled shell u) (hlog : t.log = [(.func, result)])
    (hcommit : s.hasCommitTxnError = false) :
    wp (onError shell retryOnKilledSession e)
      (fun _ s' => if s'.hasTransientError = true then Ready shell s' else Returned shell s')
      (Threw shell) (Stopped shell) s := by
  have hunsent : t.commitSent = false := by
    rw [Txn.commitSent, hlog]
    rfl
  have hkept : t.commitDropped shell = false := by
    rw [Txn.commitDropped, hlog]
  have hdropped : ∀ t' result', Answers t .abort result' t' → t'.commitDropped shell = false := by
    intro t' result' hans
    rw [Txn.commitDropped, hans.log, hlog]
    cases result' <;> rfl
  have hlost : ∀ t' result', Answers t .abort result' t' → t'.commitSent = false := by
    intro t' result' hans
    exact hans.commitSent (by decide) hunsent
  rw [onError, wp_bind, wp_get, hcommit, wp_bind, abortAfterError, if_neg (by decide), wp_bind]
  refine wp_request hs ⟨past_of_eq hs hearlier, forall_mem_txns hs hkept fun u hu =>
    (hearlier u hu).kept⟩ (fun t' res answers hans => ?_) fun t' e' answers hans => ?_
  · have hfailed : ∀ e', Failed shell e' t' := fun e' =>
      failed_of_not_sent (hdropped t' _ hans) (hlost t' _ hans)
    refine wp_assertNone (fun _ => ?_) fun e' _ => ?_
    · exact wp_retryOrThrow rfl hearlier (hfailed e) fun _ =>
        t'.mayHaveCommitted_of_commitSent (hlost t' _ hans)
    · exact ⟨hearlier, List.forall_mem_cons.mpr ⟨(hfailed ⟨e', .abort⟩).kept, fun u hu =>
        (hearlier u hu).kept⟩, fun hne => List.forall_mem_cons.mpr ⟨(hfailed ⟨e', .abort⟩).other hne,
        fun u hu => (hearlier u hu).lost⟩⟩
  · have hfailed : Failed shell ⟨e', .abort⟩ t' :=
      failed_of_not_sent (hdropped t' _ hans) (hlost t' _ hans)
    exact ⟨hearlier, List.forall_mem_cons.mpr ⟨hfailed.kept, fun u hu => (hearlier u hu).kept⟩,
      fun hne => List.forall_mem_cons.mpr ⟨hfailed.other hne, fun u hu => (hearlier u hu).lost⟩⟩

theorem wp_attempt (fuel : ℕ) (h : Ready shell s) :
    wp (attempt shell retryOnKilledSession prepareProbability rand fuel)
      (fun _ s' => if s'.hasTransientError = true then Ready shell s' else Returned shell s')
      (Threw shell) (Stopped shell) s := by
  have hearlier := h.superseded
  rw [attempt, wp_bind, startTransaction, wp_modify, wp_bind, wp_modify, wp_tryCatch, wp_bind]
  have hnew : Txn.new.commitDropped shell = false := rfl
  refine wp_request rfl ⟨hearlier, List.forall_mem_cons.mpr ⟨hnew, fun u hu => (hearlier u hu).kept⟩⟩
    (fun t res answers hans => ?_) fun t e answers hans => ?_
  · have ht : Uncommitted shell t := by
      refine ⟨?_, hans.commitDropped (by decide), hans.commitSent (by decide) rfl⟩
      rw [Txn.funcCompleted, hans.log]
      rfl
    rw [wp_tryCatch]
    refine wp.mono (part_commitAttempt fuel rfl ht) (fun _ s' hs' => ?_) (fun e s' hs' => ?_)
      fun s' hs' => ?_
    · obtain ⟨t', htxns, htransient, -, hfinished⟩ := hs'
      rw [if_neg (by simp [htransient])]
      exact ⟨past_of_eq htxns hearlier, t', by rw [htxns]; rfl, hfinished⟩
    · obtain ⟨t', htxns, -, -, hfailed⟩ := hs'
      rw [wp_bind, wp_modify, wp_throw]
      exact wp_onError_commit htxns hearlier hfailed rfl
    · obtain ⟨t', htxns, -, -, hkept⟩ := hs'
      exact ⟨past_of_eq htxns hearlier, forall_mem_txns htxns hkept fun u hu => (hearlier u hu).kept⟩
  · exact wp_onError_func rfl hearlier hans.log rfl

theorem wp_attempts (fuel n : ℕ) (h : Ready shell s) :
    wp (attempts shell retryOnKilledSession prepareProbability rand fuel n)
      (fun _ => Returned shell) (Threw shell) (Stopped shell) s := by
  induction n generalizing s with
  | zero => exact ⟨h.past, h.kept⟩
  | succ n ih =>
    rw [attempts, wp_bind]
    refine wp.imp (wp_attempt fuel h) fun _ s' hs' => ?_
    rw [wp_bind, wp_get, wp_ite]
    refine ⟨fun htransient => ?_, fun htransient => ?_⟩
    · rw [if_pos htransient] at hs'
      exact ih hs'
    · rw [if_neg htransient] at hs'
      exact hs'

theorem wp_withTxnAndAutoRetry (fuel : ℕ) (answers : List Answer) :
    wp (withTxnAndAutoRetry shell retryOnKilledSession prepareProbability rand fuel)
      (fun _ => Returned shell) (Threw shell) (Stopped shell) { answers := answers } := by
  have hnil : ∀ P : Txn → Prop, ∀ u ∈ ([] : List Txn), P u := fun P => List.forall_mem_nil P
  rw [withTxnAndAutoRetry, wp_bind]
  refine wp_assertNone (fun _ => ?_) fun e _ => ?_
  · exact wp_attempts fuel fuel ⟨hnil _, hnil _, hnil _⟩
  · exact ⟨hnil _, hnil _, fun _ => hnil _⟩

/-- Exactly once: the attempts before the last are aborted, and no commit that they sent may have
succeeded; at a return the last one has committed and its `func` has run to completion; and where the
error does not come from committing, none has committed. -/
def ExactlyOnce (outcome : Outcome Exn Unit) (txns : List Txn) : Prop :=
  (∀ u ∈ txns.tail, u.status = .aborted ∧ u.mayHaveCommitted = false) ∧
  match outcome with
  | .ok () => ∃ t ∈ txns.head?, t.status = .committed ∧ t.funcCompleted = true
  | .error e => e.origin ≠ .commit → ∀ u ∈ txns, u.status ≠ .committed
  | .stop => True

/-- **Exactly once, unless a failed commit was dropped**: for every probability of a prepare and every
sequence of answers. -/
theorem exactlyOnce_iff (shell : Shell) (retryOnKilledSession : Bool) (prepareProbability : ℚ)
    (rand : ℕ → ℚ) (fuel : ℕ) (answers : List Answer) :
    let r := withTxnAndAutoRetry shell retryOnKilledSession prepareProbability rand fuel
      { answers := answers }
    ExactlyOnce r.1 r.2.txns ↔
      ∀ t ∈ r.2.txns, t.commitDropped shell = true → t.status = .committed := by
  intro r
  have h : ends (fun _ => Returned shell) (Threw shell) (Stopped shell) r :=
    wp_withTxnAndAutoRetry fuel answers
  have hpast : ∀ s' : State, Past shell s' →
      ∀ u ∈ s'.txns.tail, u.status = .aborted ∧ u.mayHaveCommitted = false :=
    fun s' hp u hu => ⟨(hp u hu).aborted, (hp u hu).lost⟩
  have hvacuous : ∀ s' : State, (∀ u ∈ s'.txns, u.commitDropped shell = false) →
      ∀ t ∈ s'.txns, t.commitDropped shell = true → t.status = .committed := by
    intro s' hkept t ht hdropped
    exact absurd ((hkept t ht).symm.trans hdropped) (by decide)
  revert h
  obtain ⟨outcome, s'⟩ := r
  cases outcome with
  | stop =>
    intro h
    exact iff_of_true ⟨hpast s' h.past, trivial⟩ (hvacuous s' h.kept)
  | error e =>
    intro h
    exact iff_of_true ⟨hpast s' h.past, fun hne u hu => u.not_committed (h.other hne u hu)⟩
      (hvacuous s' h.kept)
  | ok _ =>
    intro h
    obtain ⟨t, ht, hfinished⟩ := h.finished
    constructor
    · rintro ⟨-, t', ht', hcommitted, -⟩ u hu hdropped
      have heq : t' = t := Option.some.inj (ht'.symm.trans ht)
      have htxns : s'.txns = t :: s'.txns.tail := (List.cons_head?_tail ht).symm
      rw [htxns] at hu
      rcases List.mem_cons.mp hu with rfl | hu
      · exact heq ▸ hcommitted
      · exact absurd ((h.past u hu).kept.symm.trans hdropped) (by decide)
    · intro hcond
      refine ⟨hpast s' h.past, t, ht, ?_, hfinished.completed⟩
      by_cases hdropped : t.commitDropped shell = true
      · exact hcond t (List.mem_of_mem_head? ht) hdropped
      · exact hfinished.committed (Bool.eq_false_iff.mpr hdropped)

/-- A shell whose assertions look at `ok` and the code. -/
def simpleShell : Shell where
  errorCodes := ⟨11601, 237, 43, 251⟩
  isNetworkError e := e.code = some 6
  commandWorked res := if res.ok then none else some ⟨res.errorLabels, res.code, none⟩
  commandWorkedOrFailedWithCode res codes :=
    if res.ok || codes.any (res.code = some ·) then none else some ⟨res.errorLabels, res.code, none⟩
  prepareTimestampFailed _ := none
  ok_of_commandWorked {res} h := by
    by_contra hok
    rw [if_neg hok] at h
    cases h
  labels_of_commandWorked {res e} h hl := by
    split_ifs at h
    cases h
    exact hl
  labels_of_failed {res codes e} h hl := by
    split_ifs at h
    cases h
    exact hl

/-- The transaction is prepared, and aborted by the server before the commit gets there. -/
def failedCommit : List Answer :=
  [⟨.ok ⟨true, none, none⟩, .active⟩, ⟨.ok ⟨true, none, none⟩, .active⟩,
    ⟨.ok ⟨false, some 251, some ["TransientTransactionError"]⟩, .aborted⟩,
    ⟨.ok ⟨false, some 251, some ["TransientTransactionError"]⟩, .aborted⟩]

/-- `withTxnAndAutoRetry` returns after one attempt, and nothing has committed. -/
theorem not_exactlyOnce :
    let r := withTxnAndAutoRetry simpleShell false 1 (fun _ => 0) 1 { answers := failedCommit }
    r.1 = .ok () ∧ r.2.txns.map Txn.status = [.aborted] ∧ ¬ ExactlyOnce r.1 r.2.txns := by
  have hrun : ∃ t, withTxnAndAutoRetry simpleShell false 1 (fun _ => 0) 1 { answers := failedCommit } =
      (.ok (), { txns := [t] }) ∧ t.status = .aborted := ⟨_, rfl, rfl⟩
  obtain ⟨t, hrun, haborted⟩ := hrun
  rw [hrun]
  refine ⟨rfl, by simp [haborted], ?_⟩
  rintro ⟨-, t', ht', hcommitted, -⟩
  cases ht'
  rw [haborted] at hcommitted
  cases hcommitted

end Attempts

end MongoTests.Fsm.AutoRetry
