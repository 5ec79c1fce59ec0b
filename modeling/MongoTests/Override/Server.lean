import MongoTests.Override.Command

/-!
# The server's transaction of a session

What the server does with one request of the session, as far as transactions go. An answer says
what the shell sees (a response or an exception), what the server did, and whether the server had
dropped the open transaction before; `handle` admits the answers that keep the server's rules:
statements go to the transaction of their `txnNumber`, `startTransaction` needs a higher number and
ends the older transaction, an error on a statement aborts its transaction, a commit can be
repeated, and statements in a transaction return no write concern error. An exception may come
before the request had an effect, after it succeeded, or after it failed.

* `Server`, `Answer`, `handle`;
* `handle_statement_ok`, `handle_commit_ok`: what a response without an error says;
* `Kept`: a transaction is not touched, except that it may be aborted or committed; `handle_kept`.
-/

namespace MongoTests.Override

/-- An entry of `ops`, a request, or a statement of a transaction. -/
structure Op where
  dbName : String
  cmdObj : Cmd
  deriving DecidableEq, Repr

/-- The command as the test issued it: without what the override adds or refreshes. -/
def Op.issued (op : Op) : Op :=
  { op with
    cmdObj :=
      { op.cmdObj with
        readConcern := none
        writeConcern := none
        txnNumber := none
        stmtId := none
        autocommit := false
        startTransaction := false } }

inductive TxnStatus
  | inProgress
  | committed
  | aborted
  deriving DecidableEq, Repr

/-- The latest transaction of the session. -/
structure Server where
  number : ℤ
  status : TxnStatus
  stmts : List Op
  deriving DecidableEq, Repr

/-- What the server did with a request. -/
inductive Effect
  | untouched
  | applied
  | failed
  deriving DecidableEq, Repr

structure Answer where
  result : Except Exn Response
  effect : Effect
  /-- The open transaction had been dropped (it expired, or there was a failover). -/
  lost : Bool := false
  /-- `Date.now()` afterwards. -/
  now : ℕ := 0

/-- A statement of a multi-statement transaction. -/
def isStatement (cmdObj : Cmd) : Bool :=
  isCmdInTransaction cmdObj && !isCommitOrAbort cmdObj.name

namespace Server

variable {srv srv' srv'' : Server} {op : Op} {ans : Answer} {res : Response} {m n : ℤ}

/-- The server dropped the open transaction. -/
def lose (srv : Server) (lost : Bool) : Server :=
  if lost ∧ srv.status = .inProgress then { srv with status := .aborted } else srv

/-- The request succeeded; `none` when it cannot. -/
def apply (srv : Server) (op : Op) : Option Server :=
  match isCmdInTransaction op.cmdObj, op.cmdObj.txnNumber with
  | true, none => none
  | true, some n =>
    if op.cmdObj.name = "commitTransaction" then
      if n = srv.number ∧ srv.status ≠ .aborted then some { srv with status := .committed } else none
    else if op.cmdObj.name = "abortTransaction" then
      if n ≠ srv.number then some srv
      else if srv.status = .committed then none else some { srv with status := .aborted }
    else if op.cmdObj.startTransaction then
      if srv.number < n then some ⟨n, .inProgress, [op.issued]⟩ else none
    else if n = srv.number ∧ srv.status = .inProgress then
      some { srv with stmts := srv.stmts ++ [op.issued] }
    else none
  | false, none => some srv
  -- a retryable write with a higher number ends the transaction before it
  | false, some n => some (if srv.number < n then ⟨n, .aborted, []⟩ else srv)

def fail (srv : Server) (op : Op) : Server :=
  match isCmdInTransaction op.cmdObj, op.cmdObj.txnNumber with
  | true, some n =>
    if n = srv.number ∧ srv.status = .inProgress then { srv with status := .aborted }
    else if isStatement op.cmdObj ∧ op.cmdObj.startTransaction ∧ srv.number < n then
      ⟨n, .aborted, []⟩
    else srv
  | _, _ => srv

def Lawful (srv : Server) (op : Op) (effect : Effect) (res : Response) : Prop :=
  (hasError res = false → effect = .applied) ∧
    (isStatement op.cmdObj → hasWriteConcernError res = false ∧
      (hasError res → effect = .failed ∨
        effect = .untouched ∧ ¬ (op.cmdObj.txnNumber = some srv.number ∧ srv.status = .inProgress)))

instance (effect : Effect) : Decidable (Lawful srv op effect res) :=
  inferInstanceAs (Decidable (_ ∧ _))

/-- Any effect goes with an exception. -/
def Admits (srv : Server) (op : Op) (ans : Answer) : Prop :=
  match ans.result with
  | .ok res => Lawful srv op ans.effect res
  | .error _ => True

instance : Decidable (Admits srv op ans) :=
  match h : ans.result with
  | .ok res => decidable_of_iff (Lawful srv op ans.effect res) (by simp [Admits, h])
  | .error _ => isTrue (by simp [Admits, h])

def perform (srv : Server) (op : Op) : Effect → Option Server
  | .untouched => some srv
  | .applied => srv.apply op
  | .failed => some (srv.fail op)

/-- **One request**; `none` when the server cannot answer so. -/
def handle (srv : Server) (op : Op) (ans : Answer) : Option Server :=
  if Admits (srv.lose ans.lost) op ans then (srv.lose ans.lost).perform op ans.effect else none

/-- Transaction `m`, where it is still the latest and not aborted, is the one it was. -/
def Kept (m : ℤ) (srv srv' : Server) : Prop :=
  srv'.number = m → srv'.status ≠ .aborted →
    srv.number = m ∧ srv.status ≠ .aborted ∧ srv'.stmts = srv.stmts

theorem Kept.refl (m : ℤ) (srv : Server) : Kept m srv srv := fun h hs => ⟨h, hs, rfl⟩

theorem Kept.trans (h : Kept m srv srv') (h' : Kept m srv' srv'') : Kept m srv srv'' := by
  intro hn hs
  obtain ⟨hn', hs', he'⟩ := h' hn hs
  obtain ⟨hn'', hs'', he⟩ := h hn' hs'
  exact ⟨hn'', hs'', he'.trans he⟩

/-- Another status leaves the statements alone, and nothing brings an aborted transaction back. -/
theorem Kept.of_status {st : TxnStatus} (h : st = .aborted ∨ srv.status ≠ .aborted) :
    Kept m srv { srv with status := st } := by
  intro hn hs
  exact ⟨hn, h.resolve_left hs, rfl⟩

theorem Kept.of_number {st : TxnStatus} {stmts : List Op} (h : m ≠ n) : Kept m srv ⟨n, st, stmts⟩ :=
  fun hn _ => absurd hn.symm h

@[simp] theorem number_lose (lost : Bool) : (srv.lose lost).number = srv.number := by
  unfold lose
  split <;> rfl

/-- A transaction that is not aborted has not been dropped. -/
theorem lose_eq {lost : Bool} (h : (srv.lose lost).status ≠ .aborted) : srv.lose lost = srv := by
  unfold lose at h ⊢
  split
  · rename_i hl
    simp [hl] at h
  · rfl

theorem kept_lose (m : ℤ) (lost : Bool) : Kept m srv (srv.lose lost) := by
  unfold lose
  split
  · exact .of_status (.inl rfl)
  · exact .refl m srv

/-- Requests that leave the transactions up to `m` alone: statements of a later one, and
everything that is not a statement. -/
def Spares (m : ℤ) (cmdObj : Cmd) : Prop :=
  (∀ n, cmdObj.txnNumber = some n → m < n) ∨
    isCmdInTransaction cmdObj = true ∧ isStatement cmdObj = false

theorem kept_apply (h : Spares m op.cmdObj) (ha : srv.apply op = some srv') : Kept m srv srv' := by
  unfold apply at ha
  split at ha
  · cases ha
  · rename_i n hin hn
    split at ha
    · split at ha
      · cases ha
        rename_i hc
        exact .of_status (.inr hc.2)
      · cases ha
    · rename_i hcommit
      split at ha
      · rename_i habort
        split at ha
        · cases ha
          exact .refl m srv
        · split at ha
          · cases ha
          · cases ha
            exact .of_status (.inl rfl)
      · rename_i habort
        -- only a statement gets here
        have hm : m < n := by
          rcases h with h | ⟨_, hs⟩
          · exact h n hn
          · simp [isStatement, hin, isCommitOrAbort, hcommit, habort] at hs
        split at ha
        · split at ha
          · cases ha
            exact .of_number hm.ne
          · cases ha
        · split at ha
          · rename_i hc
            cases ha
            intro hn' _
            exact absurd (hn'.symm.trans hc.1.symm) hm.ne
          · cases ha
  · cases ha
    exact .refl m srv
  · rename_i n hin hn
    cases ha
    split
    · rcases h with h | ⟨ht, _⟩
      · exact .of_number (h n hn).ne
      · simp [hin] at ht
    · exact .refl m srv

theorem kept_fail (h : Spares m op.cmdObj) : Kept m srv (srv.fail op) := by
  unfold fail
  split
  · rename_i n hin hn
    split
    · exact .of_status (.inl rfl)
    · split
      · rename_i hs
        rcases h with h | ⟨_, hns⟩
        · exact .of_number (h n hn).ne
        · simp [hns] at hs
      · exact .refl m srv
  · exact .refl m srv

/-- **What a request leaves alone.** -/
theorem handle_kept (h : Spares m op.cmdObj) (hh : srv.handle op ans = some srv') :
    Kept m srv srv' := by
  unfold handle at hh
  split at hh
  · refine (kept_lose m ans.lost).trans ?_
    cases he : ans.effect with
    | untouched =>
      simp only [he, perform, Option.some.injEq] at hh
      exact hh ▸ .refl m _
    | applied =>
      simp only [he, perform] at hh
      exact kept_apply h hh
    | failed =>
      simp only [he, perform, Option.some.injEq] at hh
      exact hh ▸ kept_fail h
  · cases hh

theorem handle_ok (hr : ans.result = .ok res) (hh : srv.handle op ans = some srv') :
    Lawful (srv.lose ans.lost) op ans.effect res ∧
      (srv.lose ans.lost).perform op ans.effect = some srv' := by
  unfold handle at hh
  split at hh
  · rename_i hl
    exact ⟨by simpa [Admits, hr] using hl, hh⟩
  · cases hh

theorem handle_ok_apply (hr : ans.result = .ok res) (he : hasError res = false)
    (hh : srv.handle op ans = some srv') : (srv.lose ans.lost).apply op = some srv' := by
  obtain ⟨hl, hp⟩ := handle_ok hr hh
  rw [hl.1 he] at hp
  exact hp

/-- No write concern error on a statement. -/
theorem handle_statement_wce (hs : isStatement op.cmdObj = true) (hr : ans.result = .ok res)
    (hh : srv.handle op ans = some srv') : hasWriteConcernError res = false :=
  ((handle_ok hr hh).1.2 hs).1

/-- **A statement succeeded**: it began its transaction, or went to the end of the open one. -/
theorem handle_statement_ok (hs : isStatement op.cmdObj = true) (hr : ans.result = .ok res)
    (he : hasError res = false) (hh : srv.handle op ans = some srv') :
    ∃ n, op.cmdObj.txnNumber = some n ∧
      (op.cmdObj.startTransaction = true ∧ srv.number < n ∧ srv' = ⟨n, .inProgress, [op.issued]⟩ ∨
        op.cmdObj.startTransaction = false ∧ srv.number = n ∧ srv.status = .inProgress ∧
          srv' = ⟨n, .inProgress, srv.stmts ++ [op.issued]⟩) := by
  have ha := handle_ok_apply hr he hh
  simp only [isStatement, isCommitOrAbort, Bool.and_eq_true, Bool.not_eq_true', Bool.or_eq_false_iff,
    decide_eq_false_iff_not] at hs
  obtain ⟨hin, hcommit, habort⟩ := hs
  unfold apply at ha
  rw [hin] at ha
  cases hn : op.cmdObj.txnNumber with
  | none => simp [hn] at ha
  | some n =>
    simp only [hn, if_neg hcommit, if_neg habort] at ha
    refine ⟨n, rfl, ?_⟩
    cases hst : op.cmdObj.startTransaction with
    | true =>
      simp only [hst, if_true, Option.ite_none_right_eq_some, Option.some.injEq] at ha
      rw [number_lose] at ha
      exact .inl ⟨rfl, ha.1, ha.2.symm⟩
    | false =>
      simp only [hst, Bool.false_eq_true, if_false, Option.ite_none_right_eq_some,
        Option.some.injEq] at ha
      obtain ⟨⟨hnum, hstatus⟩, hsrv⟩ := ha
      have hlose : srv.lose ans.lost = srv := lose_eq (by simp [hstatus])
      rw [hlose] at hnum hstatus hsrv
      refine .inr ⟨rfl, hnum.symm, hstatus, ?_⟩
      rw [← hsrv, hnum, ← hstatus]

/-- **A commit succeeded**: its transaction was the latest one, and not aborted. -/
theorem handle_commit_ok (hin : isCmdInTransaction op.cmdObj = true)
    (hname : op.cmdObj.name = "commitTransaction") (hr : ans.result = .ok res)
    (he : hasError res = false) (hh : srv.handle op ans = some srv') :
    op.cmdObj.txnNumber = some srv.number ∧ srv.status ≠ .aborted ∧
      srv' = { srv with status := .committed } := by
  have ha := handle_ok_apply hr he hh
  unfold apply at ha
  rw [hin] at ha
  cases hn : op.cmdObj.txnNumber with
  | none => simp [hn] at ha
  | some n =>
    simp only [hn, if_pos hname, Option.ite_none_right_eq_some, Option.some.injEq] at ha
    obtain ⟨⟨hnum, hstatus⟩, hsrv⟩ := ha
    have hlose : srv.lose ans.lost = srv := lose_eq hstatus
    rw [hlose] at hnum hstatus hsrv
    exact ⟨by rw [hnum], hstatus, hsrv.symm⟩

end Server

end MongoTests.Override
