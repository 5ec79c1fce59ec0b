import Mathlib.Data.Set.Lattice
import Mathlib.Order.CompletePartialOrder
import MongoTests.Lib.Traced
import MongoTests.Override.Rules

/-!
# Statement ids

The transaction override numbers the commands of a transaction: `startNewTransaction` resets the
statement id, and `continueTransaction` gives it to a command and adds what the command reserves.

* `Counter`, `Event`, `Counter.step`: the numbering on its own.
* `Traced.runCommandOverride`: the starts and the statements of a run, which are a run of the
  numbering from the state before to the state after; `events`, of a whole test.
* `Chain`: the ids that the numbering gives; `StmtIds`: the ranges that they should reserve.
* **`stmtIds_iff`**: the transactions whose ranges are as they should be.
-/

namespace MongoTests.Override

open MongoTests.Lib Prog

variable {α : Type} {env : Shell}

/-! ## The numbering -/

section Numbering

/-- `txnOptions.txnNumber` and `txnOptions.stmtId`. -/
structure Counter where
  txnNumber : ℤ
  stmtId : ℤ
  deriving DecidableEq

inductive Event
  /-- `startNewTransaction` -/
  | start
  /-- `continueTransaction`, with the command as it is sent. -/
  | statement (cmdObj : Cmd)
  deriving DecidableEq

variable (env) in
/-- The id after that of a command. -/
def nextStmtId (stmtId : ℤ) (cmdObj : Cmd) : ℤ :=
  match calculateStmtIdInc cmdObj with
  | some inc => stmtId + inc
  | none => env.numberIntOfNaN

variable (env) in
/-- One event; a statement has the numbers that are due. -/
def Counter.step (c : Counter) : Event → Option Counter
  | .start => some ⟨c.txnNumber + 1, 1⟩
  | .statement cmdObj =>
    if cmdObj.txnNumber = some c.txnNumber ∧ cmdObj.stmtId = some c.stmtId then
      some ⟨c.txnNumber, nextStmtId env c.stmtId cmdObj⟩
    else none

def State.counter (s : State) : Counter := ⟨s.txnNumber, s.stmtId⟩

variable (env) in
/-- The events are a run of the numbering. -/
def numbering : Account State Event where
  holds s tr t := tr.foldlM (Counter.step env) s.counter = some t.counter
  nil _ := rfl
  append h h' := by
    rw [List.foldlM_append, h]
    exact h'

end Numbering

/-! ## Parts that number nothing -/

section Still

variable {m : M α}

/-- The numbers stay, however the run ends. -/
def sameCounter (c : Counter) : Contract State Exn where
  pre s := s.counter = c
  ret _ t := t.counter = c
  exc _ _ t := t.counter = c
  halt t := t.counter = c
  refl h := h
  next _ h := h
  trans _ h := h
  transExc _ h := h
  halt_of_pre h := h

theorem raises_sameCounter (c : Counter) : Raises (sameCounter c) := fun _ e _ hs => (wp_raise e).mpr hs

theorem holds_modify_sameCounter {g : State → State} (hg : ∀ s, (g s).counter = s.counter) (c : Counter) :
    (sameCounter c).Holds (Prog.modify g : M Unit) := .modify fun s hs => (hg s).trans hs

theorem holds_clientFunction_sameCounter (c : Counter) (dbName : String) (cmdObj : Cmd) :
    (sameCounter c).Holds (clientFunction dbName cmdObj) := fun _ hs =>
  wp_clientFunction hs fun _ _ _ _ => holds_ofExcept (raises_sameCounter c) _ _ hs

theorem holds_onNetworkException_sameCounter (e : Exn) (c : Catch) (d : Counter) :
    (sameCounter d).Holds (onNetworkException env e c) := by
  have hthrow : (sameCounter d).Holds (Prog.throw e : M Bool) := fun _ hs => hs
  refine .ite (.bind (.bind (holds_jsAssert (raises_sameCounter d) _ _) fun _ => .get_bind fun s =>
    .bind (holds_log (raises_sameCounter d)) fun _ => ?_) fun _ =>
    .bind (holds_when (holds_log (raises_sameCounter d))) fun _ =>
    .bind (holds_log (raises_sameCounter d)) fun _ =>
    .bind (holds_modify_sameCounter (fun _ => rfl) d) fun _ => .pure _) fun _ hs => hs
  cases networkExceptionVerdict env s.now c e with
  | some decrement => exact .pure decrement
  | none => exact hthrow

namespace Numbered

def still (h : ∀ c, (sameCounter c).Holds m) : Traced (numbering env) m :=
  .quiet fun s => congrArg some (wp.final (h s.counter s rfl)).symm

def log : Traced (numbering env) Override.log := still fun c => holds_log (raises_sameCounter c)

def isNested : Traced (numbering env) Override.isNested :=
  still fun c => holds_isNested (raises_sameCounter c)

def jsAssert (b : Bool) (text : String) : Traced (numbering env) (Override.jsAssert b text) :=
  still fun c => holds_jsAssert (raises_sameCounter c) b text

def raise (e : Exn) : Traced (numbering env) (Override.raise e : M α) :=
  still fun c => raises_sameCounter c α e

def ofExcept (x : Except Exn α) : Traced (numbering env) (Override.ofExcept x) :=
  still fun c => holds_ofExcept (raises_sameCounter c) x

def assertCommandWorked (res : Response) :
    Traced (numbering env) (Override.assertCommandWorked env res) :=
  still fun c => holds_assertCommandWorked (raises_sameCounter c) res

def modify {g : State → State} (hg : ∀ s, (g s).counter = s.counter) :
    Traced (numbering env) (Prog.modify g : M Unit) :=
  still fun c => holds_modify_sameCounter hg c

def clearOpsList : Traced (numbering env) Override.clearOpsList := modify fun _ => rfl

def when {b : Bool} {m : M Unit} (x : Traced (numbering env) m) :
    Traced (numbering env) (Override.when b m) := .ite x (.pure ())

def clientFunction (dbName : String) (cmdObj : Cmd) :
    Traced (numbering env) (Override.clientFunction dbName cmdObj) :=
  still fun c => holds_clientFunction_sameCounter c dbName cmdObj

def recordCursor (res : Response) (cmdObj : Cmd) :
    Traced (numbering env) (Override.recordCursor res cmdObj) :=
  still fun c => holds_when (by
    cases res.cursorId with
    | some id => exact holds_modify_sameCounter (fun _ => rfl) c
    | none => exact raises_sameCounter c _ _)

def validate (cmdObj : Cmd) : Traced (numbering env) (Override.validate env cmdObj) :=
  still fun c => holds_validate (raises_sameCounter c) cmdObj

def processNetworkResponse (res : Response) (c : Catch) :
    Traced (numbering env) (Override.processNetworkResponse env res c) :=
  still fun d => holds_processNetworkResponse (raises_sameCounter d) res c

def onNetworkException (e : Exn) (c : Catch) :
    Traced (numbering env) (Override.onNetworkException env e c) :=
  still fun d => holds_onNetworkException_sameCounter e c d

end Numbered

end Still

/-! ## The trace of a run -/

namespace Numbered

def startNewTransaction (cmdObj : Cmd) :
    Traced (numbering env) (Override.startNewTransaction cmdObj) where
  events _ := [.start]
  keeps _ := rfl

/-- The command with its numbers. -/
def numbered (s : State) (cmdObj : Cmd) : Cmd :=
  { cmdObj with txnNumber := some s.txnNumber, stmtId := some s.stmtId, autocommit := true }

def continueTransaction (dbName : String) (cmdObj : Cmd) :
    Traced (numbering env) (Override.continueTransaction env dbName cmdObj) where
  events s := [.statement (numbered s cmdObj)]
  keeps s := by
    have hstep : Counter.step env s.counter (.statement (numbered s cmdObj)) =
        some ⟨s.txnNumber, nextStmtId env s.stmtId cmdObj⟩ := if_pos ⟨rfl, rfl⟩
    have hrest : ∀ c, (sameCounter c).Holds (do
        Override.jsAssert cmdObj.readConcern.isNone "!cmdObj.hasOwnProperty('readConcern')"
        Override.jsAssert cmdObj.writeConcern.isNone "!cmdObj.hasOwnProperty('writeConcern')"
        let nested ← Override.isNested
        Override.when (!nested && !s.inCommandNetworkErrorRetry) (pushOp dbName (numbered s cmdObj))
        pure (numbered s cmdObj) : M Cmd) := fun c =>
      .bind (holds_jsAssert (raises_sameCounter c) _ _) fun _ =>
      .bind (holds_jsAssert (raises_sameCounter c) _ _) fun _ =>
      .bind (holds_isNested (raises_sameCounter c)) fun _ =>
      .bind (holds_when (holds_modify_sameCounter (fun _ => rfl) c)) fun _ => .pure _
    have hcounter := wp.final (hrest _
      { s with stmtId := nextStmtId env s.stmtId cmdObj } rfl)
    show [Event.statement (numbered s cmdObj)].foldlM (Counter.step env) s.counter = _
    rw [List.foldlM_cons, hstep]
    exact congrArg some hcounter.symm

section Run

variable {run : String → Cmd → M Response}
  (traced : ∀ dbName cmdObj, Traced (numbering env) (run dbName cmdObj))

def commitTransaction (lsid : Option ℕ) (n : ℤ) :
    Traced (numbering env) (Override.commitTransaction env run lsid n) :=
  .bind (jsAssert _ _) fun _ => .bind (jsAssert _ _) fun _ => .bind log fun _ => .getBind fun _ =>
    .bind (traced _ _) fun res => .bind (assertCommandWorked res) fun _ =>
    .bind clearOpsList fun _ => modify fun _ => rfl

def abortTransaction (lsid : Option ℕ) (n : ℤ) :
    Traced (numbering env) (Override.abortTransaction env run lsid n) :=
  .bind (jsAssert _ _) fun _ => .bind (jsAssert _ _) fun _ => .bind log fun _ =>
    .bind (traced _ _) fun res => .ite (.pure ()) (assertCommandWorked res)

def chooseTransaction (cmdObj : Cmd) (lsid : Option ℕ) :
    Traced (numbering env) (Override.chooseTransaction env run cmdObj lsid) :=
  .bind isNested fun _ => .getBind fun _ => .ite (.pure _) (.ite
    (.bind (jsAssert _ _) fun _ => startNewTransaction cmdObj)
    (.ite (.pure _) (.ite
      (.bind log fun _ => .bind (commitTransaction traced lsid _) fun _ => startNewTransaction cmdObj)
      (.pure _))))

def endTransaction (lsid : Option ℕ) : Traced (numbering env) (Override.endTransaction env run lsid) :=
  .getBind fun _ => when (.bind isNested fun _ =>
    when (.bind log fun _ => commitTransaction traced lsid _))

def setupTransactionCommand (dbName : String) (cmdObj : Cmd) (lsid : Option ℕ) :
    Traced (numbering env) (Override.setupTransactionCommand env run dbName cmdObj lsid) :=
  .bind (ofExcept _) fun _ => .getBind fun _ => .ite
    (.bind (chooseTransaction traced _ lsid) fun cmdObj =>
      .bind (continueTransaction dbName cmdObj) fun _ => ofExcept _)
    (.bind (endTransaction traced lsid) fun _ => ofExcept _)

def setupCommand (dbName : String) (cmdObj : Cmd) (lsid : Option ℕ) :
    Traced (numbering env) (Override.setupCommand env run dbName cmdObj lsid) :=
  .ite (setupTransactionCommand traced dbName cmdObj lsid) (.pure _)

def retryOps (n : ℤ) : ∀ (ops : List Op) (res : Response),
    Traced (numbering env) (Override.retryOps env run n res ops)
  | [], res => .pure res
  | op :: rest, _ => .bind log fun _ => .bind (traced op.dbName op.cmdObj) fun res => .ite (.pure res)
      (.bind (assertCommandWorked res) fun _ => .getBind fun _ => .ite (.pure res)
        (retryOps n rest res))

def retryEntireTransaction : Traced (numbering env) (Override.retryEntireTransaction env run) :=
  .getBind fun _ => .bind (jsAssert _ _) fun _ => .bind (startNewTransaction _) fun _ =>
    .getBind fun _ => .bind log fun _ => retryOps traced _ _ _

def createCollectionExplicitly (dbName : String) (collName : CmdValue) (lsid : Option ℕ) :
    Traced (numbering env) (Override.createCollectionExplicitly env run dbName collName lsid) :=
  .bind log fun _ => .bind (traced _ _) fun res => assertCommandWorked res

def retryAfterTransient (cmdObj : Cmd) (lsid : Option ℕ) :
    Traced (numbering env) (Override.retryAfterTransient env run cmdObj lsid) :=
  .bind log fun _ => .bind (retryEntireTransaction traced) fun res => .getBind fun _ =>
    .bind (when (commitTransaction traced lsid _)) fun _ => .pure res

def retryWithTxnOverride (res : Response) (dbName : String) (cmdObj : Cmd) (lsid : Option ℕ) :
    Traced (numbering env) (Override.retryWithTxnOverride env run res dbName cmdObj lsid) :=
  .bind (jsAssert _ _) fun _ => .ite
    (.getBind fun _ => .bind (jsAssert _ _) fun _ => .bind (abortTransaction traced lsid _) fun _ =>
      .ite (.bind (createCollectionExplicitly traced dbName _ lsid) fun _ =>
        retryEntireTransaction traced)
      (.ite (.bind log fun _ => retryEntireTransaction traced)
        (.ite (retryAfterTransient traced cmdObj lsid) (.pure res))))
    (.ite (retryAfterTransient traced cmdObj lsid) (.pure res))

def retryWithTxnOverrideException (e : Exn) (cmdObj : Cmd) (lsid : Option ℕ) :
    Traced (numbering env) (Override.retryWithTxnOverrideException env run e cmdObj lsid) :=
  .bind (jsAssert _ _) fun _ => .ite
    (.bind (retryAfterTransient traced cmdObj lsid) fun _ => .pure _)
    (.ite (.bind log fun _ => .bind (retryEntireTransaction traced) fun _ => .pure _) (.pure _))

def onException (e : Exn) (lsid : Option ℕ) (c : Catch) :
    Traced (numbering env) (Override.onException env run e lsid c) :=
  .ite (.bind (retryWithTxnOverrideException traced e c.cmdObj lsid) fun
      | some _ => .pure _
      | none => onNetworkException e c)
    (onNetworkException e c)

def attempt (dbName : String) (lsid : Option ℕ) (c : Catch) :
    Traced (numbering env) (Override.attempt env run dbName lsid c) :=
  .bind (clientFunction dbName _) fun res => .bind (.ite (.bind log fun _ =>
      .bind (recordCursor res _) fun _ => retryWithTxnOverride traced res dbName _ lsid) (.pure res))
    fun res => processNetworkResponse res c

def attempts (dbName : String) (cmdObj : Cmd) (lsid : Option ℕ) (startTime : ℕ) :
    ∀ (fuel : ℕ) (retries : ℤ),
      Traced (numbering env) (Override.attempts env run dbName cmdObj lsid startTime fuel retries)
  | 0, _ => .stop
  | fuel + 1, _ => .bind (.tryCatch (.ensuring (.bind (modify fun _ => rfl) fun _ =>
        attempt traced dbName lsid _) fun _ => rfl) fun e => onException traced e lsid _) fun
      | .done res => .pure res
      | .again retries => .ite (attempts dbName cmdObj lsid startTime fuel retries) (raise _)

def runCommandOverrideBody (fuel : ℕ) (dbName : String) (cmdObj : Cmd) (lsid : Option ℕ) :
    Traced (numbering env) (Override.runCommandOverrideBody env run fuel dbName cmdObj lsid) :=
  .getBind fun _ => .bind (validate cmdObj) fun _ => .bind (setupCommand traced dbName cmdObj lsid)
    fun cmdObj => attempts traced dbName cmdObj lsid _ fuel _

def clearOnFailure (res : Response) (lsid : Option ℕ) :
    Traced (numbering env) (Override.clearOnFailure env run res lsid) :=
  when (.bind isNested fun _ => .getBind fun _ => when (.bind log fun _ =>
    .bind clearOpsList fun _ => abortTransaction traced lsid _))

end Run

variable (env) in
/-- **The trace of a command**, with all nested commands. -/
def runCommandOverride : ∀ (fuel : ℕ) (dbName : String) (arg : CmdArg),
    Traced (numbering env) (Override.runCommandOverride env fuel dbName arg)
  | 0, _, _ => .stop
  | fuel + 1, dbName, arg => .bind (modify fun _ => rfl) fun _ => .ensuring
      (.bind (runCommandOverrideBody (fun dbName cmdObj => runCommandOverride fuel dbName (.plain cmdObj))
        fuel dbName arg.unwrap _) fun res => .bind (clearOnFailure
          (fun dbName cmdObj => runCommandOverride fuel dbName (.plain cmdObj)) res _) fun _ => .pure res)
      fun _ => rfl

end Numbered

variable (env) in
/-- The events of a test. -/
def events : Test → List Call → List Event
  | _, [] => []
  | t, c :: cs =>
    match issue env t c with
    | none => []
    | some t' => (Numbered.runCommandOverride env c.fuel c.dbName c.arg).events
        { t.state with answers := c.answers, raised := [] } ++ events t' cs

/-- **The events of a test are a run of the numbering.** -/
theorem events_run (t : Test) (cs : List Call) :
    ∃ c, (events env t cs).foldlM (Counter.step env) t.state.counter = some c := by
  induction cs generalizing t with
  | nil => exact ⟨_, rfl⟩
  | cons c cs ih =>
    rw [events]
    cases hi : issue env t c with
    | none => exact ⟨_, rfl⟩
    | some t' =>
      obtain ⟨-, hrun, -⟩ := issue_eq_some.mp hi
      have hkeeps := (Numbered.runCommandOverride env c.fuel c.dbName c.arg).keeps
        { t.state with answers := c.answers, raised := [] }
      rw [hrun] at hkeeps
      obtain ⟨c', hc'⟩ := ih t'
      refine ⟨c', ?_⟩
      rw [List.foldlM_append]
      exact (congrArg (· >>= _) hkeeps).trans hc'

/-! ## Ranges of ids -/

section Ranges

variable {cmdObj : Cmd} {cs : List Cmd} {id n : ℤ}

/-- The ids that a command is to reserve: those of its documents, updates or deletes, else one. -/
def reserved (cmdObj : Cmd) : ℕ := (calculateStmtIdInc cmdObj).getD 1

def stmtRange (cmdObj : Cmd) : Set ℤ :=
  {i | ∃ id, cmdObj.stmtId = some id ∧ id ≤ i ∧ i < id + reserved cmdObj}

/-- The ranges follow each other from `id` on. -/
def Consecutive : ℤ → List Cmd → Prop
  | _, [] => True
  | id, cmdObj :: cs => cmdObj.stmtId = some id ∧ Consecutive (id + reserved cmdObj) cs

def decideConsecutive : ∀ (id : ℤ) (cs : List Cmd), Decidable (Consecutive id cs)
  | _, [] => .isTrue trivial
  | id, cmdObj :: cs =>
    haveI := decideConsecutive (id + reserved cmdObj) cs
    inferInstanceAs (Decidable (_ ∧ _))

instance (id : ℤ) (cs : List Cmd) : Decidable (Consecutive id cs) := decideConsecutive id cs

/-- **The ids of a transaction** are integers that start at 1, and the ranges are consecutive and
disjoint. -/
structure StmtIds (cs : List Cmd) : Prop where
  consecutive : Consecutive 1 cs
  disjoint : cs.Pairwise fun c c' => Disjoint (stmtRange c) (stmtRange c')

variable (env) in
/-- The ids that the numbering gives. -/
def Chain : ℤ → List Cmd → Prop
  | _, [] => True
  | id, cmdObj :: cs => cmdObj.stmtId = some id ∧ Chain (nextStmtId env id cmdObj) cs

/-- The command of a statement in transaction `n`. -/
def Event.command (n : ℤ) : Event → Option Cmd
  | .start => none
  | .statement cmdObj => if cmdObj.txnNumber = some n then some cmdObj else none

/-- The commands of a transaction. -/
def statements (n : ℤ) (tr : List Event) : List Cmd := tr.filterMap (Event.command n)

theorem Consecutive.le_of_mem (h : Consecutive id cs) :
    ∀ c ∈ cs, ∀ i ∈ stmtRange c, id ≤ i := by
  induction cs generalizing id with
  | nil => exact fun c hc => absurd hc List.not_mem_nil
  | cons c cs ih =>
    intro c' hc' i hi
    obtain rfl | hc' := List.mem_cons.mp hc'
    · obtain ⟨id', hid, hle, -⟩ := hi
      cases h.1.symm.trans hid
      exact hle
    · have hle := ih h.2 c' hc' i hi
      omega

theorem Consecutive.disjoint (h : Consecutive id cs) :
    cs.Pairwise fun c c' => Disjoint (stmtRange c) (stmtRange c') := by
  induction cs generalizing id with
  | nil => exact .nil
  | cons c cs ih =>
    refine .cons (fun c' hc' => Set.disjoint_left.mpr fun i hi hi' => ?_) (ih h.2)
    obtain ⟨id', hid, -, hlt⟩ := hi
    cases h.1.symm.trans hid
    exact absurd (h.2.le_of_mem c' hc' i hi') (not_le.mpr hlt)

theorem stmtIds_iff_consecutive : StmtIds cs ↔ Consecutive 1 cs :=
  ⟨StmtIds.consecutive, fun h => ⟨h, h.disjoint⟩⟩

/-- In a run of the numbering, the ids of a transaction that is still to come start at 1. -/
theorem chain_of_run {tr : List Event} {c c' : Counter}
    (h : tr.foldlM (Counter.step env) c = some c') :
    (n < c.txnNumber → statements n tr = []) ∧
    (n = c.txnNumber → Chain env c.stmtId (statements n tr)) ∧
    (c.txnNumber < n → Chain env 1 (statements n tr)) := by
  induction tr generalizing c with
  | nil => exact ⟨fun _ => rfl, fun _ => trivial, fun _ => trivial⟩
  | cons e tr ih =>
    obtain ⟨d, hd, h⟩ := Option.bind_eq_some_iff.mp (List.foldlM_cons.symm.trans h)
    cases e with
    | start =>
      cases hd
      obtain ⟨hlt, heq, hgt⟩ := ih h
      have hstatements : statements n (.start :: tr) = statements n tr := rfl
      rw [hstatements]
      dsimp only at hlt heq hgt
      refine ⟨fun hn => hlt (by omega), fun hn => ?_, fun hn => ?_⟩
      · rw [hlt (by omega)]
        trivial
      · obtain hn | hn := (Int.add_one_le_iff.mpr hn).eq_or_lt
        · exact heq hn.symm
        · exact hgt hn
    | statement cmdObj =>
      rw [Counter.step] at hd
      split_ifs at hd with hnumbers
      cases hd
      obtain ⟨hlt, heq, hgt⟩ := ih h
      dsimp only at hlt heq hgt
      have hstatements : statements n (.statement cmdObj :: tr) =
          if c.txnNumber = n then cmdObj :: statements n tr else statements n tr := by
        have hcommand : Event.command n (.statement cmdObj) =
            if c.txnNumber = n then some cmdObj else none := by
          simp [Event.command, hnumbers.1]
        rw [statements, List.filterMap_cons, hcommand]
        split_ifs <;> rfl
      rw [hstatements]
      refine ⟨fun hn => ?_, fun hn => ?_, fun hn => ?_⟩
      · rw [if_neg hn.ne']
        exact hlt hn
      · rw [if_pos hn.symm]
        exact ⟨hnumbers.2, heq hn⟩
      · rw [if_neg hn.ne]
        exact hgt hn

/-- An undefined length breaks the order for the next command, and nothing else does. -/
theorem Chain.consecutive_iff (hnan : env.numberIntOfNaN = 0) (hid : 0 < id)
    (h : Chain env id cs) :
    Consecutive id cs ↔ ∀ c ∈ cs.dropLast, calculateStmtIdInc c ≠ none := by
  induction cs generalizing id with
  | nil => exact iff_of_true trivial fun c hc => absurd hc List.not_mem_nil
  | cons c cs ih =>
    cases cs with
    | nil => exact iff_of_true ⟨h.1, trivial⟩ fun c hc => absurd hc List.not_mem_nil
    | cons c' cs =>
      obtain ⟨hc, hcs⟩ := h
      rw [List.dropLast_cons_cons, List.forall_mem_cons, Consecutive, and_iff_right hc]
      cases hinc : calculateStmtIdInc c with
      | some inc =>
        have hnext : nextStmtId env id c = id + inc := by rw [nextStmtId, hinc]
        have hreserved : reserved c = inc := by rw [reserved, hinc, Option.getD_some]
        rw [hnext] at hcs
        rw [hreserved, ih (by omega) hcs, and_iff_right (Option.some_ne_none inc)]
      | none =>
        have hnext : nextStmtId env id c = 0 := by rw [nextStmtId, hinc, hnan]
        have hreserved : reserved c = 1 := by rw [reserved, hinc, Option.getD_none]
        rw [hnext] at hcs
        refine iff_of_false (fun hcons => ?_) fun hall => hall.1 rfl
        have heq : (0 : ℤ) = id + reserved c := Option.some_inj.mp (hcs.1.symm.trans hcons.1)
        rw [hreserved] at heq
        omega

end Ranges

/-! ## Whole tests -/

section Tests

/-- **The statement ids of a transaction** are integers that start at 1, with consecutive and
disjoint ranges, in every test and however the commands are nested and replayed, exactly when each
command but the last has a batch whose length is defined, or none at all. Transactions are numbered
from 0 on. -/
theorem stmtIds_iff (hnan : env.numberIntOfNaN = 0) (calls : List Call) (n : ℕ) :
    StmtIds (statements n (events env {} calls)) ↔
      ∀ cmdObj ∈ (statements n (events env {} calls)).dropLast, calculateStmtIdInc cmdObj ≠ none := by
  obtain ⟨c, hrun⟩ : ∃ c, (events env {} calls).foldlM (Counter.step env)
      ({} : Test).state.counter = some c := events_run {} calls
  have hfresh : ({} : Test).state.counter.txnNumber < n := by
    show (-1 : ℤ) < n
    omega
  rw [stmtIds_iff_consecutive]
  exact ((chain_of_run hrun).2.2 hfresh).consecutive_iff hnan one_pos

/-- Two inserts in a transaction. -/
theorem stmtIds_two_inserts : StmtIds (statements (0 : ℕ) (events (testShell true) {}
    [insertCall 1 [.worked], insertCall 2 [.worked]])) :=
  (@stmtIds_iff (testShell true) rfl _ 0).mpr (by decide +kernel)

/-- An insert whose `documents` is not an array. -/
def malformedInsert : Call :=
  ⟨"test", .plain { insertCmd 1 with batch := .unsized }, [.badValue, .worked, .worked], 4⟩

/-- The server refuses it, and the override aborts the transaction twice, with the ids 0 and 1. -/
theorem malformed_insert_resets_ids :
    (statements (0 : ℕ) (events (testShell true) {} [malformedInsert])).map Cmd.stmtId =
      [some 1, some 0, some 1] ∧
    ¬ StmtIds (statements (0 : ℕ) (events (testShell true) {} [malformedInsert])) := by
  refine ⟨by decide +kernel, fun h => ?_⟩
  exact absurd h.consecutive (by decide +kernel)

end Tests

end MongoTests.Override
