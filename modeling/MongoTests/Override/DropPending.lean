import Mathlib.Algebra.BigOperators.Group.List.Basic
import Mathlib.Algebra.GroupWithZero.Nat
import Mathlib.Data.Nat.Find
import MongoTests.Lib.Loop

/-!
# Retrying while a database is dropped

`runCommandWithRetries` of `implicitly_retry_on_database_drop_pending.js`: a command that fails with
`DatabaseDropPending` is sent again, and of an insert or update only the operations that failed.

* `round`, `runCommandWithRetries`: the callback of `assert.soon`; what the server answers to the
  batch of each attempt is a parameter, and the batches that were sent are recorded.
* `Server`, `respond`: a server whose operations only fail with `DatabaseDropPending`.
* `Lossless`: every operation is applied once, and the response is that of one execution.
* `pending`, `At`: the batches and states of the loop, as long as no operation is forgotten.
* **`retries_lossless_iff`**: when nothing is lost. `ordered_batch_loses_insert`: the rest of an
  ordered batch is not sent again.
-/

namespace MongoTests.Override.DropPending

open MongoTests.Lib

/-! ## The override -/

inductive ErrorCode
  | databaseDropPending
  | other (code : ℕ)
  deriving DecidableEq, Repr

structure WriteError where
  index : ℕ
  code : ErrorCode
  deriving DecidableEq, Repr

structure Upserted (Id : Type*) where
  index : ℕ
  id : Id
  deriving DecidableEq, Repr

/-- The fields of a response that the override reads or writes; `none` is a missing property. -/
structure Response (Id : Type*) where
  ok : ℕ
  code : Option ErrorCode
  n : ℕ
  nModified : ℕ
  upserted : Option (List (Upserted Id))
  writeErrors : Option (List WriteError)
  dropped : Option String
  deriving DecidableEq, Repr

/-- The commands that carry a batch. -/
inductive Write
  | insert
  | update
  deriving DecidableEq, Repr

inductive CommandName
  | write (w : Write)
  | other (name : String)
  deriving DecidableEq, Repr

/-- The exceptions that leave `assert.soon`. -/
inductive Thrown
  /-- `originalOps` is not declared. -/
  | referenceError
  /-- `assert.lt(writeError.index, opsExecuted.length)` -/
  | indexOutside
  deriving DecidableEq, Repr

/-- The variables of `runCommandWithRetries`: the operations in `commandObj`, the last response, and
the batches that were sent so far. -/
structure State (Op Id : Type*) where
  ops : List Op
  res : Option (Response Id)
  sent : List (List Op)
  deriving DecidableEq, Repr

variable {Op Id : Type*}

/-- Merges the response to an insert with the response before. -/
def mergeInsert (resPrevious : Option (Response Id)) (res : Response Id) : Response Id :=
  match resPrevious with
  | none => res
  | some prev => { res with n := res.n + prev.n }

/-- Merges the response to an update with the response before. The first document that was upserted
is looked up in `originalOps`. -/
def mergeUpdate (resPrevious : Option (Response Id)) (res : Response Id) :
    Except Thrown (Response Id) :=
  let upserted := res.upserted.getD []
  match resPrevious with
  | none => .ok { res with upserted := some upserted }
  | some prev =>
    if upserted = [] then
      .ok { res with
        n := res.n + prev.n
        nModified := res.nModified + prev.nModified
        upserted := some (upserted ++ prev.upserted.getD []) }
    else .error .referenceError

def merge : Write → Option (Response Id) → Response Id → Except Thrown (Response Id)
  | .insert, resPrevious, res => .ok (mergeInsert resPrevious res)
  | .update, resPrevious, res => mergeUpdate resPrevious res

/-- `opsToRetry`: the operations that the write errors point to. -/
def opsToRetry (opsExecuted : List Op) : List WriteError → Except Thrown (List Op)
  | [] => .ok []
  | writeError :: writeErrors =>
    match opsExecuted[writeError.index]? with
    | none => .error .indexOutside
    | some op => (opsToRetry opsExecuted writeErrors).map (op :: ·)

/-- The errors after which an insert or update is sent again. -/
def retryErrors (res : Response Id) : Option (List WriteError) :=
  if res.ok ≠ 1 then none
  else res.writeErrors.filter fun errors => errors.all fun e => e.code = .databaseDropPending

/-- The rest of the callback after an insert or update, when its responses are merged. -/
def afterWrite (s : State Op Id) (res : Response Id) :
    State Op Id × Option (Except Thrown (Response Id)) :=
  let sent := s.sent ++ [s.ops]
  match retryErrors res with
  | none => (⟨[], some res, sent⟩, some (.ok res))
  | some errors =>
    match opsToRetry s.ops errors with
    | .error e => (⟨[], some res, sent⟩, some (.error e))
    | .ok ops => (⟨ops, some res, sent⟩, none)

/-- The arguments of the call, and `TestData.skipDropDatabaseOnDatabaseDropPending`. -/
structure Call where
  dbName : String
  commandName : CommandName
  skipDropDatabase : Bool

/-- One call of the callback. -/
def round (c : Call) (func : ℕ → List Op → Response Id) (s : State Op Id) :
    State Op Id × Option (Except Thrown (Response Id)) :=
  let res := func s.sent.length s.ops
  let sent := s.sent ++ [s.ops]
  match c.commandName with
  | .write w =>
    match merge w s.res res with
    | .error e => (⟨[], some res, sent⟩, some (.error e))
    | .ok res => afterWrite s res
  | .other name =>
    if res.ok = 1 ∨ res.code ≠ some .databaseDropPending then
      (⟨s.ops, some res, sent⟩, some (.ok res))
    else if c.skipDropDatabase = true ∧ name = "dropDatabase" then
      let res := ⟨1, none, 0, 0, none, none, some c.dbName⟩
      (⟨s.ops, some res, sent⟩, some (.ok res))
    else (⟨s.ops, some res, sent⟩, none)

/-- `runCommandWithRetries`, as far as the fuel goes. -/
def runCommandWithRetries (c : Call) (func : ℕ → List Op → Response Id) (fuel : ℕ) (ops : List Op) :
    Option (State Op Id × Except Thrown (Response Id)) :=
  loop (round c func) fuel ⟨ops, none, []⟩

/-! ## The server -/

/-- What an operation does when it is applied. -/
structure Result (Id : Type*) where
  n : ℕ
  nModified : ℕ
  upserted : Option Id
  deriving DecidableEq, Repr

/-- A server: what each operation does in each attempt, where `none` is a `DatabaseDropPending`
write error. An insert inserts one document. -/
structure Server (Op Id : Type*) (w : Write) where
  answer : ℕ → Op → Option (Result Id)
  inserts : w = .insert → ∀ k op r, answer k op = some r → r = ⟨1, 0, none⟩

section Server

variable (ordered : Bool) (answer : Op → Option (Result Id))

/-- The operations of a batch that the server tries: an ordered batch ends at the first error. -/
def tried : List Op → List Op
  | [] => []
  | op :: ops => op :: if ordered = true ∧ (answer op).isNone then [] else tried ops

/-- The operations of a batch that the server applies. -/
def appliedIn (batch : List Op) : List (Op × Result Id) :=
  (tried ordered answer batch).filterMap fun op => (answer op).map fun r => (op, r)

/-- The write errors of operations from number `i` on. -/
def writeErrors (i : ℕ) : List Op → List WriteError
  | [] => []
  | op :: ops =>
    if (answer op).isNone then ⟨i, .databaseDropPending⟩ :: writeErrors (i + 1) ops
    else writeErrors (i + 1) ops

/-- The documents that operations from number `i` on upsert. -/
def upserts (i : ℕ) : List Op → List (Upserted Id)
  | [] => []
  | op :: ops =>
    (((answer op).bind Result.upserted).map fun id => ⟨i, id⟩).toList ++ upserts (i + 1) ops

/-- The property of a response that is left out when it is empty. -/
def nonempty {α : Type*} (l : List α) : Option (List α) := if l.isEmpty then none else some l

/-- The response to a batch. -/
def respond (batch : List Op) : Response Id where
  ok := 1
  code := none
  n := ((appliedIn ordered answer batch).map fun p => p.2.n).sum
  nModified := ((appliedIn ordered answer batch).map fun p => p.2.nModified).sum
  upserted := nonempty (upserts answer 0 (tried ordered answer batch))
  writeErrors := nonempty (writeErrors answer 0 (tried ordered answer batch))
  dropped := none

end Server

/-! ## Nothing is lost -/

section Lossless

variable {w : Write}

/-- What the server has applied of the batches that were sent. -/
def applied (ordered : Bool) (server : Server Op Id w) (sent : List (List Op)) :
    List (Op × Result Id) :=
  (sent.mapIdx fun k batch => appliedIn ordered (server.answer k) batch).flatten

/-- The response is that of one execution of the whole batch in which the operations do what `r`
says. -/
structure Reports (ordered : Bool) (ops : List Op) (r : Op → Result Id) (res : Response Id) : Prop where
  ok : res.ok = 1
  noErrors : res.writeErrors = none
  n : res.n = (respond ordered (fun op => some (r op)) ops).n
  nModified : res.nModified = (respond ordered (fun op => some (r op)) ops).nModified
  upserted : (res.upserted.getD []).Perm
    ((respond ordered (fun op => some (r op)) ops).upserted.getD [])

/-- The call returns, every operation of the batch has been applied once, and the response is that of
one execution. -/
def Lossless (dbName : String) (skip ordered : Bool) (server : Server Op Id w) (ops : List Op) : Prop :=
  ∃ fuel s res, runCommandWithRetries ⟨dbName, .write w, skip⟩
      (fun k batch => respond ordered (server.answer k) batch) fuel ops = some (s, .ok res) ∧
    ((applied ordered server s.sent).map Prod.fst).Perm ops ∧
      ∃ r : Op → Result Id, (∀ p ∈ applied ordered server s.sent, p.2 = r p.1) ∧
        Reports ordered ops r res

/-- The operations that fail in the first attempt are the end of an ordered batch, and upsert nothing
when they are applied later. -/
structure Retriable (ordered : Bool) (server : Server Op Id w) (ops : List Op) : Prop where
  last : ordered = true → ∀ op ∈ ops.dropLast, server.answer 0 op ≠ none
  upserts : w = .update → ∀ op ∈ ops, server.answer 0 op = none → ∀ k r,
    (∀ j < k, server.answer j op = none) → server.answer k op = some r → r.upserted = none

end Lossless

/-! ## One attempt -/

section Attempt

variable {ordered : Bool} {answer : Op → Option (Result Id)}

theorem tried_eq_self {l : List Op} (h : ordered = true → ∀ op ∈ l.dropLast, answer op ≠ none) :
    tried ordered answer l = l := by
  induction l with
  | nil => rfl
  | cons op ops ih =>
    cases ops with
    | nil => simp [tried]
    | cons op' ops =>
      have hop : ¬ (ordered = true ∧ (answer op).isNone) := by
        rintro ⟨hordered, hnone⟩
        refine h hordered op ?_ (Option.isNone_iff_eq_none.mp hnone)
        rw [List.dropLast_cons_cons]
        exact List.mem_cons_self
      rw [tried, if_neg hop, ih]
      intro hordered op'' hop''
      refine h hordered op'' ?_
      rw [List.dropLast_cons_cons]
      exact List.mem_cons_of_mem op hop''

theorem tried_some {r : Op → Result Id} (l : List Op) :
    tried ordered (fun op => some (r op)) l = l :=
  tried_eq_self fun _ _ _ => Option.some_ne_none _

variable (ordered answer) in
/-- What is tried starts the batch. -/
theorem exists_append_tried (l : List Op) : ∃ rest, tried ordered answer l ++ rest = l := by
  induction l with
  | nil => exact ⟨[], rfl⟩
  | cons op ops ih =>
    obtain ⟨rest, hrest⟩ := ih
    rw [tried]
    split_ifs with h
    · exact ⟨ops, rfl⟩
    · exact ⟨rest, by rw [List.cons_append, hrest]⟩

variable (ordered answer) in
theorem length_tried_le (l : List Op) : (tried ordered answer l).length ≤ l.length := by
  obtain ⟨rest, hrest⟩ := exists_append_tried ordered answer l
  have := congrArg List.length hrest
  rw [List.length_append] at this
  omega

/-- An ordered batch is not tried to its end when an operation before fails. -/
theorem length_tried_lt {l : List Op} {op : Op} (hop : op ∈ l.dropLast) (hnone : answer op = none) :
    (tried true answer l).length < l.length := by
  induction l with
  | nil => cases hop
  | cons op' ops ih =>
    cases ops with
    | nil => cases hop
    | cons op'' ops =>
      rw [tried]
      split_ifs with h
      · simp
      · rw [List.dropLast_cons_cons] at hop
        rcases List.mem_cons.mp hop with rfl | hop
        · exact absurd ⟨rfl, by rw [hnone]; rfl⟩ h
        · have := ih hop
          simp only [List.length_cons] at this ⊢
          omega

variable (answer) in
/-- The operations that fail. -/
def failing (batch : List Op) : List Op := batch.filter fun op => (answer op).isNone

theorem failing_cons_of_none {op : Op} (h : (answer op).isNone = true) (l : List Op) :
    failing answer (op :: l) = op :: failing answer l := by
  rw [failing, List.filter_cons, if_pos h, failing]

theorem failing_cons_of_some {op : Op} (h : ¬ (answer op).isNone = true) (l : List Op) :
    failing answer (op :: l) = failing answer l := by
  rw [failing, List.filter_cons, if_neg h, failing]

/-- The operations that the write errors point to are those that failed. -/
theorem opsToRetry_writeErrors {ops l rest : List Op} (pre : List Op) (h : pre ++ l ++ rest = ops) :
    opsToRetry ops (writeErrors answer pre.length l) = .ok (failing answer l) := by
  induction l generalizing pre with
  | nil => rfl
  | cons op l ih =>
    have hnext : (pre ++ [op]) ++ l ++ rest = ops := by simpa using h
    have hrest := ih (pre ++ [op]) hnext
    rw [List.length_append, List.length_singleton] at hrest
    rw [writeErrors]
    split_ifs with hnone
    · have hget : ops[pre.length]? = some op := by
        rw [← h]
        simp
      rw [opsToRetry, failing_cons_of_none hnone]
      simp only [hget, hrest]
      rfl
    · rw [hrest, failing_cons_of_some hnone]

theorem writeErrors_eq_nil_iff {i : ℕ} {l : List Op} :
    writeErrors answer i l = [] ↔ failing answer l = [] := by
  induction l generalizing i with
  | nil => simp [writeErrors, failing]
  | cons op l ih =>
    rw [writeErrors]
    split_ifs with h
    · simp [failing_cons_of_none h]
    · rw [ih, failing_cons_of_some h]

theorem code_of_mem_writeErrors {i : ℕ} {l : List Op} {e : WriteError}
    (he : e ∈ writeErrors answer i l) : e.code = .databaseDropPending := by
  induction l generalizing i with
  | nil => cases he
  | cons op l ih =>
    rw [writeErrors] at he
    split_ifs at he with h
    · rcases List.mem_cons.mp he with rfl | he
      · rfl
      · exact ih he
    · exact ih he

/-- The callback after the responses to a batch are merged. -/
theorem afterWrite_respond {s : State Op Id} {res : Response Id} (hok : res.ok = 1)
    (herrors : res.writeErrors = (respond ordered answer s.ops).writeErrors) :
    afterWrite s res =
      if failing answer (tried ordered answer s.ops) = [] then
        (⟨[], some res, s.sent ++ [s.ops]⟩, some (.ok res))
      else (⟨failing answer (tried ordered answer s.ops), some res, s.sent ++ [s.ops]⟩, none) := by
  obtain ⟨rest, hrest⟩ := exists_append_tried ordered answer s.ops
  have hretry : opsToRetry s.ops (writeErrors answer 0 (tried ordered answer s.ops)) =
      .ok (failing answer (tried ordered answer s.ops)) := opsToRetry_writeErrors [] hrest
  have hwrite : res.writeErrors =
      nonempty (writeErrors answer 0 (tried ordered answer s.ops)) := herrors
  have hcodes : ((writeErrors answer 0 (tried ordered answer s.ops)).all
      fun e => decide (e.code = .databaseDropPending)) = true := by
    rw [List.all_eq_true]
    exact fun e he => decide_eq_true (code_of_mem_writeErrors he)
  have hretryErrors : retryErrors res =
      nonempty (writeErrors answer 0 (tried ordered answer s.ops)) := by
    rw [retryErrors, if_neg (not_not.mpr hok), hwrite, nonempty]
    split_ifs
    · rfl
    · simp only [Option.filter_some, hcodes, if_true]
  unfold afterWrite
  rw [hretryErrors, nonempty]
  by_cases hnil : failing answer (tried ordered answer s.ops) = []
  · rw [if_pos hnil, if_pos (by rw [writeErrors_eq_nil_iff.mpr hnil]; rfl)]
  · have hne : ¬ (writeErrors answer 0 (tried ordered answer s.ops)).isEmpty = true := by
      rw [List.isEmpty_iff, writeErrors_eq_nil_iff]
      exact hnil
    rw [if_neg hnil, if_neg hne]
    simp only [hretry]

theorem map_fst_appliedIn (l : List Op) : (appliedIn ordered answer l).map Prod.fst =
    (tried ordered answer l).filter fun op => (answer op).isSome := by
  unfold appliedIn
  induction tried ordered answer l with
  | nil => rfl
  | cons op ops ih =>
    cases h : answer op with
    | none => simp [h, ih]
    | some r => simp [h, ih]

theorem mem_appliedIn {l : List Op} {p : Op × Result Id} :
    p ∈ appliedIn ordered answer l ↔ p.1 ∈ tried ordered answer l ∧ answer p.1 = some p.2 := by
  simp only [appliedIn, List.mem_filterMap, Option.map_eq_some_iff]
  constructor
  · rintro ⟨op, hop, r, hr, rfl⟩
    exact ⟨hop, hr⟩
  · rintro ⟨hop, hr⟩
    exact ⟨p.1, hop, p.2, hr, rfl⟩

variable (ordered answer) in
/-- Every operation that is tried is applied or fails. -/
theorem appliedIn_append_failing (l : List Op) :
    ((appliedIn ordered answer l).map Prod.fst ++ failing answer (tried ordered answer l)).Perm
      (tried ordered answer l) := by
  have hnot : (fun op => (answer op).isNone) = fun op => !(answer op).isSome := by
    funext op
    cases answer op <;> rfl
  rw [map_fst_appliedIn, failing, hnot]
  exact List.filter_append_perm _ _

theorem upserts_eq_nil {i : ℕ} {l : List Op} (h : ∀ op ∈ l, (answer op).bind Result.upserted = none) :
    upserts answer i l = [] := by
  induction l generalizing i with
  | nil => rfl
  | cons op l ih =>
    rw [upserts, h op List.mem_cons_self, ih fun op' hop' => h op' (List.mem_cons_of_mem op hop')]
    rfl

theorem upserts_ne_nil {i : ℕ} {l : List Op} {op : Op} (hop : op ∈ l)
    (h : (answer op).bind Result.upserted ≠ none) : upserts answer i l ≠ [] := by
  induction l generalizing i with
  | nil => cases hop
  | cons op' l ih =>
    rw [upserts]
    rcases List.mem_cons.mp hop with rfl | hop
    · obtain ⟨id, hid⟩ := Option.ne_none_iff_exists'.mp h
      simp [hid]
    · simp [ih hop]

theorem upserts_congr {answer' : Op → Option (Result Id)} {i : ℕ} {l : List Op}
    (h : ∀ op ∈ l, (answer op).bind Result.upserted = (answer' op).bind Result.upserted) :
    upserts answer i l = upserts answer' i l := by
  induction l generalizing i with
  | nil => rfl
  | cons op l ih =>
    rw [upserts, upserts, h op List.mem_cons_self,
      ih fun op' hop' => h op' (List.mem_cons_of_mem op hop')]

theorem getD_nonempty {α : Type*} (l : List α) : (nonempty l).getD [] = l := by
  cases l <;> rfl

end Attempt

/-! ## The attempts -/

section Attempts

variable {w : Write} {ordered : Bool} {server : Server Op Id w} {ops : List Op}

variable (server ops) in
/-- The operations that have failed in `k` attempts. -/
def pending : ℕ → List Op
  | 0 => ops
  | k + 1 => failing (server.answer k) (pending k)

variable (server ops) in
/-- The batches of `k` attempts. -/
def sentUpTo (k : ℕ) : List (List Op) := (List.range k).map (pending server ops)

theorem length_sentUpTo (k : ℕ) : (sentUpTo server ops k).length = k := by
  rw [sentUpTo, List.length_map, List.length_range]

theorem sentUpTo_succ (k : ℕ) :
    sentUpTo server ops (k + 1) = sentUpTo server ops k ++ [pending server ops k] := by
  rw [sentUpTo, List.range_succ, List.map_append]
  rfl

theorem applied_concat (sent : List (List Op)) (batch : List Op) :
    applied ordered server (sent ++ [batch]) =
      applied ordered server sent ++ appliedIn ordered (server.answer sent.length) batch := by
  rw [applied, List.mapIdx_concat, List.flatten_append]
  simp [applied]

theorem applied_sentUpTo_succ (k : ℕ) :
    applied ordered server (sentUpTo server ops (k + 1)) =
      applied ordered server (sentUpTo server ops k) ++
        appliedIn ordered (server.answer k) (pending server ops k) := by
  rw [sentUpTo_succ, applied_concat, length_sentUpTo]

theorem mem_pending {k : ℕ} {op : Op} :
    op ∈ pending server ops k ↔ op ∈ ops ∧ ∀ j < k, server.answer j op = none := by
  induction k with
  | zero => simp [pending]
  | succ k ih =>
    rw [pending, failing, List.mem_filter, ih, and_assoc, Option.isNone_iff_eq_none]
    refine and_congr_right fun _ => ?_
    constructor
    · rintro ⟨hlt, hk⟩ j hj
      rcases Nat.lt_succ_iff_lt_or_eq.mp hj with hj | rfl
      · exact hlt j hj
      · exact hk
    · exact fun h => ⟨fun j hj => h j (Nat.lt_succ_of_lt hj), h k (Nat.lt_succ_self k)⟩

variable (hlast : ordered = true → ∀ op ∈ ops.dropLast, server.answer 0 op ≠ none)

include hlast in
theorem length_pending_le (hordered : ordered = true) (k : ℕ) :
    (pending server ops (k + 1)).length ≤ 1 := by
  induction k with
  | zero =>
    rcases List.eq_nil_or_concat ops with rfl | ⟨l, op, rfl⟩
    · exact Nat.zero_le 1
    · have hl : failing (server.answer 0) l = [] := by
        rw [failing, List.filter_eq_nil_iff]
        intro op' hop'
        rw [Option.isNone_iff_eq_none]
        refine hlast hordered op' ?_
        rwa [List.concat_eq_append, List.dropLast_concat]
      rw [pending, pending, List.concat_eq_append, failing, List.filter_append, ← failing, hl,
        List.nil_append]
      exact List.length_filter_le _ [op]
  | succ k ih => exact Nat.le_trans (List.length_filter_le _ _) ih

include hlast in
/-- Every attempt tries its whole batch. -/
theorem tried_pending (k : ℕ) :
    tried ordered (server.answer k) (pending server ops k) = pending server ops k := by
  refine tried_eq_self fun hordered => ?_
  cases k with
  | zero => exact hlast hordered
  | succ k =>
    have hnil : (pending server ops (k + 1)).dropLast = [] := by
      rw [← List.length_eq_zero_iff, List.length_dropLast]
      have := length_pending_le hlast hordered k
      omega
    rw [hnil]
    simp

include hlast in
/-- **No operation is lost or repeated**: each is applied or still pending. -/
theorem applied_append_pending (k : ℕ) :
    ((applied ordered server (sentUpTo server ops k)).map Prod.fst ++ pending server ops k).Perm
      ops := by
  induction k with
  | zero => exact List.Perm.refl ops
  | succ k ih =>
    have hstep := appliedIn_append_failing ordered (server.answer k) (pending server ops k)
    rw [tried_pending hlast] at hstep
    rw [applied_sentUpTo_succ, List.map_append, List.append_assoc]
    exact (List.Perm.append_left _ hstep).trans ih

include hlast in
theorem mem_applied {k : ℕ} {p : Op × Result Id}
    (hp : p ∈ applied ordered server (sentUpTo server ops k)) :
    ∃ j < k, p.1 ∈ pending server ops j ∧ server.answer j p.1 = some p.2 := by
  induction k with
  | zero => cases hp
  | succ k ih =>
    rw [applied_sentUpTo_succ, List.mem_append] at hp
    rcases hp with hp | hp
    · obtain ⟨j, hj, h⟩ := ih hp
      exact ⟨j, Nat.lt_succ_of_lt hj, h⟩
    · rw [mem_appliedIn, tried_pending hlast] at hp
      exact ⟨k, Nat.lt_succ_self k, hp⟩

end Attempts

/-! ## The responses -/

section Responses

variable {w : Write} {ordered : Bool} {server : Server Op Id w} {ops : List Op}

variable (ordered server ops) in
/-- The response after `k` attempts. -/
structure Merged (k : ℕ) (res : Response Id) : Prop where
  ok : res.ok = 1
  n : res.n = ((applied ordered server (sentUpTo server ops k)).map fun p => p.2.n).sum
  nModified : res.nModified =
    ((applied ordered server (sentUpTo server ops k)).map fun p => p.2.nModified).sum
  upserted : res.upserted.getD [] = upserts (server.answer 0) 0 ops

variable (ordered server ops) in
/-- `resPrevious` in attempt `k`. -/
def Before : ℕ → Option (Response Id) → Prop
  | 0, prev => prev = none
  | k + 1, prev => ∃ p, prev = some p ∧ Merged ordered server ops (k + 1) p

variable (server ops) in
/-- Attempt `k` upserts nothing. -/
def NoUpserts (k : ℕ) : Prop :=
  w = .update → ∀ op ∈ pending server ops k, (server.answer k op).bind Result.upserted = none

theorem upserted_of_insert (hw : w = .insert) (k : ℕ) (op : Op) :
    (server.answer k op).bind Result.upserted = none := by
  cases h : server.answer k op with
  | none => rfl
  | some r =>
    rw [server.inserts hw k op r h]
    rfl

theorem nModified_of_insert (hw : w = .insert) (k : ℕ) (batch : List Op) :
    ((appliedIn ordered (server.answer k) batch).map fun p => p.2.nModified).sum = 0 := by
  rw [List.sum_eq_zero]
  intro x hx
  obtain ⟨p, hp, rfl⟩ := List.mem_map.mp hx
  rw [server.inserts hw k p.1 p.2 (mem_appliedIn.mp hp).2]

theorem nModified_applied_of_insert (hw : w = .insert) (k : ℕ) :
    ((applied ordered server (sentUpTo server ops k)).map fun p => p.2.nModified).sum = 0 := by
  induction k with
  | zero => rfl
  | succ k ih =>
    rw [applied_sentUpTo_succ, List.map_append, List.sum_append, ih, nModified_of_insert hw]

/-- One more attempt is added to the counters. -/
theorem merged_succ {k : ℕ} {res : Response Id} (hok : res.ok = 1)
    (hn : res.n = (respond ordered (server.answer k) (pending server ops k)).n +
      ((applied ordered server (sentUpTo server ops k)).map fun p => p.2.n).sum)
    (hnModified : res.nModified =
      (respond ordered (server.answer k) (pending server ops k)).nModified +
        ((applied ordered server (sentUpTo server ops k)).map fun p => p.2.nModified).sum)
    (hupserted : res.upserted.getD [] = upserts (server.answer 0) 0 ops) :
    Merged ordered server ops (k + 1) res := by
  refine ⟨hok, ?_, ?_, hupserted⟩
  · rw [hn, applied_sentUpTo_succ, List.map_append, List.sum_append, Nat.add_comm]
    rfl
  · rw [hnModified, applied_sentUpTo_succ, List.map_append, List.sum_append, Nat.add_comm]
    rfl

variable (hlast : ordered = true → ∀ op ∈ ops.dropLast, server.answer 0 op ≠ none)

include hlast

theorem upserted_respond (k : ℕ) :
    (respond ordered (server.answer k) (pending server ops k)).upserted.getD [] =
      upserts (server.answer k) 0 (pending server ops k) := by
  rw [respond, tried_pending hlast, getD_nonempty]

/-- The responses to the first attempt. -/
theorem exists_merge_zero : ∃ res,
    merge w none (respond ordered (server.answer 0) (pending server ops 0)) = .ok res ∧
      Merged ordered server ops 1 res ∧
        res.writeErrors =
          (respond ordered (server.answer 0) (pending server ops 0)).writeErrors := by
  cases w with
  | insert => exact ⟨_, rfl, merged_succ rfl rfl rfl (upserted_respond hlast 0), rfl⟩
  | update => exact ⟨_, rfl, merged_succ rfl rfl rfl (upserted_respond hlast 0), rfl⟩

/-- The responses to a later attempt. -/
theorem exists_merge_succ {k : ℕ} {p : Response Id} (hp : Merged ordered server ops (k + 1) p)
    (hno : NoUpserts server ops (k + 1)) : ∃ res,
    merge w (some p) (respond ordered (server.answer (k + 1)) (pending server ops (k + 1))) =
        .ok res ∧
      Merged ordered server ops (k + 2) res ∧
        res.writeErrors =
          (respond ordered (server.answer (k + 1)) (pending server ops (k + 1))).writeErrors := by
  have hupserted := upserted_respond hlast (k + 1)
  cases w with
  | insert =>
    refine ⟨_, rfl, merged_succ rfl ?_ ?_ ?_, rfl⟩
    · rw [← hp.n]
      rfl
    · rw [nModified_applied_of_insert rfl]
      rfl
    · have hnil : ∀ j l, upserts (server.answer j) 0 l = [] := fun j l =>
        upserts_eq_nil fun op _ => upserted_of_insert rfl j op
      exact hupserted.trans ((hnil _ _).trans (hnil _ _).symm)
  | update =>
    have hnil : (respond ordered (server.answer (k + 1))
        (pending server ops (k + 1))).upserted.getD [] = [] :=
      hupserted.trans (upserts_eq_nil (hno rfl))
    refine ⟨_, if_pos hnil, merged_succ rfl ?_ ?_ ?_, rfl⟩
    · rw [← hp.n]
    · rw [← hp.nModified]
    · rw [← hp.upserted]
      simp [hnil]

end Responses

/-! ## The loop -/

section Loop

variable {w : Write} {ordered : Bool} {server : Server Op Id w} {ops : List Op} {dbName : String}
  {skip : Bool}

/-- The callback against the server. -/
def attempt (dbName : String) (skip ordered : Bool) (server : Server Op Id w) :
    State Op Id → State Op Id × Option (Except Thrown (Response Id)) :=
  round ⟨dbName, .write w, skip⟩ fun k batch => respond ordered (server.answer k) batch

variable (ordered server ops) in
/-- The state before attempt `k`. -/
structure At (k : ℕ) (s : State Op Id) : Prop where
  batch : s.ops = pending server ops k
  res : Before ordered server ops k s.res
  sent : s.sent = sentUpTo server ops k

theorem at_start : At ordered server ops 0 ⟨ops, none, []⟩ := ⟨rfl, rfl, rfl⟩

theorem attempt_eq (s : State Op Id) : attempt dbName skip ordered server s =
    match merge w s.res (respond ordered (server.answer s.sent.length) s.ops) with
    | .error e => (⟨[], some (respond ordered (server.answer s.sent.length) s.ops),
        s.sent ++ [s.ops]⟩, some (.error e))
    | .ok res => afterWrite s res := rfl

variable (dbName skip) in
/-- An attempt that upserts a document for an operation that has failed before. -/
theorem At.attempt_of_upserts {k : ℕ} {s : State Op Id} (hs : At ordered server ops (k + 1) s)
    (hlast : ordered = true → ∀ op ∈ ops.dropLast, server.answer 0 op ≠ none)
    (hno : ¬ NoUpserts server ops (k + 1)) :
    (attempt dbName skip ordered server s).2 = some (.error .referenceError) := by
  obtain ⟨p, hp, -⟩ := hs.res
  have hw : w = .update := by
    by_contra hw
    exact hno fun h => absurd h hw
  subst hw
  simp only [NoUpserts, true_imp_iff, not_forall] at hno
  obtain ⟨op, hop, hupserts⟩ := hno
  have hne : ¬ (respond ordered (server.answer (k + 1))
      (pending server ops (k + 1))).upserted.getD [] = [] := by
    rw [upserted_respond hlast]
    exact upserts_ne_nil hop hupserts
  rw [attempt_eq, hs.sent, length_sentUpTo, hs.batch, hp]
  simp only [merge, mergeUpdate, if_neg hne]

variable (hlast : ordered = true → ∀ op ∈ ops.dropLast, server.answer 0 op ≠ none)

include hlast

theorem At.exists_merge {k : ℕ} {s : State Op Id} (hs : At ordered server ops k s)
    (hno : 0 < k → NoUpserts server ops k) :
    ∃ res, merge w s.res (respond ordered (server.answer k) (pending server ops k)) = .ok res ∧
      Merged ordered server ops (k + 1) res ∧
        res.writeErrors =
          (respond ordered (server.answer k) (pending server ops k)).writeErrors := by
  have hres := hs.res
  cases k with
  | zero =>
    have hnone : s.res = none := hres
    rw [hnone]
    exact exists_merge_zero hlast
  | succ k =>
    obtain ⟨p, hp, hmerged⟩ := hres
    rw [hp]
    exact exists_merge_succ hlast hmerged (hno (Nat.succ_pos k))

variable (dbName skip) in
/-- **An attempt** merges the responses, and ends the loop if nothing has failed. -/
theorem At.step {k : ℕ} {s : State Op Id} (hs : At ordered server ops k s)
    (hno : 0 < k → NoUpserts server ops k) :
    ∃ res, Merged ordered server ops (k + 1) res ∧
      (pending server ops (k + 1) = [] → res.writeErrors = none) ∧
      attempt dbName skip ordered server s =
        if pending server ops (k + 1) = [] then
          (⟨[], some res, sentUpTo server ops (k + 1)⟩, some (.ok res))
        else (⟨pending server ops (k + 1), some res, sentUpTo server ops (k + 1)⟩, none) := by
  obtain ⟨res, hmerge, hmerged, herrors⟩ := hs.exists_merge hlast hno
  have hpending : failing (server.answer k) (tried ordered (server.answer k) s.ops) =
      pending server ops (k + 1) := by
    rw [hs.batch, tried_pending hlast]
    rfl
  refine ⟨res, hmerged, ?_, ?_⟩
  · intro hnil
    rw [← hpending, hs.batch] at hnil
    rw [herrors, respond, writeErrors_eq_nil_iff.mpr hnil]
    rfl
  · rw [attempt_eq, hs.sent, length_sentUpTo, hs.batch, hmerge, ← hs.batch]
    rw [← hs.batch] at herrors
    refine (afterWrite_respond hmerged.ok herrors).trans ?_
    rw [hpending, hs.batch, hs.sent, ← sentUpTo_succ]

end Loop

/-! ## Retriable batches -/

section Enough

variable {w : Write} {ordered : Bool} {server : Server Op Id w} {ops : List Op} {dbName : String}
  {skip : Bool}

/-- An operation fails until attempt `k`, and does `r` then. -/
def FirstApplied (server : Server Op Id w) (op : Op) (k : ℕ) (r : Result Id) : Prop :=
  (∀ j < k, server.answer j op = none) ∧ server.answer k op = some r

theorem FirstApplied.unique {op : Op} {k k' : ℕ} {r r' : Result Id}
    (h : FirstApplied server op k r) (h' : FirstApplied server op k' r') : r = r' := by
  rcases Nat.lt_trichotomy k k' with hlt | rfl | hlt
  · exact absurd ((h'.1 k hlt).symm.trans h.2) (Option.some_ne_none r).symm
  · exact Option.some.inj (h.2.symm.trans h'.2)
  · exact absurd ((h.1 k' hlt).symm.trans h'.2) (Option.some_ne_none r').symm

theorem exists_firstApplied {op : Op} (h : ∃ k, (server.answer k op).isSome) :
    ∃ k r, FirstApplied server op k r := by
  classical
  obtain ⟨r, hr⟩ := Option.isSome_iff_exists.mp (Nat.find_spec h)
  refine ⟨Nat.find h, r, fun j hj => ?_, hr⟩
  exact Option.not_isSome_iff_eq_none.mp (Nat.find_min h hj)

/-- What the operations do when they are applied. -/
theorem exists_results (server : Server Op Id w) :
    ∃ r : Op → Result Id, ∀ op k x, FirstApplied server op k x → x = r op := by
  have h : ∀ op, ∃ y, ∀ k x, FirstApplied server op k x → x = y := by
    intro op
    by_cases hex : ∃ k x, FirstApplied server op k x
    · obtain ⟨k, y, hy⟩ := hex
      exact ⟨y, fun _ _ hx => hx.unique hy⟩
    · exact ⟨⟨0, 0, none⟩, fun k x hx => absurd ⟨k, x, hx⟩ hex⟩
  exact ⟨fun op => (h op).choose, fun op => (h op).choose_spec⟩

theorem exists_pending_nil (hends : ∀ op ∈ ops, ∃ k, (server.answer k op).isSome) :
    ∃ k, pending server ops k = [] := by
  induction ops with
  | nil => exact ⟨0, rfl⟩
  | cons op l ih =>
    obtain ⟨k, hk⟩ := ih fun op' hop' => hends op' (List.mem_cons_of_mem op hop')
    obtain ⟨j, hj⟩ := hends op List.mem_cons_self
    refine ⟨max k (j + 1), List.eq_nil_iff_forall_not_mem.mpr fun op' hop' => ?_⟩
    obtain ⟨hmem, hnone⟩ := mem_pending.mp hop'
    rcases List.mem_cons.mp hmem with rfl | hmem
    · rw [hnone j (by omega)] at hj
      cases hj
    · have hpending : op' ∈ pending server l k :=
        mem_pending.mpr ⟨hmem, fun i hi => hnone i (by omega)⟩
      rw [hk] at hpending
      cases hpending

theorem pending_nil_mono {k k' : ℕ} (hk : k ≤ k') (h : pending server ops k = []) :
    pending server ops k' = [] := by
  refine List.eq_nil_iff_forall_not_mem.mpr fun op hop => ?_
  obtain ⟨hmem, hnone⟩ := mem_pending.mp hop
  have : op ∈ pending server ops k := mem_pending.mpr ⟨hmem, fun j hj => hnone j (by omega)⟩
  rw [h] at this
  cases this

theorem Retriable.noUpserts (h : Retriable ordered server ops) {k : ℕ} (hk : 0 < k) :
    NoUpserts server ops k := by
  intro hw op hop
  obtain ⟨hmem, hnone⟩ := mem_pending.mp hop
  cases hr : server.answer k op with
  | none => rfl
  | some r => exact h.upserts hw op hmem (hnone 0 hk) k r hnone hr

variable (dbName skip) in
/-- The loop ends when nothing is pending. -/
theorem At.exists_return (h : Retriable ordered server ops) {k : ℕ} {s : State Op Id}
    (hs : At ordered server ops k s) {d : ℕ} (hend : pending server ops (k + d + 1) = []) :
    ∃ fuel s' res K, loop (attempt dbName skip ordered server) fuel s = some (s', .ok res) ∧
      s'.sent = sentUpTo server ops K ∧ pending server ops K = [] ∧
        Merged ordered server ops K res ∧ res.writeErrors = none := by
  induction d generalizing k s with
  | zero =>
    obtain ⟨res, hmerged, herrors, hstep⟩ := hs.step dbName skip h.last fun hk => h.noUpserts hk
    rw [if_pos hend] at hstep
    exact ⟨1, _, res, k + 1, loop_succ_exit hstep, rfl, hend, hmerged, herrors hend⟩
  | succ d ih =>
    obtain ⟨res, hmerged, herrors, hstep⟩ := hs.step dbName skip h.last fun hk => h.noUpserts hk
    by_cases hnil : pending server ops (k + 1) = []
    · rw [if_pos hnil] at hstep
      exact ⟨1, _, res, k + 1, loop_succ_exit hstep, rfl, hnil, hmerged, herrors hnil⟩
    · rw [if_neg hnil] at hstep
      have hnext : At ordered server ops (k + 1)
          ⟨pending server ops (k + 1), some res, sentUpTo server ops (k + 1)⟩ :=
        ⟨rfl, ⟨res, rfl, hmerged⟩, rfl⟩
      obtain ⟨fuel, s', res', K, hloop, hrest⟩ :=
        ih hnext (by rwa [show k + 1 + d + 1 = k + (d + 1) + 1 by omega])
      exact ⟨fuel + 1, s', res', K, (loop_succ_next hstep).trans hloop, hrest⟩

theorem appliedIn_some (r : Op → Result Id) (l : List Op) :
    appliedIn ordered (fun op => some (r op)) l = l.map fun op => (op, r op) := by
  rw [appliedIn, tried_some]
  exact congrFun (List.filterMap_eq_map (f := fun op => (op, r op))) l

/-- The merged responses are those of one execution. -/
theorem exists_reports (h : Retriable ordered server ops)
    (hends : ∀ op ∈ ops, ∃ k, (server.answer k op).isSome) {k : ℕ} {res : Response Id}
    (hnil : pending server ops k = []) (hmerged : Merged ordered server ops k res)
    (herrors : res.writeErrors = none) :
    ((applied ordered server (sentUpTo server ops k)).map Prod.fst).Perm ops ∧
      ∃ r : Op → Result Id,
        (∀ p ∈ applied ordered server (sentUpTo server ops k), p.2 = r p.1) ∧
          Reports ordered ops r res := by
  have hperm := applied_append_pending h.last k
  rw [hnil, List.append_nil] at hperm
  obtain ⟨r, hr⟩ := exists_results server
  have happlied : ∀ p ∈ applied ordered server (sentUpTo server ops k), p.2 = r p.1 := by
    intro p hp
    obtain ⟨j, -, hpending, hanswer⟩ := mem_applied h.last hp
    exact hr p.1 j p.2 ⟨(mem_pending.mp hpending).2, hanswer⟩
  have hsum : ∀ f : Result Id → ℕ,
      ((applied ordered server (sentUpTo server ops k)).map fun p => f p.2).sum =
        ((appliedIn ordered (fun op => some (r op)) ops).map fun p => f p.2).sum := by
    intro f
    have hops : ((applied ordered server (sentUpTo server ops k)).map fun p => f (r p.1)).sum =
        (ops.map fun op => f (r op)).sum := by
      rw [← (hperm.map fun op => f (r op)).sum_eq, List.map_map]
      rfl
    rw [appliedIn_some, List.map_map]
    refine Eq.trans ?_ hops
    refine congrArg List.sum (List.map_congr_left fun p hp => ?_)
    rw [happlied p hp]
  refine ⟨hperm, r, happlied, hmerged.ok, herrors, ?_, ?_, ?_⟩
  · exact hmerged.n.trans (hsum Result.n)
  · exact hmerged.nModified.trans (hsum Result.nModified)
  · rw [hmerged.upserted, respond, tried_some, getD_nonempty]
    refine List.Perm.of_eq (upserts_congr fun op hop => ?_)
    cases hanswer : server.answer 0 op with
    | some x =>
      have hx := hr op 0 x ⟨fun j hj => absurd hj (Nat.not_lt_zero j), hanswer⟩
      rw [hx]
    | none =>
      obtain ⟨j, x, hx⟩ := exists_firstApplied (hends op hop)
      have hupserted : x.upserted = none := by
        cases w with
        | insert => rw [server.inserts rfl j op x hx.2]
        | update => exact h.upserts rfl op hop hanswer j x hx.1 hx.2
      rw [← hr op j x hx]
      exact hupserted.symm

/-- Nothing is lost from a retriable batch. -/
theorem Retriable.lossless (h : Retriable ordered server ops)
    (hends : ∀ op ∈ ops, ∃ k, (server.answer k op).isSome) :
    Lossless dbName skip ordered server ops := by
  obtain ⟨k, hk⟩ := exists_pending_nil hends
  have hend : pending server ops (0 + k + 1) = [] := pending_nil_mono (by omega) hk
  obtain ⟨fuel, s, res, K, hloop, hsent, hnil, hmerged, herrors⟩ :=
    At.exists_return dbName skip h at_start hend
  refine ⟨fuel, s, res, hloop, ?_⟩
  rw [hsent]
  exact exists_reports h hends hnil hmerged herrors

end Enough

/-! ## Batches that are not retriable -/

section Necessary

variable {w : Write} {ordered : Bool} {server : Server Op Id w} {ops : List Op} {dbName : String}
  {skip : Bool}

theorem merge_ok {prev : Option (Response Id)} {res res' : Response Id}
    (h : merge w prev res = .ok res') : res'.ok = res.ok ∧ res'.writeErrors = res.writeErrors := by
  cases w with
  | insert =>
    cases h
    cases prev <;> exact ⟨rfl, rfl⟩
  | update =>
    cases prev with
    | none =>
      cases h
      exact ⟨rfl, rfl⟩
    | some p =>
      simp only [merge, mergeUpdate] at h
      split_ifs at h
      cases h
      exact ⟨rfl, rfl⟩

variable (dbName skip ordered server) in
/-- Whatever has failed, an attempt does not make up for operations that it does not try. -/
theorem length_attempt (s : State Op Id) :
    (attempt dbName skip ordered server s).1.sent = s.sent ++ [s.ops] ∧
      (appliedIn ordered (server.answer s.sent.length) s.ops).length +
          (attempt dbName skip ordered server s).1.ops.length ≤
        (tried ordered (server.answer s.sent.length) s.ops).length := by
  have hperm := appliedIn_append_failing ordered (server.answer s.sent.length) s.ops
  have hlength := hperm.length_eq
  rw [List.length_append, List.length_map] at hlength
  rw [attempt_eq]
  cases hmerge : merge w s.res (respond ordered (server.answer s.sent.length) s.ops) with
  | error e => exact ⟨rfl, by simp; omega⟩
  | ok res =>
    obtain ⟨hok, herrors⟩ := merge_ok hmerge
    simp only [afterWrite_respond hok herrors]
    split_ifs
    · exact ⟨rfl, by simp; omega⟩
    · exact ⟨rfl, hlength.le⟩

/-- What has been applied and what is still to be sent are fewer operations than the batch. -/
def Short (server : Server Op Id w) (ops : List Op) (s : State Op Id) : Prop :=
  (applied true server s.sent).length + s.ops.length < ops.length

variable (dbName skip) in
theorem short_attempt {s : State Op Id} {op : Op} (hop : op ∈ ops.dropLast)
    (hnone : server.answer 0 op = none) (h : s.sent = [] ∧ s.ops = ops ∨ Short server ops s) :
    Short server ops (attempt dbName skip true server s).1 := by
  obtain ⟨hsent, hlength⟩ := length_attempt true server dbName skip s
  rw [Short, hsent, applied_concat, List.length_append]
  rcases h with ⟨hnil, hops⟩ | h
  · have hlt := length_tried_lt hop hnone
    rw [hnil, hops] at hlength ⊢
    have happlied : (applied true server []).length = 0 := rfl
    rw [List.length_nil] at hlength
    rw [happlied, List.length_nil]
    omega
  · have hle := length_tried_le true (server.answer s.sent.length) s.ops
    rw [Short] at h
    omega

/-- The rest of an ordered batch is not sent again. -/
theorem Lossless.last (h : Lossless dbName skip ordered server ops) :
    ordered = true → ∀ op ∈ ops.dropLast, server.answer 0 op ≠ none := by
  rintro rfl op hop hnone
  obtain ⟨fuel, s, res, hloop, hperm, -⟩ := h
  change loop (attempt dbName skip true server) fuel _ = _ at hloop
  have hnext : ∀ s s' o, s.sent = [] ∧ s.ops = ops ∨ Short server ops s →
      attempt dbName skip true server s = (s', o) → Short server ops s' := by
    intro s s' o hs hstep
    have hshort := short_attempt dbName skip hop hnone hs
    rwa [hstep] at hshort
  obtain ⟨t, ht, hexit⟩ := loop_inv
    (I := fun s => s.sent = [] ∧ s.ops = ops ∨ Short server ops s)
    (fun s s' hs hstep => .inr (hnext s s' none hs hstep)) (.inl ⟨rfl, rfl⟩) hloop
  have hlt : (applied true server s.sent).length + s.ops.length < ops.length :=
    hnext t s _ ht hexit
  have hlength := hperm.length_eq
  rw [List.length_map] at hlength
  omega

theorem At.noUpserts (hlast : ordered = true → ∀ op ∈ ops.dropLast, server.answer 0 op ≠ none)
    {k : ℕ} {s s' : State Op Id} (hs : At ordered server ops k s)
    {o : Option (Except Thrown (Response Id))}
    (hattempt : attempt dbName skip ordered server s = (s', o)) (ho : ∀ e, o ≠ some (.error e))
    (hk : 0 < k) : NoUpserts server ops k := by
  obtain ⟨k, rfl⟩ := Nat.exists_eq_add_one_of_ne_zero hk.ne'
  by_contra hno
  have hraises := hs.attempt_of_upserts dbName skip hlast hno
  rw [hattempt] at hraises
  exact ho .referenceError hraises

/-- The attempts so far have upserted nothing for an operation that had failed. -/
def Calm (ordered : Bool) (server : Server Op Id w) (ops : List Op) (s : State Op Id) : Prop :=
  ∃ k, At ordered server ops k s ∧ ∀ j, 0 < j → j < k → NoUpserts server ops j

theorem Calm.attempt (hlast : ordered = true → ∀ op ∈ ops.dropLast, server.answer 0 op ≠ none)
    {s s' : State Op Id} (hs : Calm ordered server ops s)
    (hattempt : attempt dbName skip ordered server s = (s', none)) :
    Calm ordered server ops s' := by
  obtain ⟨k, hat, hcalm⟩ := hs
  have hno := hat.noUpserts hlast hattempt (fun e => Option.some_ne_none _ |>.symm)
  obtain ⟨res, hmerged, -, hstep⟩ := hat.step dbName skip hlast hno
  rw [hattempt] at hstep
  split_ifs at hstep with hnil
  · cases hstep
  · cases hstep
    refine ⟨k + 1, ⟨rfl, ⟨res, rfl, hmerged⟩, rfl⟩, fun j hj hlt => ?_⟩
    rcases Nat.lt_succ_iff_lt_or_eq.mp hlt with hlt | rfl
    · exact hcalm j hj hlt
    · exact hno hj

/-- An operation that is retried does not upsert. -/
theorem Lossless.upserts (h : Lossless dbName skip ordered server ops) (hw : w = .update) {op : Op}
    (hop : op ∈ ops) (hfails : server.answer 0 op = none) {k : ℕ} {r : Result Id}
    (hfirst : FirstApplied server op k r) : r.upserted = none := by
  have hlast := h.last
  obtain ⟨fuel, s, res, hloop, -⟩ := h
  change loop (attempt dbName skip ordered server) fuel _ = _ at hloop
  obtain ⟨t, ⟨n, hat, hcalm⟩, hexit⟩ := loop_inv
    (I := Calm ordered server ops) (fun _ _ hs hstep => hs.attempt hlast hstep)
    ⟨0, at_start, fun j hj hlt => absurd hlt (by omega)⟩ hloop
  have hno := hat.noUpserts hlast hexit (by rintro e ⟨⟩)
  obtain ⟨res', -, -, hstep⟩ := hat.step dbName skip hlast hno
  have hnil : pending server ops (n + 1) = [] := by
    by_contra hnil
    rw [hexit, if_neg hnil] at hstep
    cases hstep
  have hk : 0 < k := by
    rcases Nat.eq_zero_or_pos k with rfl | hk
    · rw [hfirst.2] at hfails
      cases hfails
    · exact hk
  have hle : k ≤ n := by
    by_contra hlt
    have hmem : op ∈ pending server ops (n + 1) :=
      mem_pending.mpr ⟨hop, fun j hj => hfirst.1 j (by omega)⟩
    rw [hnil] at hmem
    cases hmem
  have hnone : NoUpserts server ops k := by
    rcases Nat.lt_or_eq_of_le hle with hlt | rfl
    · exact hcalm k hk hlt
    · exact hno hk
  have hupserted := hnone hw op (mem_pending.mpr ⟨hop, hfirst.1⟩)
  rw [hfirst.2] at hupserted
  exact hupserted

end Necessary

section Main

variable {w : Write} {ordered : Bool} {server : Server Op Id w} {ops : List Op} {dbName : String}
  {skip : Bool}

/-- **When nothing is lost or repeated.** For every insert or update batch and every server whose
operations all succeed in the end, the call returns with every operation applied once and with the
counters and upserted documents of one execution, if and only if no operation but the last of an
ordered batch fails in the first attempt, and no update that fails in the first attempt upserts. -/
theorem retries_lossless_iff (hends : ∀ op ∈ ops, ∃ k, (server.answer k op).isSome) :
    Lossless dbName skip ordered server ops ↔ Retriable ordered server ops := by
  constructor
  · intro h
    exact ⟨h.last, fun hw op hop hfails k r hnone hr => h.upserts hw hop hfails ⟨hnone, hr⟩⟩
  · exact fun h => h.lossless hends

end Main

-- an update that fails once and then upserts a document
example : (runCommandWithRetries ⟨"test", .write .update, false⟩
    (fun k batch => respond false (fun op : ℕ => if k = 0 then none else some ⟨1, 0, some op⟩) batch)
      2 [7]).map Prod.snd = some (.error .referenceError) := by
  decide

/-- A server on which the operations `fails` fail in the first attempt. -/
def onceDropPending (fails : List ℕ) : Server ℕ ℕ .insert where
  answer k op := if k = 0 ∧ op ∈ fails then none else some ⟨1, 0, none⟩
  inserts := by
    intro _ k op r h
    split_ifs at h
    exact (Option.some.inj h).symm

theorem isSome_onceDropPending (fails : List ℕ) (op : ℕ) :
    ∃ k, ((onceDropPending fails).answer k op).isSome := ⟨1, rfl⟩

/-- Three documents are inserted in any order, the second in the second attempt. -/
theorem retries_lossless_unordered :
    (∀ op ∈ [0, 1, 2], ∃ k, ((onceDropPending [1]).answer k op).isSome) ∧
      Lossless "test" false false (onceDropPending [1]) [0, 1, 2] := by
  have hends : ∀ op ∈ [0, 1, 2], ∃ k, ((onceDropPending [1]).answer k op).isSome :=
    fun op _ => isSome_onceDropPending [1] op
  refine ⟨hends, (retries_lossless_iff hends).mpr ⟨?_, ?_⟩⟩
  · rintro ⟨⟩
  · rintro ⟨⟩

/-- **An ordered insert loses a document**: the first of two documents fails in the first attempt, and
the second is never sent again. -/
theorem ordered_batch_loses_insert :
    (∀ op ∈ [0, 1], ∃ k, ((onceDropPending [0]).answer k op).isSome) ∧
      (runCommandWithRetries ⟨"test", .write .insert, false⟩
        (fun k batch => respond true ((onceDropPending [0]).answer k) batch) 2 [0, 1]).map
          (fun p => (p.1.sent, p.2.toOption.map Response.n)) = some ([[0, 1], [0]], some 1) ∧
      applied true (onceDropPending [0]) [[0, 1], [0]] = [(0, ⟨1, 0, none⟩)] ∧
      ¬ Lossless "test" false true (onceDropPending [0]) [0, 1] := by
  refine ⟨fun op _ => isSome_onceDropPending [0] op, by decide, by decide, fun h => ?_⟩
  exact h.last rfl 0 (by decide) rfl

end MongoTests.Override.DropPending
