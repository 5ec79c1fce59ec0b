import MongoTests.Override.Failure

/-!
# Replays of a transaction

What the parts of a command do with the transaction of the override, given what the nested commands
do. A replayed statement is either the next one of its transaction or belongs to a deeper replay
that is complete, so a replay without an error is complete, and a commit, however often it is
retried, commits all of `ops`.

* `Commit.Exact`: a return of `commitTransaction` as it should be;
* `Nested`, `replaying`: what nested code leaves alone;
* `Replays`: what nested commands do, for an arbitrary `run`;
* **`wp_retryEntireTransaction`**, **`wp_commitTransaction`**;
* `keeps_attempts`, `wp_attempts_statement`, `wp_attempts_commit`: the retry loop.
-/

namespace MongoTests.Override

open MongoTests.Lib Prog

variable {α : Type} {env : Shell}

/-- `assert.commandWorked` throws on errors, write errors and write concern errors. -/
def Documented (env : Shell) : Prop :=
  ∀ res, env.commandWorked res = true ↔ hasError res = false ∧ hasWriteConcernError res = false

/-- **The server has committed exactly the commands that had been pushed**, under the number that
was asked for or that of a later retry, and `ops` is empty. -/
structure Commit.Exact (r : Commit) : Prop where
  status : r.server.status = .committed
  stmts : r.server.stmts = r.pushed.map Op.issued
  number_ge : r.txnNumber ≤ r.server.number
  number_le : r.server.number ≤ r.txnNumberAfter
  opsAfter : r.opsAfter = []

/-! ## The part of the state that counts -/

structure Core where
  nestingLevel : ℕ
  currentCommandID : List ℕ
  ops : List Op
  txnNumber : ℤ
  server : Server
  commits : List Commit

def State.core (s : State) : Core :=
  ⟨s.nestingLevel, s.currentCommandID, s.ops, s.txnNumber, s.server, s.commits⟩

variable {s s' : State} {c c' c'' : Core} {b n : ℤ}

/-- What `retryEntireTransaction` finds in `ops`. -/
structure Replayable (ops : List Op) : Prop where
  statement : ∀ op ∈ ops, isStatement op.cmdObj = true
  txnNumber : ∀ op ∈ ops, op.cmdObj.txnNumber = none
  start : ∀ op, ops.head? = some op → op.cmdObj.startTransaction = true

/-- All returns of `commitTransaction` so far. -/
def AllExact (c : Core) : Prop := ∀ r ∈ c.commits, r.Exact

/-- Code of the override is running. -/
structure Ready (c : Core) : Prop where
  level : c.nestingLevel = c.currentCommandID.length
  nested : 0 < c.nestingLevel
  ops : Replayable c.ops
  commits : AllExact c

/-- The transactions up to `b` are left alone, and so is the nesting. -/
structure Around (b : ℤ) (c c' : Core) : Prop where
  nestingLevel : c'.nestingLevel = c.nestingLevel
  currentCommandID : c'.currentCommandID = c.currentCommandID
  txnNumber : c.txnNumber ≤ c'.txnNumber
  kept : ∀ m ≤ b, c.server.Kept m c'.server
  commits : AllExact c'

/-- So is `ops`. -/
structure Nested (b : ℤ) (c c' : Core) : Prop extends Around b c c' where
  ops : c'.ops = c.ops

theorem Around.trans (h : Around b c c') (h' : Around b c' c'') : Around b c c'' where
  nestingLevel := h'.nestingLevel.trans h.nestingLevel
  currentCommandID := h'.currentCommandID.trans h.currentCommandID
  txnNumber := h.txnNumber.trans h'.txnNumber
  kept m hm := (h.kept m hm).trans (h'.kept m hm)
  commits := h'.commits

theorem Around.level (h : Around b c s.core) (hs : Ready c) : Level s := by
  unfold Level
  rw [show s.nestingLevel = c.nestingLevel from h.nestingLevel,
    show s.currentCommandID = c.currentCommandID from h.currentCommandID]
  exact hs.level

theorem Nested.refl (b : ℤ) (h : AllExact c) : Nested b c c :=
  ⟨⟨rfl, rfl, le_refl _, fun m _ => .refl m _, h⟩, rfl⟩

theorem Nested.trans (h : Nested b c c') (h' : Nested b c' c'') : Nested b c c'' :=
  ⟨h.toAround.trans h'.toAround, h'.ops.trans h.ops⟩

theorem Nested.ops_ne_nil (h : Nested b s.core s'.core) (hne : s.ops ≠ []) : s'.ops ≠ [] := by
  rw [show s'.ops = s.ops from h.ops]
  exact hne

/-- What runs after nested code: its exceptions count from the first state. -/
theorem Nested.later {m : M α} {Q Q' : α → State → Prop} (hn : Nested b s.core s'.core)
    (h : wp m Q (fun _ t => Nested b s'.core t.core) (fun t => AllExact t.core) s')
    (hQ : ∀ a t, Q a t → Q' a t) :
    wp m Q' (fun _ t => Nested b s.core t.core) (fun t => AllExact t.core) s' :=
  h.mono hQ (fun _ _ he => hn.trans he) fun _ hS => hS

theorem Around.weaken {b' : ℤ} (hb : b' ≤ b) (h : Around b c c') : Around b' c c' :=
  ⟨h.nestingLevel, h.currentCommandID, h.txnNumber, fun m hm => h.kept m (hm.trans hb), h.commits⟩

theorem Nested.weaken {b' : ℤ} (hb : b' ≤ b) (h : Nested b c c') : Nested b' c c' :=
  ⟨h.toAround.weaken hb, h.ops⟩

theorem Ready.of_nested (hs : Ready c) (h : Nested b c c') : Ready c' where
  level := by rw [h.nestingLevel, h.currentCommandID]; exact hs.level
  nested := by rw [h.nestingLevel]; exact hs.nested
  ops := by rw [h.ops]; exact hs.ops
  commits := h.commits

/-! ## Contracts -/

/-- Code that touches nothing of the core. -/
def quiet (c : Core) : Contract State Exn where
  pre s := s.core = c
  ret _ s := s.core = c
  exc _ _ s := s.core = c
  halt s := s.core = c
  refl hs := hs
  next _ h := h
  trans _ h := h
  transExc _ h := h
  halt_of_pre hs := hs

theorem quiet_raise : Raises (quiet c) := fun _ e s hs => by
  rw [Contract.HoldsAt, wp_raise]
  exact hs

theorem quiet_recordCursor (res : Response) (cmdObj : Cmd) :
    (quiet c).Holds (recordCursor res cmdObj) := by
  refine holds_when ?_
  cases res.cursorId with
  | some id => exact .modify fun _ hs => hs
  | none => exact quiet_raise _ _

/-- **What nested code keeps**, for a bound on the transactions that are left alone. -/
def replaying (b : ℤ) : Contract State Exn where
  pre s := Ready s.core ∧ b < s.txnNumber
  ret s s' := Nested b s.core s'.core
  exc s _ s' := Nested b s.core s'.core
  halt s := AllExact s.core
  refl hs := .refl b hs.1.commits
  next hs h := ⟨hs.1.of_nested h, lt_of_lt_of_le hs.2 h.txnNumber⟩
  trans := Nested.trans
  transExc := Nested.trans
  halt_of_pre hs := hs.1.commits

theorem replaying_raise : Raises (replaying b) := fun _ e s hs => by
  rw [Contract.HoldsAt, wp_raise]
  exact .refl b hs.1.commits

/-- Quiet code is nested code. -/
theorem Contract.Holds.replaying {m : M α} (h : ∀ c, (quiet c).Holds m) : (replaying b).Holds m := by
  intro s hs
  refine wp.mono (h s.core s rfl) (fun _ t ht => ?_) (fun _ t ht => ?_) fun t ht => ?_
  · exact (congrArg (Nested b s.core) ht).mpr (.refl b hs.1.commits)
  · exact (congrArg (Nested b s.core) ht).mpr (.refl b hs.1.commits)
  · exact (congrArg AllExact ht).mpr hs.1.commits

theorem replaying_tryWith {k : Catch} {m : M α} {h : Exn → M α} (hm : (replaying b).Holds m)
    (hh : ∀ e, (replaying b).Holds (h e)) : (replaying b).Holds (tryWith k m h) := by
  intro s hs
  rw [Contract.HoldsAt, wp_tryWith]
  refine wp.mono (hm (s.enterTry k) hs) (fun _ t ht => ht) (fun e t ht => ?_) fun t ht => ht
  have hn : (replaying b).ret s t.leaveTry := ht
  exact Contract.HoldsAt.after hn (hh e _ ((replaying b).next hs hn))

/-! ## What nested commands do -/

/-- The transaction of the override is open on the server, with all of `ops`. -/
def Full (c : Core) : Prop := c.server = ⟨c.txnNumber, .inProgress, c.ops.map Op.issued⟩

/-- The statement began transaction `n`, or went to the end of it. -/
def Extended (op : Op) (n : ℤ) (srv srv' : Server) : Prop :=
  op.cmdObj.startTransaction = true ∧ srv.number < n ∧ srv' = ⟨n, .inProgress, [op.issued]⟩ ∨
    op.cmdObj.startTransaction = false ∧ srv.number = n ∧ srv.status = .inProgress ∧
      srv' = ⟨n, .inProgress, srv.stmts ++ [op.issued]⟩

/-- A statement was added to the current transaction, or a deeper replay is complete. -/
def Ran (op : Op) (c c' : Core) : Prop :=
  c'.txnNumber = c.txnNumber ∧ Extended op c.txnNumber c.server c'.server ∨
    c.txnNumber < c'.txnNumber ∧ Full c'

/-- A statement has returned. -/
structure StatementDone (b : ℤ) (op : Op) (c : Core) (res : Response) (c' : Core) : Prop where
  nested : Nested b c c'
  noWriteConcernError : hasWriteConcernError res = false
  ran : hasError res = false → Ran op c c'

/-- A replay of the entire transaction has returned. -/
structure ReplayDone (b : ℤ) (c : Core) (res : Response) (c' : Core) : Prop where
  nested : Nested b c c'
  noWriteConcernError : hasWriteConcernError res = false
  newer : c.txnNumber < c'.txnNumber
  full : hasError res = false → Full c'

/-- Transaction `n`, unless it is aborted, has all of `ops`. -/
def Synced (n : ℤ) (c : Core) : Prop :=
  c.server.number = n → c.server.status ≠ .aborted → c.server.stmts = c.ops.map Op.issued

/-- The server has committed `ops`, under the number `n` or a later one. -/
structure Committed (n : ℤ) (ops : List Op) (c : Core) : Prop where
  status : c.server.status = .committed
  stmts : c.server.stmts = ops.map Op.issued
  number_ge : n ≤ c.server.number
  number_le : c.server.number ≤ c.txnNumber

/-- A commit of transaction `n` has returned; a retry of it may have emptied `ops`. -/
structure CommitDone (b n : ℤ) (c : Core) (res : Response) (c' : Core) : Prop where
  around : Around b c c'
  ops : c'.ops = c.ops ∨ c'.ops = [] ∧ hasError res = false ∧ hasWriteConcernError res = false
  committed : hasError res = false → Committed n c.ops c'

/-- **What nested commands do**, as far as their callers need it. -/
structure Replays (run : String → Cmd → M Response) : Prop where
  statement : ∀ {b op s}, Ready s.core → b < s.txnNumber → op ∈ s.ops →
    wp (run op.dbName op.cmdObj) (fun res t => StatementDone b op s.core res t.core)
      (fun _ t => Nested b s.core t.core) (fun t => AllExact t.core) s
  abort : ∀ {b} lsid n, (replaying b).Holds (run "admin" (abortCmd lsid n))
  create : ∀ {b} dbName lsid collName, (replaying b).Holds (run dbName (createCmd lsid collName))
  commit : ∀ {b s} lsid, Ready s.core → b ≤ s.txnNumber → s.ops ≠ [] → Synced s.txnNumber s.core →
    wp (run "admin" (commitCmd lsid s.txnNumber))
      (fun res t => CommitDone b s.txnNumber s.core res t.core)
      (fun _ t => Nested b s.core t.core) (fun t => AllExact t.core) s

theorem assertCommandWorked_eq (hdoc : Documented env) {res : Response} (he : hasError res = false)
    (hw : hasWriteConcernError res = false) : assertCommandWorked env res = pure () := by
  rw [assertCommandWorked, if_pos ((hdoc res).2 ⟨he, hw⟩)]

/-- The next statement of a replay: the first one starts the transaction, no other does. -/
theorem Extended.next {op : Op} {pre rest : List Op} {srv srv' : Server}
    (h : Extended op n srv srv') (hops : Replayable (pre ++ op :: rest))
    (hpre : pre ≠ [] → srv = ⟨n, .inProgress, pre.map Op.issued⟩) :
    srv' = ⟨n, .inProgress, (pre ++ [op]).map Op.issued⟩ := by
  by_cases hnil : pre = []
  · subst hnil
    have hstart := hops.start op rfl
    rcases h with ⟨_, _, rfl⟩ | ⟨hno, _⟩
    · rfl
    · simp [hstart] at hno
  · have hsrv := hpre hnil
    rcases h with ⟨_, hlt, _⟩ | ⟨_, _, _, rfl⟩
    · simp [hsrv] at hlt
    · simp [hsrv]

section Parts

variable {run : String → Cmd → M Response} (hrun : Replays run)
include hrun

theorem keeps_abortTransaction (lsid : Option ℕ) (n : ℤ) :
    (replaying b).Holds (abortTransaction env run lsid n) :=
  .bind (holds_jsAssert replaying_raise _ _) fun _ =>
    .bind (holds_jsAssert replaying_raise _ _) fun _ => .bind (holds_log replaying_raise) fun _ =>
    .bind (hrun.abort lsid n) fun res =>
    .ite (.pure ()) (holds_assertCommandWorked replaying_raise res)

theorem keeps_createCollectionExplicitly (dbName : String) (collName : CmdValue)
    (lsid : Option ℕ) :
    (replaying b).Holds (createCollectionExplicitly env run dbName collName lsid) :=
  .bind (holds_log replaying_raise) fun _ => .bind (hrun.create dbName lsid collName) fun res =>
    holds_assertCommandWorked replaying_raise res

/-- **The loop of the replay.** `pre` has been replayed in transaction `n`. -/
theorem wp_retryOps (hdoc : Documented env) (hb : b < n) (rest : List Op) :
    ∀ (s : State) (pre : List Op) (res : Response), Ready s.core → s.txnNumber = n →
      s.ops = pre ++ rest → hasWriteConcernError res = false →
      (pre ≠ [] → s.server = ⟨n, .inProgress, pre.map Op.issued⟩) → (rest = [] → pre ≠ []) →
      wp (retryOps env run n res rest)
        (fun res t => Nested b s.core t.core ∧ hasWriteConcernError res = false ∧
          (hasError res = false → Full t.core))
        (fun _ t => Nested b s.core t.core) (fun t => AllExact t.core) s := by
  induction rest with
  | nil =>
    intro s pre res hs hn hops hw hserver hpre
    refine ⟨.refl b hs.commits, hw, fun _ => ?_⟩
    have hops' : s.ops = pre := by simpa using hops
    show s.server = ⟨s.txnNumber, .inProgress, s.ops.map Op.issued⟩
    rw [hserver (hpre rfl), hn, hops']
  | cons op rest ih =>
    intro s pre res hs hn hops hw hserver _
    have hmem : op ∈ s.ops := by simp [hops]
    rw [retryOps, wp_bind, wp_log hs.level, wp_bind]
    refine wp.imp (hrun.statement hs (hn ▸ hb) hmem) fun res t ht => ?_
    rw [wp_ite]
    refine ⟨fun herr => ⟨ht.nested, ht.noWriteConcernError, fun hno => ?_⟩, fun herr => ?_⟩
    · simp [hno, ht.noWriteConcernError] at herr
    · have hno : hasError res = false := by simp_all
      rw [assertCommandWorked_eq hdoc hno ht.noWriteConcernError, wp_bind, wp_pure, wp_bind, wp_get,
        wp_ite]
      refine ⟨fun hne => ⟨ht.nested, ht.noWriteConcernError, fun _ => ?_⟩, fun heq => ?_⟩
      · rcases ht.ran hno with ⟨hsame, _⟩ | ⟨_, hfull⟩
        · exact absurd (hsame.trans hn) hne
        · exact hfull
      · have heq : t.txnNumber = n := not_not.1 heq
        have hext : Extended op n s.server t.server := by
          rcases ht.ran hno with ⟨_, hext⟩ | ⟨hlt, _⟩
          · exact hn ▸ hext
          · exact absurd (heq.trans hn.symm) hlt.ne'
        have hreplay : Replayable s.ops := hs.ops
        have hserver' := hext.next (hops ▸ hreplay) hserver
        have hops' : t.ops = (pre ++ [op]) ++ rest := by
          rw [show t.ops = s.ops from ht.nested.ops, hops, List.append_assoc, List.singleton_append]
        exact ht.nested.later (ih t (pre ++ [op]) res (hs.of_nested ht.nested) heq hops'
          ht.noWriteConcernError (fun _ => hserver') (fun _ => by simp))
          fun _ _ h => ⟨ht.nested.trans h.1, h.2⟩

/-- **A replay without an error is complete.** -/
theorem wp_retryEntireTransaction (hdoc : Documented env) (hs : Ready s.core)
    (hb : b ≤ s.txnNumber) :
    wp (retryEntireTransaction env run) (fun res t => ReplayDone b s.core res t.core)
      (fun _ t => Nested b s.core t.core) (fun t => AllExact t.core) s := by
  rw [retryEntireTransaction, wp_bind, wp_get, wp_bind, wp_jsAssert]
  refine ⟨fun hlen => ?_, fun _ => .refl b hs.commits⟩
  have hne : s.ops ≠ [] := List.ne_nil_of_length_pos (of_decide_eq_true hlen)
  have hbump : Nested b s.core s.bump.core :=
    ⟨⟨rfl, rfl, by simp [State.bump, State.core], fun m _ => .refl m _, hs.commits⟩, rfl⟩
  have hready : Ready s.bump.core := hs.of_nested hbump
  have hlog : Level s.bump := hready.level
  rw [startNewTransaction, wp_bind, wp_bind, wp_modify, wp_pure, wp_bind, wp_get, wp_bind,
    wp_log hlog]
  refine hbump.later (wp_retryOps hrun hdoc (n := s.txnNumber + 1) (by omega) s.ops s.bump [] {}
    hready rfl rfl rfl (by simp) (fun h => absurd h hne)) fun res t ht => ?_
  refine ⟨hbump.trans ht.1, ht.2.1, ?_, ht.2.2⟩
  have hle : s.txnNumber + 1 ≤ t.txnNumber := ht.1.txnNumber
  exact lt_of_lt_of_le (by simp [State.core]) hle

/-- **A commit that returns has committed all of `ops`**, and leaves `ops` empty. -/
theorem wp_commitTransaction (hdoc : Documented env) (lsid : Option ℕ) (hs : Ready s.core)
    (hb : b ≤ s.txnNumber) (hops : s.ops ≠ []) (hsync : Synced s.txnNumber s.core) :
    wp (commitTransaction env run lsid s.txnNumber)
      (fun _ t => Around b s.core t.core ∧ t.ops = [] ∧ Committed s.txnNumber s.ops t.core)
      (fun _ t => Nested b s.core t.core) (fun t => AllExact t.core) s := by
  rw [commitTransaction, wp_bind, wp_jsAssert]
  refine ⟨fun _ => ?_, fun _ => .refl b hs.commits⟩
  rw [wp_bind, wp_jsAssert]
  refine ⟨fun _ => ?_, fun _ => .refl b hs.commits⟩
  rw [wp_bind, wp_log hs.level, wp_bind, wp_get, wp_bind]
  refine wp.imp (hrun.commit lsid hs hb hops hsync) fun res t ht => ?_
  rw [wp_bind, assertCommandWorked, wp_ite]
  refine ⟨fun hworked => ?_, fun hfailed => ?_⟩
  · have hcom := ht.committed ((hdoc res).1 hworked).1
    rw [wp_pure, wp_bind, clearOpsList, wp_modify, wp_modify]
    refine ⟨⟨ht.around.nestingLevel, ht.around.currentCommandID, ht.around.txnNumber, ht.around.kept,
      ?_⟩, rfl, ⟨hcom.status, hcom.stmts, hcom.number_ge, hcom.number_le⟩⟩
    intro r hr
    rcases List.mem_append.1 hr with hr | hr
    · exact ht.around.commits r hr
    · rw [List.mem_singleton.1 hr]
      exact ⟨hcom.status, hcom.stmts, hcom.number_ge, hcom.number_le, rfl⟩
  · rw [wp_raise]
    -- a commit whose retry emptied `ops` has worked
    have hsame : t.ops = s.ops := by
      rcases ht.ops with h | ⟨_, he, hw⟩
      · exact h
      · exact absurd ((hdoc res).2 ⟨he, hw⟩) hfailed
    exact ⟨ht.around, hsame⟩

theorem wp_retryAfterTransient (hdoc : Documented env) {cmdObj : Cmd} {lsid : Option ℕ}
    (hname : cmdObj.name ≠ "commitTransaction") (hs : Ready s.core) (hb : b ≤ s.txnNumber) :
    wp (retryAfterTransient env run cmdObj lsid) (fun res t => ReplayDone b s.core res t.core)
      (fun _ t => Nested b s.core t.core) (fun t => AllExact t.core) s := by
  rw [retryAfterTransient, wp_bind, wp_log hs.level, wp_bind]
  refine wp.imp (wp_retryEntireTransaction hrun hdoc hs hb) fun res t ht => ?_
  rw [wp_bind, wp_get, wp_bind, wp_when]
  refine ⟨fun h => ?_, fun _ => ht⟩
  simp [hname] at h

/-- **A commit is retried after the transaction**, in the transaction of the replay. -/
theorem wp_retryAfterTransient_commit (hdoc : Documented env) {cmdObj : Cmd} {lsid : Option ℕ}
    (hname : cmdObj.name = "commitTransaction") (hs : Ready s.core) (hb : b ≤ s.txnNumber)
    (hn : n ≤ s.txnNumber) (hops : s.ops ≠ []) :
    wp (retryAfterTransient env run cmdObj lsid)
      (fun res t => CommitDone b n s.core res t.core ∧ hasWriteConcernError res = false)
      (fun _ t => Nested b s.core t.core) (fun t => AllExact t.core) s := by
  rw [retryAfterTransient, wp_bind, wp_log hs.level, wp_bind]
  refine wp.imp (wp_retryEntireTransaction hrun hdoc hs hb) fun res t ht => ?_
  have hsame : t.ops = s.ops := ht.nested.ops
  have hle : s.txnNumber ≤ t.txnNumber := ht.nested.txnNumber
  rw [wp_bind, wp_get, wp_bind, wp_when]
  refine ⟨fun h => ?_, fun h => ?_⟩
  · have hno : hasError res = false := by simpa [hname] using h
    have hfull : t.server = ⟨t.txnNumber, .inProgress, t.ops.map Op.issued⟩ := ht.full hno
    have hsync : Synced t.txnNumber t.core := by
      intro _ _
      show t.server.stmts = t.ops.map Op.issued
      rw [hfull]
    refine ht.nested.later (wp_commitTransaction hrun hdoc lsid (hs.of_nested ht.nested)
      (hb.trans hle) (hsame ▸ hops) hsync) fun _ t' ht' => ?_
    obtain ⟨haround, hempty, hcom⟩ := ht'
    rw [hsame] at hcom
    refine ⟨⟨ht.nested.toAround.trans haround, .inr ⟨hempty, hno, ht.noWriteConcernError⟩, fun _ => ?_⟩,
      ht.noWriteConcernError⟩
    exact ⟨hcom.status, hcom.stmts, hn.trans (hle.trans hcom.number_ge), hcom.number_le⟩
  · have herr : hasError res = true := by simpa [hname] using h
    exact ⟨⟨ht.nested.toAround, .inl hsame, fun hno => by simp [herr] at hno⟩, ht.noWriteConcernError⟩

/-! ### Commands other than the commit -/

theorem keeps_retryEntireTransaction (hdoc : Documented env) :
    (replaying b).Holds (retryEntireTransaction env run) := fun _ hs =>
  wp.imp (wp_retryEntireTransaction hrun hdoc hs.1 hs.2.le) fun _ _ h => h.nested

theorem keeps_retryAfterTransient (hdoc : Documented env) {cmdObj : Cmd} {lsid : Option ℕ}
    (hname : cmdObj.name ≠ "commitTransaction") :
    (replaying b).Holds (retryAfterTransient env run cmdObj lsid) := fun _ hs =>
  wp.imp (wp_retryAfterTransient hrun hdoc hname hs.1 hs.2.le) fun _ _ h => h.nested

theorem keeps_retryWithTxnOverride (hdoc : Documented env) {cmdObj : Cmd}
    (hname : cmdObj.name ≠ "commitTransaction") (res : Response) (dbName : String)
    (lsid : Option ℕ) :
    (replaying b).Holds (retryWithTxnOverride env run res dbName cmdObj lsid) := by
  have htransient : (replaying b).Holds (if retriesTransient res.errorLabels cmdObj then
      retryAfterTransient env run cmdObj lsid else pure res) :=
    .ite (keeps_retryAfterTransient hrun hdoc hname) (.pure res)
  refine .bind (holds_jsAssert replaying_raise _ _) fun _ => .ite (.get_bind fun _ =>
    .bind (holds_jsAssert replaying_raise _ _) fun _ => .bind (keeps_abortTransaction hrun lsid _)
    fun _ => .ite ?_ (.ite ?_ htransient)) htransient
  · exact .bind (keeps_createCollectionExplicitly hrun dbName _ lsid) fun _ =>
      keeps_retryEntireTransaction hrun hdoc
  · exact .bind (holds_log replaying_raise) fun _ => keeps_retryEntireTransaction hrun hdoc

omit hrun in
theorem keeps_clientFunction {cmdObj : Cmd} (hsp : ∀ m ≤ b, Server.Spares m cmdObj)
    (dbName : String) : (replaying b).Holds (clientFunction dbName cmdObj) := by
  intro s hs
  refine wp_clientFunction hs.1.commits fun ans answers server hh => ?_
  have hn : (replaying b).ret s { s with answers := answers, server := server, now := ans.now } :=
    ⟨⟨rfl, rfl, le_refl _, fun m hm => Server.handle_kept (hsp m hm) hh, hs.1.commits⟩, rfl⟩
  exact Contract.HoldsAt.after hn (holds_ofExcept replaying_raise ans.result _
    ((replaying b).next hs hn))

theorem keeps_attempt (hdoc : Documented env) {k : Catch}
    (hname : k.cmdObj.name ≠ "commitTransaction") (hsp : ∀ m ≤ b, Server.Spares m k.cmdObj)
    (dbName : String) (lsid : Option ℕ) : (replaying b).Holds (attempt env run dbName lsid k) := by
  refine .bind (keeps_clientFunction hsp dbName) fun res => .bind (.ite ?_ (.pure res)) fun res =>
    holds_processNetworkResponse replaying_raise res k
  exact .bind (holds_log replaying_raise) fun _ =>
    .bind (Contract.Holds.replaying fun _ => quiet_recordCursor res k.cmdObj) fun _ =>
    keeps_retryWithTxnOverride hrun hdoc hname res dbName lsid

theorem keeps_onException (hdoc : Documented env) {k : Catch}
    (hname : k.cmdObj.name ≠ "commitTransaction") (e : Exn) (lsid : Option ℕ) :
    (replaying b).Holds (onException env run e lsid k) := by
  intro s hs
  refine wp_catch hs.1.level (.refl b hs.1.commits) ?_ (fun _ _ => ?_) fun _ _ _ => ?_
  · exact keeps_retryAfterTransient hrun hdoc hname s hs
  · exact keeps_retryEntireTransaction hrun hdoc s hs
  · exact .refl b hs.1.commits

/-- **The retry loop of any other command** leaves `ops` and the older transactions alone. -/
theorem keeps_attempts (hdoc : Documented env) {cmdObj : Cmd}
    (hname : cmdObj.name ≠ "commitTransaction") (hsp : ∀ m ≤ b, Server.Spares m cmdObj)
    (dbName : String) (lsid : Option ℕ) (startTime fuel : ℕ) :
    ∀ retries, (replaying b).Holds (attempts env run dbName cmdObj lsid startTime fuel retries) := by
  induction fuel with
  | zero => exact fun _ => .stop
  | succ fuel ih =>
    intro retries
    refine .bind (replaying_tryWith (keeps_attempt hrun hdoc hname hsp dbName lsid) fun e =>
      keeps_onException hrun hdoc hname e lsid) fun pass => ?_
    cases pass with
    | done res => exact .pure res
    | again retries => exact .ite (ih retries) (replaying_raise _ _)

/-! ### Statements -/

/-- The response to a statement stands, or a replay has taken its place. -/
structure StatementRetried (b : ℤ) (c : Core) (res res' : Response) (c' : Core) : Prop where
  nested : Nested b c c'
  noWriteConcernError : hasWriteConcernError res' = false
  ran : hasError res' = false →
    hasError res = false ∧ c' = c ∨ c.txnNumber < c'.txnNumber ∧ Full c'

omit hrun in
theorem ReplayDone.retried {res res' : Response} (h : ReplayDone b c' res' c'')
    (hn : Nested b c c') : StatementRetried b c res res' c'' :=
  ⟨hn.trans h.nested, h.noWriteConcernError, fun he =>
    .inr ⟨lt_of_le_of_lt hn.txnNumber h.newer, h.full he⟩⟩

omit hrun in
theorem name_of_isStatement {cmdObj : Cmd} (h : isStatement cmdObj = true) :
    cmdObj.name ≠ "commitTransaction" := by
  intro hname
  simp [isStatement, isCommitOrAbort, hname] at h

theorem wp_retryWithTxnOverride_statement (hdoc : Documented env) {cmdObj : Cmd}
    (hst : isStatement cmdObj = true) {res : Response} (hw : hasWriteConcernError res = false)
    {dbName : String} {lsid : Option ℕ} (hs : Ready s.core) (hb : b < s.txnNumber) :
    wp (retryWithTxnOverride env run res dbName cmdObj lsid)
      (fun res' t => StatementRetried b s.core res res' t.core)
      (fun _ t => Nested b s.core t.core) (fun t => AllExact t.core) s := by
  have hname := name_of_isStatement hst
  -- a replay from a later state
  have hreplay : ∀ t : State, Nested b s.core t.core →
      wp (retryEntireTransaction env run) (fun res' t => StatementRetried b s.core res res' t.core)
        (fun _ t => Nested b s.core t.core) (fun t => AllExact t.core) t := fun t ht =>
    ht.later (wp_retryEntireTransaction hrun hdoc (hs.of_nested ht) (hb.le.trans ht.txnNumber))
      fun _ _ h => h.retried ht
  have htransient : ∀ t : State, Nested b s.core t.core →
      wp (retryAfterTransient env run cmdObj lsid)
        (fun res' t => StatementRetried b s.core res res' t.core)
        (fun _ t => Nested b s.core t.core) (fun t => AllExact t.core) t := fun t ht =>
    ht.later (wp_retryAfterTransient hrun hdoc hname (hs.of_nested ht) (hb.le.trans ht.txnNumber))
      fun _ _ h => h.retried ht
  have hrefl : Nested b s.core s.core := .refl b hs.commits
  rw [retryWithTxnOverride, wp_bind, wp_jsAssert]
  refine ⟨fun _ => ?_, fun _ => hrefl⟩
  rw [wp_ite]
  refine ⟨fun herr => ?_, fun hno => ?_⟩
  · rw [wp_bind, wp_get, wp_bind, wp_jsAssert]
    refine ⟨fun _ => ?_, fun _ => hrefl⟩
    rw [wp_bind]
    refine wp.imp (keeps_abortTransaction hrun lsid s.txnNumber s ⟨hs, hb⟩) fun _ t ht => ?_
    rw [wp_ite, wp_ite, wp_ite]
    refine ⟨fun _ => ?_, fun _ => ⟨fun _ => ?_, fun _ => ⟨fun _ => htransient t ht, fun _ => ?_⟩⟩⟩
    · rw [wp_bind]
      refine ht.later (keeps_createCollectionExplicitly hrun dbName cmdObj.value lsid t
        ((replaying b).next ⟨hs, hb⟩ ht)) fun _ t' ht' => ?_
      exact hreplay t' (ht.trans ht')
    · rw [wp_bind, wp_log (hs.of_nested ht).level]
      exact hreplay t ht
    · simp only [Bool.and_eq_true] at herr
      exact ⟨ht, hw, fun hno => by simp [herr.1] at hno⟩
  · have hno : hasError res = false := by simpa [hst] using hno
    rw [wp_ite]
    exact ⟨fun _ => htransient s hrefl, fun _ => ⟨hrefl, hw, fun _ => .inl ⟨hno, rfl⟩⟩⟩

omit hrun in
theorem canRetry_of_isStatement {cmdObj : Cmd} (h : isStatement cmdObj = true) :
    canRetryNetworkErrorForCommand env cmdObj = false := by
  simp only [isStatement, Bool.and_eq_true, Bool.not_eq_true'] at h
  simp [canRetryNetworkErrorForCommand, h.1, h.2]

omit hrun in
/-- Quiet code before something else. -/
theorem wp_quiet_bind {β : Type} {m : M α} {f : α → M β} {Q : β → State → Prop}
    {E : Exn → State → Prop} {S : State → Prop} (hm : ∀ c, (quiet c).Holds m)
    (hf : ∀ a t, t.core = s.core → wp (f a) Q E S t) (hE : ∀ e t, t.core = s.core → E e t)
    (hS : ∀ t, t.core = s.core → S t) : wp (m >>= f) Q E S s := by
  rw [wp_bind]
  exact wp.mono (hm s.core s rfl) hf hE hS

omit hrun in
/-- The transaction override looks at a response. -/
theorem wp_processTxnResponse {Q : Response → State → Prop} {E : Exn → State → Prop}
    {S : State → Prop} {res : Response} {dbName : String} {cmdObj : Cmd} {lsid : Option ℕ}
    (hs : Ready s.core)
    (hretry : ∀ t, t.core = s.core → wp (retryWithTxnOverride env run res dbName cmdObj lsid) Q E S t)
    (hQ : Q res s) (hE : ∀ e t, t.core = s.core → E e t) (hS : ∀ t, t.core = s.core → S t) :
    wp (processTxnResponse env run res dbName cmdObj lsid) Q E S s := by
  rw [processTxnResponse, wp_ite]
  refine ⟨fun _ => ?_, fun _ => hQ⟩
  rw [wp_bind, wp_log hs.level]
  exact wp_quiet_bind (fun _ => quiet_recordCursor res cmdObj) (fun _ t ht => hretry t ht) hE hS

/-- **A statement and its retries.** -/
theorem wp_attempt_statement (hdoc : Documented env) {k : Catch} (hst : isStatement k.cmdObj = true)
    {dbName : String} {lsid : Option ℕ} (hs : Ready s.core) (hb : b < s.txnNumber)
    (hnum : ∀ n, k.cmdObj.txnNumber = some n → n = s.txnNumber) :
    wp (attempt env run dbName lsid k)
      (fun pass t => ∃ res, pass = .done res ∧
        StatementDone b ⟨dbName, k.cmdObj⟩ s.core res t.core)
      (fun _ t => Nested b s.core t.core) (fun t => AllExact t.core) s := by
  have hsp : ∀ m ≤ b, Server.Spares m k.cmdObj := fun m hm =>
    .inl fun n hn => by rw [hnum n hn]; omega
  rw [attempt, wp_bind]
  refine wp_clientFunction hs.commits fun ans answers server hh => ?_
  let t : State := { s with answers := answers, server := server, now := ans.now }
  have ht : Nested b s.core t.core :=
    ⟨⟨rfl, rfl, le_refl _, fun m hm => Server.handle_kept (hsp m hm) hh, hs.commits⟩, rfl⟩
  cases hr : ans.result with
  | error e =>
    rw [ofExcept, wp_raise]
    exact ht
  | ok res =>
    have hw := Server.handle_statement_wce hst hr hh
    -- the statement as the server saw it
    have hran : hasError res = false → Ran ⟨dbName, k.cmdObj⟩ s.core t.core := by
      intro hno
      obtain ⟨n, hn, hext⟩ := Server.handle_statement_ok hst hr hno hh
      refine .inl ⟨rfl, ?_⟩
      rw [show s.core.txnNumber = n from (hnum n hn).symm]
      exact hext
    have hnet : ∀ res, processNetworkResponse env res k = pure (.done res) := fun res => by
      rw [processNetworkResponse, canRetry_of_isStatement hst]
      rfl
    rw [ofExcept, wp_pure, wp_bind]
    refine wp_processTxnResponse (hs.of_nested ht) (fun t' ht' => ?_) ?_ (fun _ t' ht' => ?_)
      fun t' ht' => ?_
    · have hn' : Nested b s.core t'.core := ht' ▸ ht
      refine hn'.later (wp_retryWithTxnOverride_statement hrun hdoc hst hw (hs.of_nested hn')
        (lt_of_lt_of_le hb hn'.txnNumber)) fun res' t'' h => ?_
      rw [hnet, wp_pure]
      refine ⟨res', rfl, hn'.trans h.nested, h.noWriteConcernError, fun he => ?_⟩
      rcases h.ran he with ⟨hno, hcore⟩ | ⟨hlt, hfull⟩
      · rw [hcore, ht']
        exact hran hno
      · exact .inr ⟨lt_of_le_of_lt hn'.txnNumber hlt, hfull⟩
    · rw [hnet, wp_pure]
      exact ⟨res, rfl, ht, hw, hran⟩
    · exact ht' ▸ ht
    · exact ht' ▸ ht.commits

theorem wp_attempts_statement (hdoc : Documented env) {cmdObj : Cmd}
    (hst : isStatement cmdObj = true) {dbName : String} {lsid : Option ℕ} {startTime : ℕ}
    (hs : Ready s.core) (hb : b < s.txnNumber)
    (hnum : ∀ n, cmdObj.txnNumber = some n → n = s.txnNumber) (fuel : ℕ) (retries : ℤ) :
    wp (attempts env run dbName cmdObj lsid startTime fuel retries)
      (fun res t => StatementDone b ⟨dbName, cmdObj⟩ s.core res t.core)
      (fun _ t => Nested b s.core t.core) (fun t => AllExact t.core) s := by
  cases fuel with
  | zero => exact hs.commits
  | succ fuel =>
    let k : Catch := ⟨cmdObj, startTime, retries⟩
    have hname : k.cmdObj.name ≠ "commitTransaction" := name_of_isStatement hst
    rw [attempts, wp_bind, wp_tryWith]
    refine wp.mono (wp_attempt_statement hrun hdoc (k := k) hst hs hb hnum) (fun pass t ht => ?_)
      (fun e t ht => ?_) fun _ h => h
    · obtain ⟨res, rfl, hdone⟩ := ht
      exact hdone
    · have hn : Nested b s.core t.leaveTry.core := ht
      have hready := hs.of_nested hn
      have hb' : b ≤ t.leaveTry.txnNumber := hb.le.trans hn.txnNumber
      have hdone : ∀ res (t' : State), ReplayDone b t.leaveTry.core res t'.core →
          StatementDone b ⟨dbName, cmdObj⟩ s.core res t'.core := fun res t' h =>
        ⟨hn.trans h.nested, h.noWriteConcernError, fun he =>
          .inr ⟨lt_of_le_of_lt hn.txnNumber h.newer, h.full he⟩⟩
      refine wp_catch hready.level hn ?_ (fun _ _ => ?_) fun hcan _ _ => ?_
      · exact hn.later (wp_retryAfterTransient hrun hdoc hname hready hb') hdone
      · exact hn.later (wp_retryEntireTransaction hrun hdoc hready hb') hdone
      · simp [canRetry_of_isStatement hst] at hcan

/-! ### The commit -/

omit hrun in
theorem isRetryableWriteCmdName_commit : isRetryableWriteCmdName "commitTransaction" = false := by
  decide

omit hrun in
/-- No error of a commit is safe to ignore, so the response is passed up as it is. -/
theorem networkErrorVerdict_commit {res res' : Response} {logged : Bool}
    (h : networkErrorVerdict env "commitTransaction" true res = .pass res' logged) : res' = res := by
  have hsafe : isAcceptableRetryFailedResponse env "commitTransaction" res = false := by
    simp [isAcceptableRetryFailedResponse]
  refine (networkErrorVerdict_pass h).resolve_right fun hfailure => ?_
  rw [hfailure.acceptable] at hsafe
  cases hsafe

omit hrun in
theorem networkErrorVerdict_commit_ok {res : Response} (he : hasError res = false)
    (hw : hasWriteConcernError res = false) :
    networkErrorVerdict env "commitTransaction" true res = .pass res false := by
  obtain ⟨ok, code, errmsg, labels, writeErrors, wce, cursorId, stats, raw⟩ := res
  have hok : ok = true := by
    simp only [hasError, Bool.or_eq_false_iff, Bool.not_eq_false'] at he
    exact he.1
  rw [networkErrorVerdict, isRetryableWriteCmdName_commit, hw]
  simp [hok, writeConcernVerdict, hasWriteConcernError] at hw ⊢
  simp [hw]

omit hrun in
theorem Synced.of_nested (h : Synced n c) (hn : Nested n c c') : Synced n c' := by
  intro hnum hstatus
  obtain ⟨hnum', hstatus', hstmts⟩ := hn.kept n (le_refl n) hnum hstatus
  rw [hstmts, hn.ops]
  exact h hnum' hstatus'

omit hrun in
theorem CommitDone.after {res : Response} (h : CommitDone b n c' res c'') (hn : Nested b c c') :
    CommitDone b n c res c'' := by
  refine ⟨hn.toAround.trans h.around, ?_, fun he => ?_⟩
  · rw [← hn.ops]
    exact h.ops
  · rw [← hn.ops]
    exact h.committed he

omit hrun in
/-- A response to a commit that worked is passed up; another one may be retried. -/
theorem wp_processNetworkResponse_commit {k : Catch} (hname : k.cmdObj.name = "commitTransaction")
    {res : Response} {t : State} (hl : Level t) (h : CommitDone b n c res t.core) :
    wp (processNetworkResponse env res k)
      (fun pass t' => match pass with
        | .done res => CommitDone b n c res t'.core
        | .again _ => Nested b c t'.core)
      (fun _ t' => Nested b c t'.core) (fun t' => AllExact t'.core) t := by
  rw [processNetworkResponse, wp_ite]
  refine ⟨fun hcan => ?_, fun _ => h⟩
  rw [shouldRetryWithNetworkErrorOverride, configuredForNetworkRetry_of_canRetry hcan, hname,
    jsAssert_true, wp_bind, wp_bind, wp_pure]
  by_cases hok : hasError res = false ∧ hasWriteConcernError res = false
  · rw [networkErrorVerdict_commit_ok hok.1 hok.2]
    exact h
  · -- the commit did not work, so no retry of it has emptied `ops`
    have hn : Nested b c t.core := by
      refine ⟨h.around, ?_⟩
      rcases h.ops with hops | ⟨_, hok'⟩
      · exact hops
      · exact absurd hok' hok
    cases hv : networkErrorVerdict env "commitTransaction" true res with
    | kContinue =>
      simp only [wp_bind, wp_log hl, wp_pure]
      exact hn
    | pass res' logged =>
      rw [networkErrorVerdict_commit hv]
      simp only [wp_bind, wp_when, wp_log hl, wp_pure]
      exact ⟨fun _ => h, fun _ => h⟩
    | typeError => exact hn

/-- **One attempt to commit transaction `n`.** -/
theorem wp_attempt_commit (hdoc : Documented env) {k : Catch}
    (hname : k.cmdObj.name = "commitTransaction") (hin : isCmdInTransaction k.cmdObj = true)
    (hnum : k.cmdObj.txnNumber = some n) {dbName : String} {lsid : Option ℕ} (hs : Ready s.core)
    (hn : n ≤ s.txnNumber) (hops : s.ops ≠ []) (hsync : Synced n s.core) :
    wp (attempt env run dbName lsid k)
      (fun pass t => match pass with
        | .done res => CommitDone n n s.core res t.core
        | .again _ => Nested n s.core t.core)
      (fun _ t => Nested n s.core t.core) (fun t => AllExact t.core) s := by
  have hnot : isStatement k.cmdObj = false := by simp [isStatement, isCommitOrAbort, hname]
  rw [attempt, wp_bind]
  refine wp_clientFunction hs.commits fun ans answers server hh => ?_
  let t : State := { s with answers := answers, server := server, now := ans.now }
  have ht : Nested n s.core t.core :=
    ⟨⟨rfl, rfl, le_refl _, fun m _ => Server.handle_kept (.inr ⟨hin, hnot⟩) hh, hs.commits⟩, rfl⟩
  cases hr : ans.result with
  | error e =>
    rw [ofExcept, wp_raise]
    exact ht
  | ok res =>
    have hdone : CommitDone n n s.core res t.core := by
      refine ⟨ht.toAround, .inl ht.ops, fun hno => ?_⟩
      obtain ⟨hsome, hstatus, hserver⟩ := Server.handle_commit_ok hin hname hr hno hh
      have hnumber : s.server.number = n := Option.some.inj (hsome.symm.trans hnum)
      have hserver' : t.server = { s.server with status := .committed } := hserver
      refine ⟨?_, ?_, ?_, ?_⟩
      · show t.server.status = _
        rw [hserver']
      · show t.server.stmts = _
        rw [hserver']
        exact hsync hnumber hstatus
      · show n ≤ t.server.number
        rw [hserver', ← hnumber]
      · show t.server.number ≤ t.txnNumber
        rw [hserver']
        exact hnumber.trans_le hn
    rw [ofExcept, wp_pure, wp_bind]
    refine wp_processTxnResponse (hs.of_nested ht) (fun t' ht' => ?_) ?_ (fun _ t' ht' => ht' ▸ ht)
      fun t' ht' => ht' ▸ ht.commits
    · have hn' : Nested n s.core t'.core := ht' ▸ ht
      have hready := hs.of_nested hn'
      rw [retryWithTxnOverride, wp_bind, wp_jsAssert]
      refine ⟨fun _ => ?_, fun _ => hn'⟩
      rw [hnot, Bool.and_false, if_neg Bool.false_ne_true, wp_ite]
      refine ⟨fun _ => ?_, fun _ => ?_⟩
      · have hle : n ≤ t'.txnNumber := hn.trans hn'.txnNumber
        refine hn'.later (wp_retryAfterTransient_commit hrun hdoc hname hready hle hle
          (hn'.ops_ne_nil hops)) fun res' t'' h => ?_
        exact wp_processNetworkResponse_commit hname (h.1.around.level hready) (h.1.after hn')
      · rw [wp_pure]
        exact wp_processNetworkResponse_commit hname hready.level (ht' ▸ hdone)
    · exact wp_processNetworkResponse_commit hname (hs.of_nested ht).level hdone

/-- **The retry loop of the commit.** -/
theorem wp_attempts_commit (hdoc : Documented env) {cmdObj : Cmd}
    (hname : cmdObj.name = "commitTransaction") (hin : isCmdInTransaction cmdObj = true)
    (hnum : cmdObj.txnNumber = some n) {dbName : String} {lsid : Option ℕ} {startTime : ℕ}
    (fuel : ℕ) :
    ∀ (s : State) (retries : ℤ), Ready s.core → n ≤ s.txnNumber → s.ops ≠ [] → Synced n s.core →
      wp (attempts env run dbName cmdObj lsid startTime fuel retries)
        (fun res t => CommitDone n n s.core res t.core)
        (fun _ t => Nested n s.core t.core) (fun t => AllExact t.core) s := by
  induction fuel with
  | zero => exact fun _ _ hs _ _ _ => hs.commits
  | succ fuel ih =>
    intro s retries hs hn hops hsync
    -- the loop goes on from a state that the attempt has left alone
    have hagain : ∀ (t : State) (retries : ℤ), Nested n s.core t.core →
        wp (if 0 ≤ retries then attempts env run dbName cmdObj lsid startTime fuel retries
          else raise (error "MONGO UNREACHABLE"))
          (fun res t => CommitDone n n s.core res t.core)
          (fun _ t => Nested n s.core t.core) (fun t => AllExact t.core) t := by
      intro t retries ht
      rw [wp_ite, wp_raise]
      refine ⟨fun _ => ?_, fun _ => ht⟩
      exact ht.later (ih t retries (hs.of_nested ht) (hn.trans ht.txnNumber) (ht.ops_ne_nil hops)
        (hsync.of_nested ht)) fun _ _ h => h.after ht
    rw [attempts, wp_bind, wp_tryWith]
    refine wp.mono (wp_attempt_commit hrun hdoc (k := ⟨cmdObj, startTime, retries⟩) hname hin hnum hs
      hn hops hsync) (fun pass t ht => ?_) (fun e t ht => ?_) fun _ h => h
    · cases pass with
      | done res => exact ht
      | again r => exact hagain t.leaveTry r ht
    · have hn' : Nested n s.core t.leaveTry.core := ht
      have hready := hs.of_nested hn'
      have hle : n ≤ t.leaveTry.txnNumber := hn.trans hn'.txnNumber
      refine wp_catch hready.level hn' ?_ (fun hnet hcan => ?_) fun _ _ _ => ?_
      · exact hn'.later (wp_retryAfterTransient_commit hrun hdoc hname hready hle hle
          (hn'.ops_ne_nil hops)) fun _ _ h => h.1.after hn'
      · -- the network retries of a commit are its own
        simp [canRetryNetworkErrorForCommand, hnet, hin, isCommitOrAbort, hname] at hcan
      · exact hagain _ _ hn'

end Parts

end MongoTests.Override
