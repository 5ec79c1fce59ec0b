import MongoTests.Override.Replay

/-!
# Nested commands

A nested command is sent as it is, or goes to the current transaction; it is not pushed to `ops` and
neither starts nor ends a transaction. By induction over the nesting, nested commands do what
`Replays` asks of them.

* `SentAs`: how a nested command is sent;
* `wp_runCommandOverride_nested`: a nested command, by its retry loop;
* **`replays_runCommandOverride`**.
-/

namespace MongoTests.Override

open MongoTests.Lib Prog

variable {env : Shell} {s : State} {c : Core} {b n : ℤ}

/-- How a command runs the commands nested in it. -/
abbrev nestedRun (env : Shell) (fuel : ℕ) : String → Cmd → M Response :=
  fun dbName cmdObj => runCommandOverride env fuel dbName (.plain cmdObj)

/-! ## The command that is sent -/

/-- The command without its read and write concern. -/
def Cmd.bare (cmdObj : Cmd) : Cmd := { cmdObj with readConcern := none, writeConcern := none }

variable {cmdObj cmdObj' : Cmd}

theorem bare_appendReadConcern (h : appendReadConcern env cmdObj = .ok cmdObj') :
    cmdObj'.bare = cmdObj.bare := by
  unfold appendReadConcern at h
  split at h
  · split at h
    · split at h
      · cases h
      · cases h
        rfl
    · cases h
      rfl
  · cases h
    rfl

theorem bare_appendWriteConcern (h : appendWriteConcern env cmdObj = .ok cmdObj') :
    cmdObj'.bare = cmdObj.bare := by
  unfold appendWriteConcern at h
  split at h
  · split at h
    · cases h
    · split at h
      · cases h
      · cases h
        rfl
    · cases h
      rfl
  · cases h
    rfl

theorem bare_appendReadAndWriteConcern (h : appendReadAndWriteConcern env cmdObj = .ok cmdObj') :
    cmdObj'.bare = cmdObj.bare := by
  unfold appendReadAndWriteConcern at h
  simp only [bind, Except.bind] at h
  split at h
  · cases h
  · rename_i c₁ h₁
    rw [bare_appendWriteConcern h, bare_appendReadConcern h₁]
    split <;> rfl

/-- The last step before a command is sent. -/
theorem wp_appendReadAndWriteConcern {Q : Cmd → State → Prop} {E : Exn → State → Prop}
    {S : State → Prop} (hQ : ∀ cmdObj', cmdObj'.bare = cmdObj.bare → Q cmdObj' s)
    (hE : ∀ e, E e (s.note e)) : wp (ofExcept (appendReadAndWriteConcern env cmdObj)) Q E S s := by
  cases happ : appendReadAndWriteConcern env cmdObj with
  | error e =>
    rw [ofExcept, wp_raise]
    exact hE e
  | ok cmdObj' => exact hQ cmdObj' (bare_appendReadAndWriteConcern happ)

/-- The command goes to transaction `n`, or as it is. -/
def SentAs (n : ℤ) (cmdObj cmdObj' : Cmd) : Prop :=
  (∃ i, cmdObj'.bare = { cmdObj.bare with
    txnNumber := some n, stmtId := some i, autocommit := true }) ∨ cmdObj'.bare = cmdObj.bare

theorem SentAs.name (h : SentAs n cmdObj cmdObj') : cmdObj'.name = cmdObj.name := by
  rcases h with ⟨_, h⟩ | h
  all_goals
    have hname := congrArg Cmd.name h
    exact hname

theorem SentAs.startTransaction (h : SentAs n cmdObj cmdObj') :
    cmdObj'.startTransaction = cmdObj.startTransaction := by
  rcases h with ⟨_, h⟩ | h
  all_goals
    have hstart := congrArg Cmd.startTransaction h
    exact hstart

theorem SentAs.issued (h : SentAs n cmdObj cmdObj') (dbName : String) :
    Op.issued ⟨dbName, cmdObj'⟩ = Op.issued ⟨dbName, cmdObj⟩ := by
  rcases h with ⟨_, h⟩ | h
  all_goals
    have hissued := congrArg (fun c => Op.issued ⟨dbName, c⟩) h
    exact hissued

theorem SentAs.autocommit (h : SentAs n cmdObj cmdObj') (hc : cmdObj.autocommit = true) :
    cmdObj'.autocommit = true := by
  rcases h with ⟨_, h⟩ | h
  · exact congrArg Cmd.autocommit h
  · have hauto := congrArg Cmd.autocommit h
    exact hauto.trans hc

theorem SentAs.txnNumber (h : SentAs n cmdObj cmdObj') :
    cmdObj'.txnNumber = some n ∨ cmdObj'.txnNumber = cmdObj.txnNumber := by
  rcases h with ⟨_, h⟩ | h
  · exact .inl (congrArg Cmd.txnNumber h)
  · have hnum := congrArg Cmd.txnNumber h
    exact .inr hnum

section Nesting

variable {run : String → Cmd → M Response} {Q : Response → State → Prop}
  {E : Exn → State → Prop} {S : State → Prop} {dbName : String} {lsid : Option ℕ}

/-- A nested command is not pushed, and never starts or ends a transaction. -/
theorem wp_setupCommand_nested (hnest : 2 ≤ s.nestingLevel) :
    wp (setupCommand env run dbName cmdObj lsid)
      (fun cmdObj' t => t.core = s.core ∧ SentAs s.txnNumber cmdObj cmdObj')
      (fun _ t => t.core = s.core) (fun t => t.core = s.core) s := by
  have hpos : 0 < s.nestingLevel := by omega
  have hone : decide (s.nestingLevel ≠ 1) = true := decide_eq_true (by omega)
  -- the last step of both branches
  have happend : ∀ (c₁ : Cmd) (t : State), t.core = s.core → SentAs s.txnNumber cmdObj c₁ →
      wp (ofExcept (appendReadAndWriteConcern env c₁))
        (fun cmdObj' t => t.core = s.core ∧ SentAs s.txnNumber cmdObj cmdObj')
        (fun _ t => t.core = s.core) (fun t => t.core = s.core) t := by
    intro c₁ t ht hc₁
    refine wp_appendReadAndWriteConcern (fun c₂ hc₂ => ⟨ht, ?_⟩) fun _ => ht
    rw [SentAs, hc₂]
    exact hc₁
  rw [setupCommand, wp_ite]
  refine ⟨fun _ => ?_, fun _ => ⟨rfl, .inr rfl⟩⟩
  rw [setupTransactionCommand, wp_bind]
  cases commandSupportsTxn dbName { cmdObj with readConcern := none, writeConcern := none } with
  | error e =>
    rw [ofExcept, wp_raise]
    rfl
  | ok supported =>
    rw [ofExcept, wp_pure, wp_bind, wp_get, wp_ite]
    refine ⟨fun _ => ?_, fun _ => ?_⟩
    · rw [wp_bind, chooseTransaction, wp_bind, wp_isNested hpos, wp_bind, wp_get, hone, if_pos rfl,
        wp_pure, wp_bind, continueTransaction, wp_bind, wp_get, wp_bind, wp_modify, wp_bind,
        wp_jsAssert]
      refine ⟨fun _ => ?_, fun h => by simp at h⟩
      rw [wp_bind, wp_jsAssert]
      refine ⟨fun _ => ?_, fun h => by simp at h⟩
      rw [wp_bind, wp_isNested (by exact hpos), wp_bind, wp_when]
      refine ⟨fun h => ?_, fun _ => happend _ _ rfl (.inl ⟨_, rfl⟩)⟩
      simp [hone] at h
    · rw [wp_bind, endTransaction, wp_bind, wp_get, wp_when]
      refine ⟨fun _ => ?_, fun _ => happend _ _ rfl (.inr rfl)⟩
      rw [wp_bind, wp_isNested hpos, hone, wp_when]
      exact ⟨fun h => by simp at h, fun _ => happend _ _ rfl (.inr rfl)⟩

theorem wp_body_nested {fuel : ℕ} (hnest : 2 ≤ s.nestingLevel)
    (hattempts : ∀ t cmdObj' startTime retries, t.core = s.core →
      SentAs s.txnNumber cmdObj cmdObj' →
      wp (attempts env run dbName cmdObj' lsid startTime fuel retries) Q E S t)
    (hE : ∀ e t, t.core = s.core → E e t) (hS : ∀ t, t.core = s.core → S t) :
    wp (runCommandOverrideBody env run fuel dbName cmdObj lsid) Q E S s := by
  rw [runCommandOverrideBody, wp_bind, wp_get]
  refine wp_quiet_bind (fun _ => holds_validate quiet_raise cmdObj) (fun _ t ht => ?_) hE hS
  rw [wp_bind]
  have hnest' : 2 ≤ t.nestingLevel := by
    rw [show t.nestingLevel = s.nestingLevel from congrArg Core.nestingLevel ht]
    exact hnest
  refine wp.mono (wp_setupCommand_nested hnest') (fun cmdObj' t' ht' => ?_)
    (fun e t' ht' => hE e t' (ht'.trans ht)) fun t' ht' => hS t' (ht'.trans ht)
  have hnum : t.txnNumber = s.txnNumber := congrArg Core.txnNumber ht
  exact hattempts t' cmdObj' _ _ (ht'.1.trans ht) (hnum ▸ ht'.2)

/-- A nested command does not clear `ops` on a failure. -/
theorem clearOnFailure_nested {res : Response} (hnest : 2 ≤ s.nestingLevel) {Q : Unit → State → Prop}
    (h : Q () s) : wp (clearOnFailure env run res lsid) Q E S s := by
  rw [clearOnFailure, wp_when]
  refine ⟨fun _ => ?_, fun _ => h⟩
  have hone : decide (s.nestingLevel ≠ 1) = true := decide_eq_true (by omega)
  rw [wp_bind, wp_isNested (by omega), wp_bind, wp_get, wp_when]
  exact ⟨fun hc => by simp [hone] at hc, fun _ => h⟩

end Nesting

/-- The core inside a nested command. -/
def Core.enter (c : Core) (id : ℕ) : Core :=
  { c with nestingLevel := c.nestingLevel + 1, currentCommandID := c.currentCommandID ++ [id] }

theorem Ready.enter (h : Ready c) (id : ℕ) : Ready (c.enter id) where
  level := by simp [Core.enter, h.level]
  nested := by simp [Core.enter]
  ops := h.ops
  commits := h.commits

theorem Around.leave {id : ℕ} (h : Around b (c.enter id) s.core) : Around b c (leave s).core where
  nestingLevel := by
    have hl : s.nestingLevel = c.nestingLevel + 1 := h.nestingLevel
    simp [Override.leave, State.core, hl]
  currentCommandID := by
    have hi : s.currentCommandID = c.currentCommandID ++ [id] := h.currentCommandID
    simp [Override.leave, State.core, hi]
  txnNumber := h.txnNumber
  kept := h.kept
  commits := h.commits

theorem Nested.leave {id : ℕ} (h : Nested b (c.enter id) s.core) : Nested b c (leave s).core :=
  ⟨h.toAround.leave, h.ops⟩

/-- **A nested command**, by its retry loop. -/
theorem wp_runCommandOverride_nested {fuel : ℕ} {dbName : String} {Q : Response → State → Prop}
    {E : Exn → State → Prop} {S : State → Prop} (hs : Ready s.core)
    (hattempts : ∀ t cmdObj' startTime retries, t.core = s.core.enter s.newestCommandID →
      SentAs s.txnNumber cmdObj cmdObj' →
      wp (attempts env (nestedRun env fuel) dbName cmdObj' cmdObj.lsid startTime fuel retries)
        (fun res t => 2 ≤ t.nestingLevel ∧ Q res (leave t)) (fun e t => E e (leave t)) S t)
    (hE : ∀ e t, t.core = s.core.enter s.newestCommandID → E e (leave t))
    (hS : ∀ t, t.core = s.core.enter s.newestCommandID → S t) :
    wp (runCommandOverride env (fuel + 1) dbName (.plain cmdObj)) Q E S s := by
  have hnest : 2 ≤ (enter s).nestingLevel := Nat.succ_le_succ hs.nested
  rw [runCommandOverride, wp_bind, wp_modify, wp_ensuring, wp_bind]
  refine wp_body_nested hnest (fun t cmdObj' startTime retries ht hsent => ?_) hE hS
  refine wp.imp (hattempts t cmdObj' startTime retries ht hsent) fun res t' ht' => ?_
  rw [wp_bind]
  exact clearOnFailure_nested ht'.1 ht'.2

theorem StatementDone.leave {op op' : Op} {id : ℕ} {res : Response}
    (h : StatementDone b op (c.enter id) res s.core) (hissued : op.issued = op'.issued)
    (hstart : op.cmdObj.startTransaction = op'.cmdObj.startTransaction) :
    StatementDone b op' c res (leave s).core := by
  refine ⟨h.nested.leave, h.noWriteConcernError, fun he => ?_⟩
  have hran := h.ran he
  unfold Ran Extended at hran ⊢
  rw [← hissued, ← hstart]
  exact hran

theorem CommitDone.leave {id : ℕ} {res : Response} (h : CommitDone b n (c.enter id) res s.core) :
    CommitDone b n c res (leave s).core := by
  refine ⟨h.around.leave, h.ops, fun he => ?_⟩
  have hcom := h.committed he
  exact ⟨hcom.status, hcom.stmts, hcom.number_ge, hcom.number_le⟩

theorem Nested.of_core {t : State} (h : AllExact c) (ht : t.core = c) : Nested b c t.core := by
  rw [ht]
  exact .refl b h

/-- The nesting level inside a nested command. -/
theorem Around.two_le {id : ℕ} {t : State} (h : Around b (c.enter id) t.core) (hc : Ready c) :
    2 ≤ t.nestingLevel := by
  rw [show t.nestingLevel = c.nestingLevel + 1 from h.nestingLevel]
  exact Nat.succ_le_succ hc.nested

section Levels

variable {fuel : ℕ} {dbName : String} (ih : Replays (nestedRun env fuel))
include ih

/-- Commands other than the commit, with a bound below their transaction. -/
theorem keeps_runCommandOverride (hdoc : Documented env) (hname : cmdObj.name ≠ "commitTransaction")
    (hsp : ∀ n cmdObj' m, m ≤ b → b < n → SentAs n cmdObj cmdObj' → Server.Spares m cmdObj') :
    (replaying b).Holds (runCommandOverride env (fuel + 1) dbName (.plain cmdObj)) := by
  intro s hs
  have hready := hs.1.enter s.newestCommandID
  refine wp_runCommandOverride_nested hs.1 (fun t cmdObj' startTime retries ht hsent => ?_)
    (fun e t ht => (Nested.of_core hready.commits ht).leave) fun t ht => ?_
  · have hpre : (replaying b).pre t := by
      refine ⟨ht ▸ hready, ?_⟩
      rw [show t.txnNumber = s.txnNumber from congrArg Core.txnNumber ht]
      exact hs.2
    refine wp.mono (keeps_attempts ih hdoc (hsent.name ▸ hname)
      (fun m hm => hsp _ _ m hm hs.2 hsent) dbName _ startTime fuel retries t hpre)
      (fun _ t' h => ?_) (fun _ t' h => ?_) fun _ h => h
    · have hn : Nested b (s.core.enter s.newestCommandID) t'.core := ht ▸ h
      exact ⟨hn.two_le hs.1, hn.leave⟩
    · have hn : Nested b (s.core.enter s.newestCommandID) t'.core := ht ▸ h
      exact hn.leave
  · exact (Nested.of_core (b := b) hready.commits ht).commits

theorem wp_runCommandOverride_statement (hdoc : Documented env) {op : Op} (hs : Ready s.core)
    (hb : b < s.txnNumber) (hop : op ∈ s.ops) :
    wp (runCommandOverride env (fuel + 1) op.dbName (.plain op.cmdObj))
      (fun res t => StatementDone b op s.core res t.core)
      (fun _ t => Nested b s.core t.core) (fun t => AllExact t.core) s := by
  have hready := hs.enter s.newestCommandID
  have hst := hs.ops.statement op hop
  refine wp_runCommandOverride_nested hs (fun t cmdObj' startTime retries ht hsent => ?_)
    (fun e t ht => (Nested.of_core hready.commits ht).leave)
    fun t ht => (Nested.of_core (b := b) hready.commits ht).commits
  have htxn : t.txnNumber = s.txnNumber := congrArg Core.txnNumber ht
  have hst' : isStatement cmdObj' = true := by
    simp only [isStatement, isCmdInTransaction, Bool.and_eq_true] at hst ⊢
    rw [hsent.name]
    exact ⟨hsent.autocommit hst.1, hst.2⟩
  have hnum : ∀ n, cmdObj'.txnNumber = some n → n = t.txnNumber := by
    intro n hn
    rcases hsent.txnNumber with h | h
    · rw [htxn]
      exact Option.some.inj (hn.symm.trans h)
    · -- `ops` holds no txnNumber
      rw [hs.ops.txnNumber op hop] at h
      rw [h] at hn
      cases hn
  refine wp.mono (wp_attempts_statement ih hdoc hst' (ht ▸ hready) (htxn ▸ hb) hnum fuel retries)
    (fun _ t' h => ?_) (fun _ t' h => ?_) fun _ h => h
  · rw [ht] at h
    exact ⟨h.nested.two_le hs, h.leave (hsent.issued op.dbName) hsent.startTransaction⟩
  · rw [ht] at h
    exact h.leave

theorem wp_runCommandOverride_commit (hdoc : Documented env) (lsid : Option ℕ) (hs : Ready s.core)
    (hb : b ≤ s.txnNumber) (hops : s.ops ≠ []) (hsync : Synced s.txnNumber s.core) :
    wp (runCommandOverride env (fuel + 1) "admin" (.plain (commitCmd lsid s.txnNumber)))
      (fun res t => CommitDone b s.txnNumber s.core res t.core)
      (fun _ t => Nested b s.core t.core) (fun t => AllExact t.core) s := by
  have hready := hs.enter s.newestCommandID
  refine wp_runCommandOverride_nested hs (fun t cmdObj' startTime retries ht hsent => ?_)
    (fun e t ht => (Nested.of_core hready.commits ht).leave)
    fun t ht => (Nested.of_core (b := b) hready.commits ht).commits
  have htxn : t.txnNumber = s.txnNumber := congrArg Core.txnNumber ht
  have hops' : t.ops ≠ [] := by
    rw [show t.ops = s.ops from congrArg Core.ops ht]
    exact hops
  have hnum : cmdObj'.txnNumber = some s.txnNumber := by
    rcases hsent.txnNumber with h | h
    · exact h
    · exact h
  have hsync' : Synced s.txnNumber t.core := by
    rw [ht]
    exact hsync
  refine wp.mono (wp_attempts_commit ih hdoc hsent.name (hsent.autocommit rfl) hnum fuel t retries
    (ht ▸ hready) htxn.ge hops' hsync') (fun _ t' h => ?_) (fun _ t' h => ?_) fun _ h => h
  · rw [ht] at h
    have hdone := h.leave
    exact ⟨h.around.two_le hs, hdone.around.weaken hb, hdone.ops, hdone.committed⟩
  · rw [ht] at h
    exact h.leave.weaken hb

end Levels

/-- **Nested commands do what their callers need**, however deep the nesting. -/
theorem replays_runCommandOverride (hdoc : Documented env) (fuel : ℕ) :
    Replays (nestedRun env fuel) := by
  induction fuel with
  | zero =>
    exact ⟨fun hs _ _ => hs.commits, fun _ _ _ hs => hs.1.commits, fun _ _ _ _ hs => hs.1.commits,
      fun _ hs _ _ _ => hs.commits⟩
  | succ fuel ih =>
    refine ⟨wp_runCommandOverride_statement ih hdoc, fun lsid n => ?_, fun dbName lsid collName => ?_,
      wp_runCommandOverride_commit ih hdoc⟩
    · refine keeps_runCommandOverride ih hdoc (by simp [abortCmd]) fun n cmdObj' m _ _ hsent => .inr ?_
      have hname : cmdObj'.name = "abortTransaction" := hsent.name
      exact ⟨hsent.autocommit rfl, by simp [isStatement, isCommitOrAbort, hname]⟩
    · refine keeps_runCommandOverride ih hdoc (by simp [createCmd]) fun n cmdObj' m hm hb hsent =>
        .inl fun n' hn' => ?_
      rcases hsent.txnNumber with h | h
      · rw [h] at hn'
        cases hn'
        omega
      · rw [h] at hn'
        cases hn'

end MongoTests.Override
