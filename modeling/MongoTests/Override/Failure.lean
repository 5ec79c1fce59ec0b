import MongoTests.Lib.Machine
import MongoTests.Override.Parts

/-!
# Commands that fail

A top level command that ends with an error response leaves `ops` empty. One that throws does so
only when `ops` was already empty: the clean-up of `runCommandOverride` follows the body, and an
exception of the body goes past it.

* `Raised.Covered`: the exception finds `ops` empty, or a catch clause around it retries;
* `Tracked`: what every part of the override keeps (`keeps_tracking`);
* **`ops_empty_iff_covered`**: a command that fails leaves `ops` empty if and only if all the
  exceptions during it are covered.
-/

namespace MongoTests.Override

open MongoTests.Lib Prog

variable {α : Type} {env : Shell} {k : ℕ} {m : M α} {s s' s'' : State}

variable (env) in
/-- `ops` was empty, or one of the catch clauses around the exception retries. -/
def Raised.Covered (r : Raised) : Prop :=
  r.ops = [] ∨ ∃ c ∈ r.catches, c.retries env r.now r.exn = true

instance (r : Raised) : Decidable (r.Covered env) := inferInstanceAs (Decidable (_ ∨ _))

variable (env) in
def AllCovered (s : State) : Prop := ∀ r ∈ s.raised, r.Covered env

/-- From nesting level `k` on, `ops` does not grow; the nesting and the catch clauses are restored. -/
structure Restored (k : ℕ) (s s' : State) : Prop where
  nestingLevel : s'.nestingLevel = s.nestingLevel
  currentCommandID : s'.currentCommandID = s.currentCommandID
  catches : s'.catches = s.catches
  ops : k ≤ s.nestingLevel → s'.ops = s.ops ∨ s'.ops = []

theorem Restored.refl (k : ℕ) (s : State) : Restored k s s := ⟨rfl, rfl, rfl, fun _ => .inl rfl⟩

theorem Restored.trans (h : Restored k s s') (h' : Restored k s' s'') : Restored k s s'' where
  nestingLevel := h'.nestingLevel.trans h.nestingLevel
  currentCommandID := h'.currentCommandID.trans h.currentCommandID
  catches := h'.catches.trans h.catches
  ops hk := by
    rcases h'.ops (by rw [h.nestingLevel]; exact hk) with h₂ | h₂
    · rw [h₂]
      exact h.ops hk
    · exact .inr h₂

theorem Restored.level (h : Restored k s s') (hl : Level s) : Level s' := by
  unfold Level
  rw [h.nestingLevel, h.currentCommandID]
  exact hl

variable (env) in
/-- An exception that leaves the code: the exceptions so far are covered just when this one is. -/
def Escapes (s : State) (e : Exn) (s' : State) : Prop :=
  AllCovered env s' ↔ s'.ops = [] ∨ ∃ c ∈ s.catches, c.retries env s'.now e = true

variable (env k) in
/-- **What every part of the override keeps.** -/
def tracking : Contract State Exn where
  pre s := Level s ∧ AllCovered env s
  ret s s' := Restored k s s' ∧ AllCovered env s'
  exc s e s' := Restored k s s' ∧ Escapes env s e s'
  halt _ := True
  refl hs := ⟨.refl k _, hs.2⟩
  next hs hr := ⟨hr.1.level hs.1, hr.2⟩
  trans h h' := ⟨h.1.trans h'.1, h'.2⟩
  transExc := by
    rintro s s' s'' e ⟨hr, _⟩ ⟨hr', he⟩
    refine ⟨hr.trans hr', ?_⟩
    unfold Escapes
    rw [← hr.catches]
    exact he
  halt_of_pre _ := trivial

variable (env k) in
abbrev Tracked (m : M α) : Prop := (tracking env k).Holds m

/-! ## The constructs -/

theorem Tracked.mono {k' : ℕ} (hk : k ≤ k') (h : Tracked env k m) : Tracked env k' m := by
  have hr : ∀ {s s'}, Restored k s s' → Restored k' s s' := fun hr =>
    ⟨hr.nestingLevel, hr.currentCommandID, hr.catches, fun h' => hr.ops (hk.trans h')⟩
  intro s hs
  exact wp.mono (h s hs) (fun _ _ ht => ⟨hr ht.1, ht.2⟩) (fun _ _ ht => ⟨hr ht.1, ht.2⟩)
    fun _ ht => ht

/-- **A new exception**: the record is the one the catch clauses will meet. -/
theorem tracked_raise : Raises (tracking env k) := by
  intro α e s hs
  rw [Contract.HoldsAt, wp_raise]
  refine ⟨⟨rfl, rfl, rfl, fun _ => .inl rfl⟩, ?_⟩
  simp only [Escapes, AllCovered, State.note, List.mem_append, List.mem_singleton]
  constructor
  · intro h
    exact h _ (.inr rfl)
  · rintro h r (hr | rfl)
    · exact hs.2 r hr
    · exact h

theorem Mild.restored {g : State → State} (hg : Mild g) (s : State) : Restored k s (g s) :=
  ⟨hg.nestingLevel s, hg.currentCommandID s, hg.catches s, fun _ => hg.ops s⟩

/-- Changes of the other variables. -/
theorem Tracked.modify {g : State → State} (hg : Mild g) : Tracked env k (Prog.modify g) := by
  refine Contract.Holds.modify fun s hs => ⟨hg.restored s, ?_⟩
  unfold AllCovered
  rw [hg.raised]
  exact hs.2

theorem tracked_clientFunction (dbName : String) (cmdObj : Cmd) :
    Tracked env k (clientFunction dbName cmdObj) := by
  intro s hs
  refine wp_clientFunction trivial fun ans answers server _ => ?_
  have hr : Restored k s { s with answers := answers, server := server, now := ans.now } :=
    ⟨rfl, rfl, rfl, fun _ => .inl rfl⟩
  exact Contract.HoldsAt.after ⟨hr, hs.2⟩ (holds_ofExcept tracked_raise ans.result _
    ⟨hr.level hs.1, hs.2⟩)

/-- **The catch clause**: a clause that retries finds all exceptions covered, and one that does not
passes the exception on as it is. -/
theorem Tracked.tryWith {c : Catch} {h : Exn → M α} (hm : Tracked env k m)
    (hthrow : ∀ e s, Level s → c.retries env s.now e = false → h e s = (.error e, s))
    (hretry : ∀ e s, Level s → c.retries env s.now e = true → AllCovered env s →
      (tracking env k).HoldsAt (h e) s) :
    Tracked env k (tryWith c m h) := by
  intro s hs
  rw [Contract.HoldsAt, wp_tryWith]
  refine wp.mono (hm (s.enterTry c) hs) (fun _ t ht => ⟨?_, ht.2⟩) (fun e t ht => ?_) fun _ ht => ht
  · exact ⟨ht.1.nestingLevel, ht.1.currentCommandID,
      by simp [State.leaveTry, ht.1.catches, State.enterTry], ht.1.ops⟩
  · obtain ⟨hr, he⟩ := ht
    have hr' : Restored k s t.leaveTry :=
      ⟨hr.nestingLevel, hr.currentCommandID, by simp [State.leaveTry, hr.catches, State.enterTry],
        hr.ops⟩
    have he' : AllCovered env t.leaveTry ↔
        t.ops = [] ∨ ∃ c' ∈ c :: s.catches, c'.retries env t.now e = true := he
    cases hcr : c.retries env t.now e with
    | true =>
      have hcov := he'.2 (.inr ⟨c, List.mem_cons_self, hcr⟩)
      exact Contract.HoldsAt.after ⟨hr', hcov⟩ (hretry e _ (hr'.level hs.1) hcr hcov)
    | false =>
      rw [wp_of_eq (hthrow e _ (hr'.level hs.1) hcr)]
      refine ⟨hr', ?_⟩
      simp only [List.mem_cons, exists_eq_or_imp, hcr, Bool.false_eq_true, false_or] at he'
      exact he'

/-- Only a top level command is pushed. -/
theorem tracked_push (c : Bool) (dbName : String) (cmdObj : Cmd) : Tracked env 2 (do
    let nested ← isNested
    when (!nested && c) (pushOp dbName cmdObj)
    pure cmdObj) := by
  intro t ht
  by_cases hn : 0 < t.nestingLevel
  · rw [Contract.HoldsAt, wp_bind, wp_isNested hn, wp_bind, wp_when, pushOp, wp_modify, wp_pure,
      wp_pure]
    refine ⟨fun hpush => ⟨⟨rfl, rfl, rfl, fun h2 => ?_⟩, ht.2⟩, fun _ => ⟨.refl 2 t, ht.2⟩⟩
    simp at hpush
    omega
  · have hraise := tracked_raise (k := 2) Unit (error "nestingLevel > 0") t ht
    rw [Contract.HoldsAt, wp_raise] at hraise
    rw [Contract.HoldsAt, wp_bind, isNested, wp_bind, wp_get, wp_bind]
    simp only [jsAssert, hn, decide_false, Bool.false_eq_true, if_false, wp_raise]
    exact hraise

/-- The `finally` clause undoes the entry. -/
theorem Restored.leave (h : Restored 2 (enter s) s') : Restored 1 s (leave s') where
  nestingLevel := by simp [Override.leave, h.nestingLevel, enter]
  currentCommandID := by simp [Override.leave, h.currentCommandID, enter]
  catches := h.catches
  ops hk := h.ops (by simpa [enter] using hk)

/-- **Every part is tracked.** -/
theorem keeps_tracking : Keeps env (tracking env 1) (tracking env 2) where
  raise := tracked_raise
  widen := Tracked.mono (by omega)
  modify := Tracked.modify
  clientFunction := tracked_clientFunction
  push := tracked_push
  tryWith {c m run lsid} hm htransient htxn :=
    Tracked.tryWith hm (fun e s => onException_eq) fun e s hl hc hcov =>
      wp_onException hl hc (htransient s ⟨hl, hcov⟩) (fun _ _ => htxn s ⟨hl, hcov⟩) fun _ _ _ =>
        ⟨⟨rfl, rfl, rfl, fun _ => .inl rfl⟩, hcov⟩
  pre_enter hs := ⟨level_enter hs.1, hs.2⟩
  leave hs h := wp.mono h (fun _ t ht => ⟨ht.1.leave, ht.2⟩) (fun e t ht => ⟨ht.1.leave, ht.2⟩)
    fun _ ht => ht

/-! ## Top level commands -/

/-- Between two commands of the test. -/
structure Idle (s : State) : Prop where
  nestingLevel : s.nestingLevel = 0
  currentCommandID : s.currentCommandID = []
  catches : s.catches = []

theorem Idle.level (h : Idle s) : Level s := by
  unfold Level
  rw [h.nestingLevel, h.currentCommandID]
  rfl

/-- The clean-up at the top level empties `ops`, also when it throws. -/
theorem wp_clearOnFailure {run : String → Cmd → M Response}
    (hrun : ∀ dbName cmdObj, Tracked env 1 (run dbName cmdObj))
    (htxn : env.configuredForTxnOverride = true) (res : Response) (lsid : Option ℕ) (hl : Level s)
    (hn : s.nestingLevel = 1) (hc : AllCovered env s) :
    wp (clearOnFailure env run res lsid)
      (fun _ s' => AllCovered env s' ∧ (hasError res = true → s'.ops = []))
      (fun _ s' => AllCovered env s' ∧ s'.ops = []) (fun _ => True) s := by
  rw [clearOnFailure, htxn, Override.when, if_pos rfl, wp_bind, wp_isNested (by omega), wp_bind,
    wp_get, wp_when]
  refine ⟨fun _ => ?_, fun hno => ?_⟩
  · rw [wp_bind, wp_log hl, wp_bind, clearOpsList, wp_modify]
    have hr : Restored 1 s { s with ops := [] } := ⟨rfl, rfl, rfl, fun _ => .inr rfl⟩
    have habort := keeps_tracking.abortTransaction hrun lsid s.txnNumber _ ⟨hr.level hl, hc⟩
    -- nothing is pushed below the top level
    have hops : ∀ t, Restored 1 { s with ops := [] } t → t.ops = [] :=
      fun t ht => (ht.ops (by simp [hn])).elim id id
    refine wp.mono habort (fun _ t ht => ⟨ht.2, fun _ => hops t ht.1⟩) (fun e t ht => ?_) fun _ ht => ht
    exact ⟨ht.2.2 (.inl (hops t ht.1)), hops t ht.1⟩
  · refine ⟨hc, fun herr => ?_⟩
    simpa [hn, herr] using hno

/-- A top level command that returns an error leaves `ops` empty; one that throws has covered
exceptions only just when it leaves `ops` empty. -/
theorem wp_topLevel (htxn : env.configuredForTxnOverride = true) (fuel : ℕ) (dbName : String)
    (arg : CmdArg) (hs : Idle s) (hc : AllCovered env s) :
    wp (runCommandOverride env fuel dbName arg)
      (fun res s' => AllCovered env s' ∧ (hasError res = true → s'.ops = []))
      (fun _ s' => AllCovered env s' ↔ s'.ops = []) (fun _ => True) s := by
  cases fuel with
  | zero => trivial
  | succ fuel =>
    have hrun : ∀ dbName cmdObj, Tracked env 1 (runCommandOverride env fuel dbName (.plain cmdObj)) :=
      fun dbName cmdObj => keeps_tracking.runCommandOverride fuel dbName (.plain cmdObj)
    have hl : Level (enter s) := level_enter hs.level
    rw [runCommandOverride, wp_bind, wp_modify, wp_ensuring, wp_bind]
    refine wp.mono (keeps_tracking.body hrun fuel dbName _ _ (enter s) ⟨hl, hc⟩) (fun res t ht => ?_)
      (fun e t ht => ?_) fun _ ht => ht
    · obtain ⟨hr, hct⟩ := ht
      have hn : t.nestingLevel = 1 := by rw [hr.nestingLevel, enter, hs.nestingLevel]
      rw [wp_bind]
      refine wp.mono (wp_clearOnFailure hrun htxn res _ (hr.level hl) hn hct)
        (fun _ t' ht' => ?_) (fun e t' ht' => ?_) fun _ ht => ht
      · exact ht'
      · exact ⟨fun _ => ht'.2, fun _ => ht'.1⟩
    · -- the body threw: there is no catch clause around it
      have he : AllCovered env t ↔ t.ops = [] ∨ ∃ c ∈ s.catches, c.retries env t.now e = true := ht.2
      rw [hs.catches] at he
      exact he.trans (by simp [leave])

variable {t t' : Test} {c : Call}

theorem idle_of_reach (h : Reach (issue env) Free Fresh t) : t.ended = true → Idle t.state := by
  refine Reach.inv (I := fun t => t.ended = true → Idle t.state) ?_ ?_ h
  · rintro _ rfl _
    exact ⟨rfl, rfl, rfl⟩
  · intro t c t' ih _ hi hended
    obtain ⟨hend, hrun, hsome⟩ := issue_eq_some.1 hi
    have hs := ih hend
    have hs₀ : Idle { t.state with answers := c.answers, raised := [] } :=
      ⟨hs.nestingLevel, hs.currentCommandID, hs.catches⟩
    have htracked := (@keeps_tracking env).runCommandOverride c.fuel c.dbName c.arg _
      ⟨hs₀.level, fun _ hr => absurd hr List.not_mem_nil⟩
    have hr : Restored 1 { t.state with answers := c.answers, raised := [] } t'.state := by
      obtain ⟨s', _ | (res | e | _)⟩ := t'
      · simp at hsome
      · exact (htracked.ok hrun).1
      · exact (htracked.error hrun).1
      · simp [Test.ended] at hended
    exact ⟨hr.nestingLevel.trans hs.nestingLevel, hr.currentCommandID.trans hs.currentCommandID,
      hr.catches.trans hs.catches⟩

/-- **A command that fails leaves `ops` empty if and only if every exception during it found `ops`
empty or was retried by a catch clause around it.** -/
theorem ops_empty_iff_covered (htxn : env.configuredForTxnOverride = true)
    (h : Reach (issue env) Free Fresh t) (hi : issue env t c = some t') (hended : t'.ended = true) :
    (t'.failed = true → t'.state.ops = []) ↔ ∀ r ∈ t'.state.raised, r.Covered env := by
  obtain ⟨hend, hrun, hsome⟩ := issue_eq_some.1 hi
  have hs := idle_of_reach h hend
  have hs₀ : Idle { t.state with answers := c.answers, raised := [] } :=
    ⟨hs.nestingLevel, hs.currentCommandID, hs.catches⟩
  have htop := wp_topLevel htxn c.fuel c.dbName c.arg hs₀ (fun _ hr => absurd hr List.not_mem_nil)
  obtain ⟨s', _ | (res | e | _)⟩ := t'
  · simp at hsome
  · obtain ⟨hcov, hops⟩ := htop.ok hrun
    exact ⟨fun _ => hcov, fun _ => hops⟩
  · have hiff : AllCovered env s' ↔ s'.ops = [] := htop.error hrun
    exact ⟨fun hops => hiff.2 (hops rfl), fun hcov _ => hiff.1 hcov⟩
  · simp [Test.ended] at hended

/-- An insert that the server rejects, while the connection is closed once under the abort. -/
def rejectedInsert : Call := insertCall 2 [.badValue, .closed, .worked, .worked]

theorem rejected_insert_empties_ops :
    ∃ t t', Reach (issue (testShell true)) Free Fresh t ∧
      issue (testShell true) t rejectedInsert = some t' ∧ t.state.ops.length = 1 ∧
      t'.failed = true ∧ t'.state.raised.length = 1 ∧ t'.state.ops = [] := by
  have hrun : ∃ t, Reach (issue (testShell true)) Free Fresh t ∧ t.state.ops.length = 1 ∧
      (issue (testShell true) t rejectedInsert).any (fun t' => decide (t'.ended = true ∧
        t'.failed = true ∧ t'.state.raised.length = 1 ∧
        ∀ r ∈ t'.state.raised, r.Covered (testShell true))) = true :=
    Reach.exists_of_run (.start rfl) [insertCall 1 [.worked]] (by decide +kernel)
  obtain ⟨t, h, hops, hany⟩ := hrun
  obtain ⟨t', hi, hp⟩ := (Option.any_eq_true _ _).1 hany
  obtain ⟨hended, hfailed, hraised, hcov⟩ := of_decide_eq_true hp
  exact ⟨t, t', h, hi, hops, hfailed, hraised,
    (ops_empty_iff_covered rfl h hi hended).2 hcov hfailed⟩

/-- **An insert that throws stays in `ops`**: without network retries, the connection is closed
before the server sees the second insert. -/
theorem thrown_insert_stays_in_ops :
    ∃ t, Reach (issue (testShell false)) Free Fresh t ∧ t.failed = true ∧
      t.state.ops.map Op.issued = [⟨"test", insertCmd 1⟩, ⟨"test", insertCmd 2⟩] :=
  Reach.exists_of_run (.start rfl) [insertCall 1 [.worked], insertCall 2 [.closed]]
    (by decide +kernel)

end MongoTests.Override
