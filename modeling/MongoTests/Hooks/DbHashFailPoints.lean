import MongoTests.Hooks.DbHashVerdict

/-!
# The fail points of the dbHash check

* `Pending`: fail points are on, and all of them are in the list that is turned off at the end.
* `Env.NothingRaised`: nothing raises from the second fail point to the last database.
* **`failPoints_off_iff`**: the runs that leave no fail point on.
-/

namespace MongoTests.Hooks.DbHashBackground

open MongoTests.Lib MongoTests.Lib.Prog

section FailPoints

variable {Time : Type} [LinearOrder Time] {env : Env Time} {dbName : String} {node : Node} {s t : State Time}

def State.Pending (s : State Time) : Prop := s.failPoints ≠ [] ∧ s.resetFns = s.failPoints

/-- Fail points that are pending before a step are so after it. -/
def Kept (s t : State Time) : Prop := s.Pending → t.Pending

omit [LinearOrder Time] in
theorem Kept.refl (s : State Time) : Kept s s := id

omit [LinearOrder Time] in
theorem Kept.trans (s t u : State Time) (h : Kept s t) (h' : Kept t u) : Kept s u := h' ∘ h

/-- Nothing raises once the fail point of the primary is on. -/
structure Env.NothingRaised (env : Env Time) : Prop where
  configureFailPoint : ∀ node ∈ env.secondaries, node.configureFailPoint = none
  listDatabases : ∀ node ∈ env.sessions, ∃ names, node.listDatabases = .ok names
  ping : ∀ node ∈ env.sessions, node.ping = none
  settled : ∀ dbName, env.Listed dbName → Settled env dbName

/-- Nothing raises, or it does before a fail point is on. -/
def Env.FailPointsOff (env : Env Time) : Prop :=
  env.construct ≠ none ∨ env.supportsSnapshotReadConcern = false ∨ env.startSessions ≠ none ∨
    env.primary.configureFailPoint ≠ none ∨ env.NothingRaised

/-! ## The steps -/

omit [LinearOrder Time] in
theorem guarded_raising {err : Option Err} :
    Guarded Kept (err = none) (ofExcept (raising err) : Prog (State Time) Err Unit) s :=
  (Guarded.ofExcept (Kept.refl s)).congr raising_eq_ok

omit [LinearOrder Time] in
theorem guarded_enableFailPoint : Guarded Kept (node.configureFailPoint = none) (enableFailPoint node) s := by
  refine (Guarded.bind Kept.trans guarded_raising fun t _ => Guarded.modify fun ht => ?_).congr (iff_of_eq (and_true _))
  exact ⟨List.append_ne_nil_of_left_ne_nil ht.1 _, congrArg (· ++ [node.host]) ht.2⟩

theorem guarded_checkDb : Guarded Kept (Settled env dbName) (checkDb env dbName) s := by
  refine Prog.wp.mono (retry_spec (env.attempts dbName).transient (env.attempts dbName).ends) (fun _ t ht => ?_)
    (fun _ t ht => ?_) fun _ ht => ht
  · obtain ⟨hhandled, hashes, hworks, rfl⟩ := ht
    exact ⟨⟨hhandled, hashes, hworks⟩, id⟩
  · obtain ⟨hnot, l, rfl⟩ := ht
    exact ⟨hnot, id⟩

/-- What follows the first fail point. -/
theorem guarded_rest : Guarded Kept env.NothingRaised
    (env.secondaries.forM enableFailPoint >>= fun _ => do
      let dbNames ← ofExcept (listDatabases env)
      env.sessions.forM fun node => ofExcept (raising node.ping)
      dbNames.forM (checkDb env)) s := by
  refine (Guarded.bind Kept.trans (Guarded.forM Kept.trans Kept.refl env.secondaries fun node _ t _ =>
    guarded_enableFailPoint) fun t _ => Guarded.ofExcept_bind (Kept.refl t) fun dbNames _ =>
      Guarded.bind Kept.trans (Guarded.forM Kept.trans Kept.refl env.sessions fun node _ u _ => guarded_raising)
        fun u _ => Guarded.forM Kept.trans Kept.refl dbNames fun dbName _ v _ => guarded_checkDb).congr ?_
  constructor
  · rintro ⟨hconfigure, dbNames, hdbNames, hping, hsettled⟩
    refine ⟨hconfigure, exists_listDatabases_iff.mp ⟨dbNames, hdbNames⟩, hping, fun dbName hlisted => ?_⟩
    exact hsettled dbName (((listDatabases_eq_ok hdbNames).2 dbName).mpr hlisted)
  · intro h
    obtain ⟨dbNames, hdbNames⟩ := exists_listDatabases_iff.mpr h.listDatabases
    refine ⟨h.configureFailPoint, dbNames, hdbNames, h.ping, fun dbName hdbName => ?_⟩
    exact h.settled dbName (((listDatabases_eq_ok hdbNames).2 dbName).mp hdbName)

/-- The fail point of the primary comes first. -/
theorem checkDatabases_spec (h : env.primary.configureFailPoint = none) : wp (checkDatabases env)
    (fun _ t => env.NothingRaised ∧ t.Pending) (fun _ t => ¬ env.NothingRaised ∧ t.Pending) (fun _ => False)
    (start Time) := by
  have hpending : State.Pending ⟨[env.primary.host], [env.primary.host], [], ([] : List (HashRequest Time))⟩ :=
    ⟨List.cons_ne_nil _ _, rfl⟩
  have henable : enableFailPoint env.primary (start Time) =
      (.ok (), ⟨[env.primary.host], [env.primary.host], [], []⟩) := by
    rw [enableFailPoint, h]
    rfl
  unfold checkDatabases
  refine wp_bind.mpr ((wp_bind_of_ok henable).mpr (wp_bind.mp ?_))
  exact wp.mono guarded_rest (fun _ t ht => ⟨ht.1, ht.2 hpending⟩) (fun _ t ht => ⟨ht.1, ht.2 hpending⟩) fun _ ht => ht

theorem checkDatabases_error {err : Err} (h : env.primary.configureFailPoint = some err) :
    checkDatabases env (start Time) = (.error err, start Time) := by
  have henable : enableFailPoint env.primary (start Time) = (.error err, start Time) := by
    rw [enableFailPoint, h]
    rfl
  have hloop : env.sessions.forM enableFailPoint (start Time) = (.error err, start Time) := bind_eq_of_error henable
  exact bind_eq_of_error hloop

omit [LinearOrder Time] in
theorem reset_failPoints (h : s.Pending) : (reset s).failPoints = [] := by
  rw [reset_eq, h.2]
  exact List.filter_eq_nil_iff.mpr fun host hhost => by simpa using hhost

/-- What follows once the fail points may be turned on. -/
theorem checked_spec : wp (do
      checkDatabases env
      Prog.modify reset
      report env)
    (fun _ t => t.failPoints = [] ↔ env.primary.configureFailPoint ≠ none ∨ env.NothingRaised)
    (fun _ t => t.failPoints = [] ↔ env.primary.configureFailPoint ≠ none ∨ env.NothingRaised)
    (fun _ => False) (start Time) := by
  cases hprimary : env.primary.configureFailPoint with
  | some err =>
    refine (wp_of_eq (bind_eq_of_error (checkDatabases_error hprimary))).mpr ?_
    exact iff_of_true rfl (.inl (Option.some_ne_none err))
  | none =>
    simp only [ne_eq, not_true_eq_false, false_or]
    refine wp_bind.mpr (wp.mono (checkDatabases_spec hprimary) (fun _ t ht => ?_) (fun _ t ht => ?_) fun _ ht => ht)
    · refine wp_bind.mpr ((wp_modify _).mpr (wp.mono report_spec (fun _ u hu => ?_) (fun _ u hu => ?_) fun _ hu => hu))
      · rw [hu.1]
        exact iff_of_true (reset_failPoints ht.2) ht.1
      · rw [hu]
        exact iff_of_true (reset_failPoints ht.2) ht.1
    · exact iff_of_false ht.2.1 ht.1

/-- **Which runs leave no fail point on?** -/
theorem failPoints_off_iff :
    (checkReplDbhashBackgroundThread env (start Time)).2.failPoints = [] ↔ env.FailPointsOff := by
  refine wp.final (P := fun t => t.failPoints = [] ↔ env.FailPointsOff)
    (m := checkReplDbhashBackgroundThread env) ?_
  unfold checkReplDbhashBackgroundThread
  refine wp_bind.mpr ((wp_ofExcept _).mpr ⟨fun _ hok => ?_, fun _ herr => ?_⟩)
  · by_cases hsupports : env.supportsSnapshotReadConcern
    · rw [if_neg (by rw [hsupports]; exact Bool.false_ne_true)]
      refine wp_bind.mpr ((wp_ofExcept _).mpr ⟨fun _ hok' => ?_, fun _ herr => ?_⟩)
      · have hoff : env.FailPointsOff ↔ env.primary.configureFailPoint ≠ none ∨ env.NothingRaised := by
          rw [Env.FailPointsOff, raising_eq_ok.mp hok, raising_eq_ok.mp hok', hsupports]
          simp
        rw [hoff]
        exact wp.mono checked_spec (fun _ _ ht => ht) (fun _ _ ht => ht) fun _ ht => ht.elim
      · exact iff_of_true rfl (.inr (.inr (.inl fun h => by rw [h] at herr; cases herr)))
    · rw [if_pos (by simpa using hsupports)]
      exact iff_of_true rfl (.inr (.inl (by simpa using hsupports)))
  · exact iff_of_true rfl (.inl fun h => by rw [h] at herr; cases herr)

/-- The fail point of the second node cannot be set, and that of the primary stays on. -/
theorem primary_failPoint_left :
    (checkReplDbhashBackgroundThread (interruptedOnce (some .other)) (start ℕ)).1 = .error .other ∧
      (checkReplDbhashBackgroundThread (interruptedOnce (some .other)) (start ℕ)).2.failPoints = ["a"] :=
  ⟨rfl, rfl⟩

end FailPoints

end MongoTests.Hooks.DbHashBackground
