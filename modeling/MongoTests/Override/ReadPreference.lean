import MongoTests.Override.Concerns
import Mathlib.Data.List.Induction

/-!
# Reading from secondaries

`set_read_preference_secondary.js`: the read preference of each command, and the connections of the
cursors.

* `runCommandWithReadPreferenceSecondary`: the command with its read preference;
* **`overrides_comm`**: this override and the one of the concerns can be loaded in any order, unless
  the command belongs to a transaction and gets wrapped;
* `CursorTracker`, `Event`: the cursors and the commands of a connection;
* **`route_killCursors_iff`**: when cursors are killed where they have been opened.
-/

namespace MongoTests.Override.ReadPreference

open MongoTests.Lib Doc Concerns

/-! ## The command -/

def kReadPreferenceSecondary : Value := .object [("mode", .string "secondary")]

def kCommandsSupportingReadPreference : List String :=
  ["aggregate", "collStats", "count", "dbStats", "distinct", "find", "geoSearch"]

def kDatabasesOnConfigServers : List String := ["config", "admin"]

/-- The connection, the database and `TestData.doNotOverrideReadPreference`. -/
structure Env where
  isMongos : Bool
  dbName : String
  doNotOverrideReadPreference : Bool

def shouldForceReadPreference (env : Env) (c : Unwrapped) : Except Thrown Bool := do
  let supported := c.commandName.any (· ∈ kCommandsSupportingReadPreference)
  let isMapReduce := c.commandName = some "mapReduce" ∨ c.commandName = some "mapreduce"
  let inline ← Concerns.isMapReduceWithInlineOutput c.commandName c.commandObj
  return supported && !Concerns.isAggregationWithOutOrMergeStage c.commandName c.commandObj &&
    !(isMapReduce && !inline) && !(env.isMongos && env.dbName ∈ kDatabasesOnConfigServers) &&
    !env.doNotOverrideReadPreference

/-- The test reads what the profiler has written. -/
def usesProfiler (commandObj : Obj) (commandName : Option String) : Bool :=
  isString (commandObj.get (commandName.getD "undefined")) "system.profile" ||
    commandName = some "profile"

/-- A command that is not wrapped gets its wrapping. -/
def wrapped (inWrappedForm : Bool) (commandObj : Obj) : Obj :=
  if inWrappedForm then commandObj else [("query", .object commandObj)]

/-- The command that the original function gets; `same` is `bsonBinaryEqual`. -/
def runCommandWithReadPreferenceSecondary (same : Value → Value → Bool) (env : Env) :
    Value → Except Thrown Value
  | .undefined | .null => .error .typeError
  | .object commandObj => do
    let c ← unwrap commandObj
    (if usesProfiler commandObj c.commandName then
      throw (.refusing "profiler" commandObj) else pure ())
    let force ← shouldForceReadPreference env c
    if force then
      let commandObj := wrapped c.inWrappedForm commandObj
      (if commandObj.has "$readPreference" &&
          !same (commandObj.get "$readPreference") kReadPreferenceSecondary then
        throw (.refusing "read preference" commandObj) else pure ())
      return .object (commandObj.set "$readPreference" kReadPreferenceSecondary)
    else return .object commandObj
  | v => .ok v

variable {same same' : Value → Value → Bool} {t : TestData} {env : Env} {o u u' : Obj} {w : Bool}
  {name : String} {v v' : Value} {flags : Bool × Bool}

/-! ## What each override does -/

/-- The command with other contents. -/
def rewrap (w : Bool) (o u : Obj) : Obj :=
  if w then o.set (o.firstKey.getD "") (.object u) else u

/-- One concern of a command, if it is asked for. -/
def SetsConcern (same : Value → Value → Bool) (c : Concern) (flag : Bool) (u u' : Obj) : Prop :=
  if flag then ∃ concern, c.merged same ⟨u, u⟩ = .ok concern ∧ u' = u.set c.field (.object concern)
  else u' = u

/-- Both concerns of a command. -/
def SetsConcerns (same : Value → Value → Bool) (t : TestData) (flags : Bool × Bool)
    (u u' : Obj) : Prop :=
  ∃ u₁, SetsConcern same t.readConcern (flags.1 && t.overridesRead) u u₁ ∧
    SetsConcern same t.writeConcern flags.2 u₁ u'

/-- The command is only named in the refusal. -/
theorem merged_eq_ok {c : Concern} {o' concern : Obj} :
    c.merged same ⟨o, u⟩ = .ok concern ↔ c.merged same ⟨o', u⟩ = .ok concern := by
  unfold Concern.merged
  dsimp only
  cases u.get? c.field with
  | none => rfl
  | some v =>
    dsimp only
    split_ifs
    · exact ⟨fun h => (nomatch h), fun h => (nomatch h)⟩
    · rfl

theorem rewrap_self (h : IsTarget name w ⟨o, u⟩) : rewrap w o u = o := by
  obtain ⟨-, -, hobj⟩ := isTarget_iff.mp h
  unfold rewrap
  cases w with
  | false => exact hobj.symm
  | true => exact Obj.set_of_get? hobj

theorem firstKey_rewrap {key : String} (hkey : o.firstKey = some key) (u : Obj) :
    (rewrap true o u).firstKey = some key :=
  Obj.firstKey_set hkey _ _

theorem rewrap_rewrap (h : IsTarget name w ⟨o, u⟩) (u₁ u₂ : Obj) :
    rewrap w (rewrap w o u₁) u₂ = rewrap w o u₂ := by
  obtain ⟨-, hwrapping, -⟩ := isTarget_iff.mp h
  cases w with
  | false => rfl
  | true =>
    cases hkey : o.firstKey with
    | none =>
      rw [show (Target.mk o u).commandObj.firstKey = none from hkey] at hwrapping
      cases hwrapping
    | some key =>
      show (rewrap true o u₁).set ((rewrap true o u₁).firstKey.getD "") _ = o.set _ _
      rw [firstKey_rewrap hkey, rewrap, if_pos rfl, hkey]
      exact Obj.set_set _ _ _ _

theorem force_iff {c : Concern} {flag : Bool} (h : IsTarget name w ⟨o, u⟩) {o' : Obj} :
    (if flag then c.force same w ⟨o, u⟩ else pure ⟨o, u⟩) = .ok ⟨o', u'⟩ ↔
      SetsConcern same c flag u u' ∧ o' = rewrap w o u' := by
  unfold SetsConcern
  cases flag with
  | false =>
    rw [if_neg Bool.false_ne_true, if_neg Bool.false_ne_true]
    constructor
    · intro h'
      obtain ⟨rfl, rfl⟩ := Target.mk.inj (Except.ok.inj h')
      exact ⟨rfl, (rewrap_self h).symm⟩
    · rintro ⟨rfl, rfl⟩
      rw [rewrap_self h]
      rfl
  | true =>
    rw [if_pos rfl, if_pos rfl, force_eq_ok]
    constructor
    · rintro ⟨concern, hmerged, hu, ho⟩
      exact ⟨⟨concern, merged_eq_ok.mp hmerged, hu⟩, ho⟩
    · rintro ⟨⟨concern, hmerged, hu⟩, ho⟩
      exact ⟨concern, merged_eq_ok.mp hmerged, hu, ho⟩

theorem isTarget_of_force {c : Concern} {flag : Bool} (h : IsTarget name w ⟨o, u⟩)
    (hset : SetsConcern same c flag u u') : IsTarget name w ⟨rewrap w o u', u'⟩ := by
  have hforce := (force_iff h).mpr ⟨hset, rfl⟩
  cases flag with
  | false =>
    obtain ⟨ho, rfl⟩ := Target.mk.inj (Except.ok.inj hforce)
    rw [← ho]
    exact h
  | true => exact isTarget_force h hforce

theorem forceBoth_iff (h : IsTarget name w ⟨o, u⟩) {o' : Obj} :
    forceBoth same t w flags ⟨o, u⟩ = .ok ⟨o', u'⟩ ↔
      SetsConcerns same t flags u u' ∧ o' = rewrap w o u' := by
  unfold forceBoth SetsConcerns
  rw [bind_eq_ok]
  constructor
  · rintro ⟨⟨o₁, u₁⟩, h₁, h₂⟩
    obtain ⟨hread, rfl⟩ := (force_iff h).mp h₁
    obtain ⟨hwrite, rfl⟩ := (force_iff (isTarget_of_force h hread)).mp h₂
    exact ⟨⟨u₁, hread, hwrite⟩, rewrap_rewrap h u₁ u'⟩
  · rintro ⟨⟨u₁, hread, hwrite⟩, rfl⟩
    refine ⟨⟨rewrap w o u₁, u₁⟩, (force_iff h).mpr ⟨hread, rfl⟩, ?_⟩
    exact (force_iff (isTarget_of_force h hread)).mpr ⟨hwrite, (rewrap_rewrap h u₁ u').symm⟩

/-- The override of the concerns. -/
theorem concerns_eq_ok (h : IsTarget name w ⟨o, u⟩) :
    runCommandWithReadAndWriteConcerns same t (.object o) = .ok v' ↔ ∃ flags u',
      shouldForce t o ⟨some name, .object u, w⟩ = .ok flags ∧ SetsConcerns same t flags u u' ∧
        v' = .object (rewrap w o u') := by
  constructor
  · intro hrun
    obtain ⟨c, hunwrap, hrun⟩ := bind_eq_ok.mp hrun
    rw [show unwrap o = _ from h] at hunwrap
    obtain rfl := Except.ok.inj hunwrap
    obtain ⟨flags, hflags, hrun⟩ := bind_eq_ok.mp hrun
    obtain ⟨⟨o', u'⟩, hforce, hrun⟩ := bind_eq_ok.mp hrun
    obtain ⟨hset, rfl⟩ := (forceBoth_iff h).mp hforce
    exact ⟨flags, u', hflags, hset, (Except.ok.inj hrun).symm⟩
  · rintro ⟨flags, u', hflags, hset, rfl⟩
    exact bind_eq_ok.mpr ⟨_, h, bind_eq_ok.mpr ⟨flags, hflags,
      bind_eq_ok.mpr ⟨_, (forceBoth_iff h).mpr ⟨hset, rfl⟩, rfl⟩⟩⟩

/-- The command with the read preference. -/
def prefer (w : Bool) (o : Obj) : Obj :=
  (wrapped w o).set "$readPreference" kReadPreferenceSecondary

/-- The command does not ask for another read preference. -/
def Agrees (same : Value → Value → Bool) (o : Obj) : Prop :=
  o.has "$readPreference" = true → same (o.get "$readPreference") kReadPreferenceSecondary = true

/-- The override of the read preference. -/
theorem preference_eq_ok (h : IsTarget name w ⟨o, u⟩) :
    runCommandWithReadPreferenceSecondary same env (.object o) = .ok v' ↔
      usesProfiler o (some name) = false ∧ ∃ force,
        shouldForceReadPreference env ⟨some name, .object u, w⟩ = .ok force ∧
        (force = true → Agrees same (wrapped w o)) ∧
        v' = .object (if force then prefer w o else o) := by
  constructor
  · intro hrun
    obtain ⟨c, hunwrap, hrun⟩ := bind_eq_ok.mp hrun
    rw [show unwrap o = _ from h] at hunwrap
    obtain rfl := Except.ok.inj hunwrap
    obtain ⟨_, hprofiler, hrun⟩ := bind_eq_ok.mp hrun
    obtain ⟨force, hforce, hrun⟩ := bind_eq_ok.mp hrun
    split_ifs at hprofiler with hp
    refine ⟨Bool.eq_false_iff.mpr hp, force, hforce, ?_⟩
    cases force with
    | false => exact ⟨fun h => (nomatch h), (Except.ok.inj hrun).symm⟩
    | true =>
      rw [if_pos rfl] at hrun
      obtain ⟨_, hagrees, hrun⟩ := bind_eq_ok.mp hrun
      split_ifs at hagrees with hrefuse
      refine ⟨fun _ hhas => ?_, (Except.ok.inj hrun).symm⟩
      by_contra hdiffers
      exact hrefuse (Bool.and_eq_true_iff.mpr ⟨hhas, by rw [Bool.eq_false_iff.mpr hdiffers]; rfl⟩)
  · rintro ⟨hprofiler, force, hforce, hagrees, rfl⟩
    refine bind_eq_ok.mpr ⟨_, h, bind_eq_ok.mpr ⟨(), ?_, bind_eq_ok.mpr ⟨force, hforce, ?_⟩⟩⟩
    · rw [hprofiler]
      rfl
    · cases force with
      | false => rfl
      | true =>
        rw [if_pos rfl]
        refine bind_eq_ok.mpr ⟨(), ?_, rfl⟩
        rw [if_neg]
        · rfl
        · rw [Bool.and_eq_true]
          rintro ⟨hhas, hdiffers⟩
          rw [hagrees rfl hhas] at hdiffers
          cases hdiffers

/-! ## Both overrides -/

theorem shouldForceReadPreference_congr {c c' : Unwrapped} (hname : c'.commandName = c.commandName)
    (hget : ∀ k ∈ ["pipeline", "out"], c'.commandObj.get k = c.commandObj.get k) :
    shouldForceReadPreference env c' = shouldForceReadPreference env c := by
  have hlast : Concerns.isAggregationWithOutOrMergeStage c'.commandName c'.commandObj =
      Concerns.isAggregationWithOutOrMergeStage c.commandName c.commandObj := by
    unfold Concerns.isAggregationWithOutOrMergeStage stages
    rw [hname, hget "pipeline" (by decide)]
  have hinline : Concerns.isMapReduceWithInlineOutput c'.commandName c'.commandObj =
      Concerns.isMapReduceWithInlineOutput c.commandName c.commandObj := by
    unfold Concerns.isMapReduceWithInlineOutput
    rw [hname, hget "out" (by decide)]
  unfold shouldForceReadPreference
  rw [hlast, hinline, hname]

/-- A concern is set for commands in the tables only. -/
theorem mem_tables_of_shouldForce {c : Unwrapped} (h : shouldForce t o c = .ok flags)
    (hflag : flags.1 = true ∨ flags.2 = true) : ∃ name, c.commandName = some name ∧
      name ∈ Concerns.kCommandsSupportingReadConcern ++ kCommandsOnlySupportingReadConcernSnapshot ++
        Concerns.kCommandsSupportingWriteConcern := by
  obtain ⟨commandName, v, w⟩ := c
  cases commandName with
  | none =>
    rw [shouldForce_none] at h
    obtain rfl := Except.ok.inj h
    simp at hflag
  | some name =>
    refine ⟨name, rfl, ?_⟩
    by_contra hnot
    rw [List.mem_append, List.mem_append, not_or, not_or] at hnot
    unfold shouldForce at h
    simp only [Option.any_some, decide_eq_false hnot.1.1, decide_eq_false hnot.1.2,
      decide_eq_false hnot.2, Bool.false_and] at h
    split_ifs at h
    · obtain rfl := Except.ok.inj h
      simp at hflag
    · obtain ⟨inline, -, h⟩ := bind_eq_ok.mp h
      obtain rfl := Except.ok.inj h
      simp at hflag

theorem get?_of_setsConcerns (h : SetsConcerns same t flags u u') {k : String}
    (hread : k ≠ "readConcern") (hwrite : k ≠ "writeConcern") : u'.get? k = u.get? k := by
  obtain ⟨u₁, h₁, h₂⟩ := h
  have hone : ∀ {c : Concern} {flag : Bool} {u u' : Obj}, SetsConcern same c flag u u' →
      c.field ≠ k → u'.get? k = u.get? k := by
    intro c flag u u' hset hne
    unfold SetsConcern at hset
    split_ifs at hset
    · obtain ⟨concern, -, rfl⟩ := hset
      exact Obj.get?_set_of_ne hne _ _
    · rw [hset]
  exact (hone h₂ (Ne.symm hwrite)).trans (hone h₁ (Ne.symm hread))

/-- Without a flag, the command stays as it is. -/
theorem eq_of_setsConcerns (h : SetsConcerns same t flags u u')
    (hflag : ¬ (flags.1 = true ∨ flags.2 = true)) : u' = u := by
  obtain ⟨u₁, h₁, h₂⟩ := h
  rw [not_or, Bool.not_eq_true, Bool.not_eq_true] at hflag
  rw [hflag.1] at h₁
  rw [hflag.2] at h₂
  exact (show u' = u₁ from h₂).trans (show u₁ = u from h₁)

theorem isTarget_of_setsConcerns (h : IsTarget name w ⟨o, u⟩)
    (hset : SetsConcerns same t flags u u') : IsTarget name w ⟨rewrap w o u', u'⟩ := by
  obtain ⟨u₁, h₁, h₂⟩ := hset
  have htarget := isTarget_of_force (isTarget_of_force h h₁) h₂
  rwa [rewrap_rewrap h] at htarget

/-- The first property of a wrapped command. -/
theorem firstKey_of_isTarget (h : IsTarget name true ⟨o, u⟩) :
    ∃ key, o.firstKey = some key ∧ isWrapping (some key) = true := by
  obtain ⟨-, hwrapping, -⟩ := isTarget_iff.mp h
  cases hkey : o.firstKey with
  | none =>
    rw [show (Target.mk o u).commandObj.firstKey = none from hkey] at hwrapping
    cases hwrapping
  | some key =>
    rw [show (Target.mk o u).commandObj.firstKey = some key from hkey] at hwrapping
    exact ⟨key, rfl, hwrapping⟩

/-- A property that is neither the wrapping nor a concern. -/
theorem get?_rewrap (h : IsTarget name w ⟨o, u⟩) (hset : SetsConcerns same t flags u u') {k : String}
    (hread : k ≠ "readConcern") (hwrite : k ≠ "writeConcern") (hwrapping : isWrapping (some k) = false) :
    (rewrap w o u').get? k = o.get? k := by
  cases w with
  | false =>
    obtain ⟨-, -, hobj⟩ := isTarget_iff.mp h
    have hobj : o = u := hobj
    rw [hobj]
    exact get?_of_setsConcerns hset hread hwrite
  | true =>
    obtain ⟨key, hkey, hkeyWrapping⟩ := firstKey_of_isTarget h
    have hne : key ≠ k := by
      rintro rfl
      rw [hkeyWrapping] at hwrapping
      cases hwrapping
    rw [rewrap, if_pos rfl, hkey]
    exact Obj.get?_set_of_ne hne _ _

/-- The profiler is named outside of the concerns. -/
theorem usesProfiler_rewrap (h : IsTarget name w ⟨o, u⟩)
    (hflags : shouldForce t o ⟨some name, .object u, w⟩ = .ok flags)
    (hset : SetsConcerns same t flags u u') :
    usesProfiler (rewrap w o u') (some name) = usesProfiler o (some name) := by
  by_cases hflag : flags.1 = true ∨ flags.2 = true
  · obtain ⟨name', hname', hmem⟩ := mem_tables_of_shouldForce hflags hflag
    obtain rfl := Option.some.inj hname'
    have hne : name ≠ "readConcern" ∧ name ≠ "writeConcern" ∧ isWrapping (some name) = false := by
      clear hname' hflags h
      revert name
      decide
    unfold usesProfiler
    rw [Option.getD_some, Obj.get, Obj.get, get?_rewrap h hset hne.1 hne.2.1 hne.2.2]
  · rw [eq_of_setsConcerns hset hflag, rewrap_self h]

theorem isTarget_prefer (h : IsTarget name w ⟨o, u⟩) : IsTarget name true ⟨prefer w o, u⟩ := by
  obtain ⟨hname, -, hobj⟩ := isTarget_iff.mp h
  cases w with
  | false =>
    have hobj : o = u := hobj
    subst hobj
    exact isTarget_iff.mpr ⟨hname, rfl, rfl⟩
  | true =>
    obtain ⟨key, hkey, hwrapping⟩ := firstKey_of_isTarget h
    have hkey' : (prefer true o).firstKey = some key := Obj.firstKey_set hkey _ _
    have hne : "$readPreference" ≠ key := by
      rintro rfl
      revert hwrapping
      decide
    refine isTarget_iff.mpr ⟨hname, by rw [hkey', hwrapping], ?_⟩
    rw [if_pos rfl, show (Target.mk o u).commandObj.firstKey = some key from hkey] at hobj
    rw [if_pos rfl, hkey']
    exact (Obj.get?_set_of_ne hne _ _).trans hobj

/-- The read preference stands outside of the concerns. -/
theorem rewrap_prefer (h : IsTarget name w ⟨o, u⟩) (u' : Obj) :
    rewrap true (prefer w o) u' = prefer w (rewrap w o u') := by
  cases w with
  | false => rfl
  | true =>
    obtain ⟨key, hkey, hwrapping⟩ := firstKey_of_isTarget h
    obtain ⟨-, -, hobj⟩ := isTarget_iff.mp h
    rw [if_pos rfl, show (Target.mk o u).commandObj.firstKey = some key from hkey] at hobj
    have hkey' : (prefer true o).firstKey = some key := Obj.firstKey_set hkey _ _
    have hne : key ≠ "$readPreference" := by
      rintro rfl
      revert hwrapping
      decide
    have hhas : o.has key = true := by
      rw [Obj.has_eq_isSome, show o.get? key = _ from hobj]
      rfl
    rw [rewrap, if_pos rfl, hkey']
    show (o.set "$readPreference" _).set key _ = (rewrap true o u').set "$readPreference" _
    rw [rewrap, if_pos rfl, hkey]
    exact (Obj.set_comm hne hhas _ _).symm

theorem has_autocommit_prefer (htxn : w = true ∨ o.has "autocommit" = false) :
    (prefer w o).has "autocommit" = o.has "autocommit" := by
  cases w with
  | true => exact Obj.has_set_of_ne (by decide) _ _
  | false =>
    obtain h | h := htxn
    · cases h
    · rw [h]
      rfl

theorem agrees_rewrap (h : IsTarget name w ⟨o, u⟩) (hset : SetsConcerns same t flags u u') :
    Agrees same' (wrapped w (rewrap w o u')) ↔ Agrees same' (wrapped w o) := by
  cases w with
  | false => exact ⟨fun _ h => (nomatch h), fun _ h => (nomatch h)⟩
  | true =>
    have hget : (rewrap true o u').get? "$readPreference" = o.get? "$readPreference" :=
      get?_rewrap h hset (by decide) (by decide) (by decide)
    unfold Agrees wrapped
    rw [if_pos rfl, if_pos rfl, Obj.has_eq_isSome, Obj.has_eq_isSome, Obj.get, Obj.get, hget]

/-- **Both overrides can be loaded in any order**, except for a command of a transaction that gets
wrapped: after that, it no longer shows that it belongs to the transaction. -/
theorem overrides_comm (h : IsTarget name w ⟨o, u⟩)
    (htxn : w = true ∨ o.has "autocommit" = false ∨
      shouldForceReadPreference env ⟨some name, .object u, w⟩ = .ok false) :
    (runCommandWithReadAndWriteConcerns same t (.object o) >>=
        runCommandWithReadPreferenceSecondary same' env) = .ok v ↔
      (runCommandWithReadPreferenceSecondary same' env (.object o) >>=
        runCommandWithReadAndWriteConcerns same t) = .ok v := by
  -- The read preference is decided by properties that are no concerns.
  have hpreference : ∀ {flags u'}, SetsConcerns same t flags u u' →
      shouldForceReadPreference env ⟨some name, .object u', w⟩ =
        shouldForceReadPreference env ⟨some name, .object u, w⟩ := by
    intro flags u' hset
    refine shouldForceReadPreference_congr rfl fun k hk => ?_
    have hne : k ≠ "readConcern" ∧ k ≠ "writeConcern" := by
      revert k
      decide
    show Obj.get u' k = Obj.get u k
    rw [Obj.get, Obj.get, get?_of_setsConcerns hset hne.1 hne.2]
  rw [bind_eq_ok, bind_eq_ok]
  constructor
  · rintro ⟨v₁, hconcerns, hprefer⟩
    obtain ⟨flags, u', hflags, hset, rfl⟩ := (concerns_eq_ok h).mp hconcerns
    obtain ⟨hprofiler, force, hforce, hagrees, rfl⟩ :=
      (preference_eq_ok (isTarget_of_setsConcerns h hset)).mp hprefer
    rw [hpreference hset] at hforce
    rw [usesProfiler_rewrap h hflags hset] at hprofiler
    rw [agrees_rewrap h hset] at hagrees
    refine ⟨_, (preference_eq_ok h).mpr ⟨hprofiler, force, hforce, hagrees, rfl⟩, ?_⟩
    cases force with
    | false => exact (concerns_eq_ok h).mpr ⟨flags, u', hflags, hset, rfl⟩
    | true =>
      have hauto : w = true ∨ o.has "autocommit" = false := by
        refine htxn.imp_right fun htxn => htxn.resolve_right fun hfalse => ?_
        rw [hforce] at hfalse
        cases hfalse
      refine (concerns_eq_ok (isTarget_prefer h)).mpr ⟨flags, u', ?_, hset, ?_⟩
      · rw [← hflags]
        exact shouldForce_congr rfl (has_autocommit_prefer hauto) fun _ _ => rfl
      · rw [rewrap_prefer h]
        rfl
  · rintro ⟨v₁, hprefer, hconcerns⟩
    obtain ⟨hprofiler, force, hforce, hagrees, rfl⟩ := (preference_eq_ok h).mp hprefer
    have hset : ∃ flags u', shouldForce t o ⟨some name, .object u, w⟩ = .ok flags ∧
        SetsConcerns same t flags u u' ∧
        v = .object (if force then prefer w (rewrap w o u') else rewrap w o u') := by
      cases force with
      | false => exact (concerns_eq_ok h).mp hconcerns
      | true =>
        have hauto : w = true ∨ o.has "autocommit" = false := by
          refine htxn.imp_right fun htxn => htxn.resolve_right fun hfalse => ?_
          rw [hforce] at hfalse
          cases hfalse
        obtain ⟨flags, u', hflags, hset, rfl⟩ := (concerns_eq_ok (isTarget_prefer h)).mp hconcerns
        refine ⟨flags, u', ?_, hset, by rw [rewrap_prefer h]; rfl⟩
        rw [← hflags]
        exact (shouldForce_congr rfl (has_autocommit_prefer hauto) fun _ _ => rfl).symm
    obtain ⟨flags, u', hflags, hset, rfl⟩ := hset
    refine ⟨_, (concerns_eq_ok h).mpr ⟨flags, u', hflags, hset, rfl⟩, ?_⟩
    refine (preference_eq_ok (isTarget_of_setsConcerns h hset)).mpr ⟨?_, force, ?_, ?_, rfl⟩
    · rw [usesProfiler_rewrap h hflags hset]
      exact hprofiler
    · rw [hpreference hset]
      exact hforce
    · rw [agrees_rewrap h hset]
      exact hagrees

/-- A query outside of a transaction. -/
theorem overrides_comm_sample :
    (runCommandWithReadAndWriteConcerns sampleSame sampleTestData sampleFind >>=
        runCommandWithReadPreferenceSecondary sampleSame ⟨false, "test", false⟩) =
      .ok (.object [("query", sampleFindMajority), ("$readPreference", kReadPreferenceSecondary)]) ↔
    (runCommandWithReadPreferenceSecondary sampleSame ⟨false, "test", false⟩ sampleFind >>=
        runCommandWithReadAndWriteConcerns sampleSame sampleTestData) =
      .ok (.object [("query", sampleFindMajority), ("$readPreference", kReadPreferenceSecondary)]) :=
  overrides_comm (show IsTarget "find" false ⟨[("find", .string "c")], [("find", .string "c")]⟩ from rfl)
    (.inr (.inl rfl))

/-! ## Cursors -/

section Cursors

variable {Conn : Type}

/-- `connectionsByCursorId`, the latest entry first. -/
abbrev CursorTracker (Conn : Type) := List (ℤ × Conn)

namespace CursorTracker

/-- Other ids than those of the type `NumberLong` are `none`. -/
def getConnectionUsedForCursor (tracker : CursorTracker Conn) (cursorId : Option ℤ) : Option Conn :=
  cursorId.bind fun id => List.lookup id tracker

def setConnectionUsedForCursor (tracker : CursorTracker Conn) (cursorId : Option ℤ) (conn : Conn) :
    CursorTracker Conn :=
  match cursorId with
  | some id => if id ≠ 0 then (id, conn) :: tracker else tracker
  | none => tracker

end CursorTracker

/-- The command, as far as its cursors go. -/
inductive Request
  | getMore (cursorId : Option ℤ)
  /-- `cursors`, if it is an array. -/
  | killCursors (cursorIds : Option (List (Option ℤ)))
  | other (commandName : String)

/-- The response of a server. -/
structure Response (Conn : Type) where
  ok : Bool
  /-- The id of the cursor, if there is a cursor. -/
  cursor : Option (Option ℤ)
  mongo : Conn

def kCursorGeneratingCommands : List String := ["aggregate", "find"]

/-- The loop over the cursors that are killed. -/
def commonConnection (tracker : CursorTracker Conn) :
    List (Option ℤ) → Option Conn → Option Conn
  | [], cursorConn => cursorConn
  | id :: ids, none => commonConnection tracker ids (tracker.getConnectionUsedForCursor id)
  | id :: ids, some conn =>
    match tracker.getConnectionUsedForCursor id with
    | some _ => none
    | none => commonConnection tracker ids (some conn)

/-- The connection that a command of a replica set connection is routed to, if it is not left to the
server selection. -/
def route (tracker : CursorTracker Conn) : Request → Option Conn
  | .getMore cursorId => tracker.getConnectionUsedForCursor cursorId
  | .killCursors (some ids) => commonConnection tracker ids none
  | _ => none

/-- A command and its response. -/
abbrev Event (Conn : Type) := Request × Response Conn

/-- The tracker after a command; one that has been routed returns early. -/
def track (tracker : CursorTracker Conn) (e : Event Conn) : CursorTracker Conn :=
  match e with
  | (.other name, res) =>
    if name ∈ kCursorGeneratingCommands && res.ok then
      match res.cursor with
      | some id => tracker.setConnectionUsedForCursor id res.mongo
      | none => tracker
    else tracker
  | _ => tracker

/-- The event has opened the cursor. -/
def opens (id : ℤ) (e : Event Conn) : Bool :=
  match e.1 with
  | .other name => name ∈ kCursorGeneratingCommands && e.2.ok && e.2.cursor = some (some id) && id ≠ 0
  | _ => false

/-- Where a cursor has been opened last. -/
def opener (events : List (Event Conn)) (id : ℤ) : Option Conn :=
  (events.reverse.find? (opens id)).map fun e => e.2.mongo

/-- The first tracked cursor gives the connection, and a second one takes it away. -/
theorem commonConnection_eq_some {tracker : CursorTracker Conn} {ids : List (Option ℤ)}
    {cursorConn : Option Conn} {conn : Conn} : commonConnection tracker ids cursorConn = some conn ↔
      cursorConn.toList ++ ids.filterMap tracker.getConnectionUsedForCursor = [conn] := by
  induction ids generalizing cursorConn with
  | nil => cases cursorConn <;> simp [commonConnection]
  | cons id ids ih =>
    cases cursorConn with
    | none =>
      rw [commonConnection, ih]
      cases htracked : tracker.getConnectionUsedForCursor id with
      | none => rw [List.filterMap_cons_none htracked]
      | some c =>
        rw [List.filterMap_cons_some htracked]
        rfl
    | some c =>
      unfold commonConnection
      cases htracked : tracker.getConnectionUsedForCursor id with
      | none =>
        rw [List.filterMap_cons_none htracked]
        exact ih
      | some c' =>
        rw [List.filterMap_cons_some htracked]
        simp

/-- What is tracked about a cursor after a command. -/
theorem lookup_track (tracker : CursorTracker Conn) (e : Event Conn) (id : ℤ) :
    List.lookup id (track tracker e) =
      if opens id e then some e.2.mongo else List.lookup id tracker := by
  obtain ⟨req, res⟩ := e
  cases req with
  | getMore cursorId => rfl
  | killCursors ids => rfl
  | other name =>
    unfold track opens
    dsimp only
    by_cases hname : name ∈ kCursorGeneratingCommands && res.ok
    · rw [if_pos hname]
      cases res.cursor with
      | none => simp
      | some cursorId =>
        cases cursorId with
        | none => simp [CursorTracker.setConnectionUsedForCursor]
        | some id' =>
          simp only [CursorTracker.setConnectionUsedForCursor, hname]
          by_cases hid : id = id'
          · subst hid
            by_cases hzero : id = 0
            · simp [hzero]
            · simp [hzero]
          · have hid' : ¬ id' = id := fun h => hid h.symm
            have hbeq : (id == id') = false := by simpa using hid
            by_cases hzero : id' = 0
            · have hid₀ : ¬ 0 = id := fun h => hid' (hzero.trans h)
              simp [hzero, hid₀]
            · simp [hzero, hid', List.lookup_cons, hbeq]
    · rw [if_neg hname]
      simp [hname]

/-- The tracker knows where each cursor has been opened last. -/
theorem lookup_foldl_track (events : List (Event Conn)) (id : ℤ) :
    List.lookup id (events.foldl track []) = opener events id := by
  induction events using List.reverseRecOn with
  | nil => rfl
  | append_singleton events e ih =>
    rw [List.foldl_append, List.foldl_cons, List.foldl_nil, lookup_track, ih]
    unfold opener
    rw [List.reverse_append, List.reverse_singleton, List.singleton_append, List.find?_cons]
    cases opens id e <;> rfl

/-- **When cursors are killed where they have been opened**: after any commands, exactly if just one
of the cursors has been opened by them; two cursors of one server are left to the server selection. -/
theorem route_killCursors_iff (events : List (Event Conn)) (ids : List (Option ℤ)) (conn : Conn) :
    route (events.foldl track []) (.killCursors (some ids)) = some conn ↔
      ids.filterMap (fun id => id.bind (opener events)) = [conn] := by
  have hopener : CursorTracker.getConnectionUsedForCursor (events.foldl track []) =
      fun id : Option ℤ => id.bind (opener events) := by
    funext id
    cases id with
    | none => rfl
    | some id => exact lookup_foldl_track events id
  refine commonConnection_eq_some.trans ?_
  rw [hopener]
  rfl

end Cursors

end MongoTests.Override.ReadPreference
