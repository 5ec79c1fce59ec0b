import MongoTests.Lib.Document
import MongoTests.Lib.Checked

/-!
# Read and write concern of every command

`set_read_and_write_concerns.js` with its helpers. A command is the object that the original function
gets in the end; `bsonWoCompare` is a parameter.

* `isAggregationWithOutOrMergeStage`, `isMapReduceWithInlineOutput`: `override_helpers.js`;
* `unwrap`, `shouldForce`, `Concern.force`: the parts of the override;
* `runCommandWithReadAndWriteConcerns`: the command with its concerns;
* **`runCommand_idempotent`**: the override changes nothing in a command that it has changed.
-/

namespace MongoTests.Override.Concerns

open MongoTests.Lib Doc

/-! ## Tables -/

def kCommandsSupportingReadConcern : List String :=
  ["aggregate", "count", "distinct", "find", "geoSearch"]

def kCommandsOnlySupportingReadConcernSnapshot : List String :=
  ["delete", "findAndModify", "findandmodify", "insert", "update"]

def kCommandsSupportingWriteConcern : List String := [
  "_configsvrAddShard", "_configsvrAddShardToZone", "_configsvrCommitChunkMerge",
  "_configsvrCommitChunkMigration", "_configsvrCommitChunkSplit", "_configsvrCreateDatabase",
  "_configsvrEnableSharding", "_configsvrMoveChunk", "_configsvrMovePrimary",
  "_configsvrRemoveShard", "_configsvrRemoveShardFromZone", "_configsvrShardCollection",
  "_configsvrUpdateZoneKeyRange", "_mergeAuthzCollections", "_recvChunkStart", "abortTransaction",
  "appendOplogNote", "applyOps", "aggregate", "captrunc", "cleanupOrphaned", "clone",
  "cloneCollectionAsCapped", "collMod", "commitTransaction", "convertToCapped", "create",
  "createIndexes", "createRole", "createUser", "delete", "deleteIndexes", "drop",
  "dropAllRolesFromDatabase", "dropAllUsersFromDatabase", "dropDatabase", "dropIndexes", "dropRole",
  "dropUser", "emptycapped", "findAndModify", "findandmodify", "godinsert", "grantPrivilegesToRole",
  "grantRolesToRole", "grantRolesToUser", "insert", "mapReduce", "mapreduce",
  "mapreduce.shardedfinish", "moveChunk", "renameCollection", "revokePrivilegesFromRole",
  "revokeRolesFromRole", "revokeRolesFromUser", "setFeatureCompatibilityVersion", "update",
  "updateRole", "updateUser"]

def kCommandsSupportingWriteConcernInTransaction : List String :=
  ["abortTransaction", "commitTransaction"]

/-! ## Helpers -/

/-- What an override throws; a refusal names the command. -/
inductive Thrown
  | typeError
  | refusing (what : String) (commandObj : Obj)

/-- `v === s`, for a string. -/
def isString (v : Value) (s : String) : Bool :=
  match v with
  | .string t => t = s
  | _ => false

/-- The stages of `commandObj.pipeline`, if it is an array. -/
def stages (commandObj : Value) : List Value :=
  match commandObj.get "pipeline" with
  | .array vs => vs
  | _ => []

/-- `Object.keys(stage)[0] === stageName`, for an object. -/
def isStage (stageName : String) (stage : Value) : Bool :=
  stage.isObject && stage.entries.firstKey = some stageName

def isAggregationWithFirstStage (stageName : String) (commandName : Option String)
    (commandObj : Value) : Bool :=
  commandName = some "aggregate" && (stages commandObj).head?.any (isStage stageName)

def isAggregationWithListLocalSessionsStage : Option String → Value → Bool :=
  isAggregationWithFirstStage "$listLocalSessions"

def isAggregationWithOutOrMergeStage (commandName : Option String) (commandObj : Value) : Bool :=
  commandName = some "aggregate" &&
    (stages commandObj).getLast?.any fun stage => isStage "$out" stage || isStage "$merge" stage

/-- The type of null is an object, so that `hasOwnProperty` throws. -/
def isMapReduceWithInlineOutput (commandName : Option String) (commandObj : Value) :
    Except Thrown Bool :=
  if commandName ≠ some "mapReduce" ∧ commandName ≠ some "mapreduce" then .ok false
  else match commandObj.get "out" with
    | .null => .error .typeError
    | .object out => .ok (Obj.has out "inline")
    | _ => .ok false

/-- The name of the command, the command without its wrapping, and whether it is wrapped. -/
structure Unwrapped where
  commandName : Option String
  commandObj : Value
  inWrappedForm : Bool

/-- `Object.keys` of null or undefined throws. -/
def keysOf : Value → Except Thrown Obj
  | .undefined | .null => .error .typeError
  | v => .ok v.entries

def isWrapping (commandName : Option String) : Bool :=
  commandName = some "query" || commandName = some "$query"

def unwrap (commandObj : Obj) : Except Thrown Unwrapped :=
  if isWrapping commandObj.firstKey then do
    let commandObjUnwrapped := commandObj.get (commandObj.firstKey.getD "")
    let entries ← keysOf commandObjUnwrapped
    return ⟨entries.firstKey, commandObjUnwrapped, true⟩
  else return ⟨commandObj.firstKey, .object commandObj, false⟩

/-! ## The override -/

/-- `TestData`: the level is null or a string. -/
structure TestData where
  defaultReadConcernLevel : Value
  defaultWriteConcern : Obj
  /-- The properties of an object have different names. -/
  nodup : (Obj.keys defaultWriteConcern).Nodup

/-- A concern: its field in a command, the property that is compared, and what is assigned. -/
structure Concern where
  what : String
  field : String
  key : String
  default : Obj

namespace TestData

variable (t : TestData)

def readConcern : Concern where
  what := "read concern"
  field := "readConcern"
  key := "level"
  default := [("level", t.defaultReadConcernLevel)]

def writeConcern : Concern where
  what := "write concern"
  field := "writeConcern"
  key := "w"
  default := t.defaultWriteConcern

end TestData

/-- `shouldForceReadConcern` and `shouldForceWriteConcern`. -/
def shouldForce (t : TestData) (commandObj : Obj) (c : Unwrapped) : Except Thrown (Bool × Bool) := do
  let inTable (table : List String) : Bool := c.commandName.any (· ∈ table)
  let inTransaction := commandObj.has "autocommit"
  let read := inTable kCommandsSupportingReadConcern && !inTransaction
  let write := inTable kCommandsSupportingWriteConcern &&
    (!inTransaction || inTable kCommandsSupportingWriteConcernInTransaction)
  let (read, write) ←
    if c.commandName = some "aggregate" then
      let outOrMerge := isAggregationWithOutOrMergeStage c.commandName c.commandObj
      pure (read && !isAggregationWithListLocalSessionsStage c.commandName c.commandObj &&
        !(outOrMerge && isString t.defaultReadConcernLevel "linearizable") &&
        !(c.commandObj.get "explain").truthy, write && outOrMerge)
    else do
      let inline ← isMapReduceWithInlineOutput c.commandName c.commandObj
      pure (read, write && !inline)
  return (read || inTable kCommandsOnlySupportingReadConcernSnapshot &&
    isString t.defaultReadConcernLevel "snapshot", write)

/-- A command, with the object inside that has the concerns. -/
structure Target where
  commandObj : Obj
  unwrapped : Obj

namespace Concern

variable (same : Value → Value → Bool) (c : Concern)

/-- The concern of a command with the default assigned, if that agrees with what the command says. -/
def merged (target : Target) : Except Thrown Obj :=
  match target.unwrapped.get? c.field with
  | none => .ok (Obj.assign [] c.default)
  | some v =>
    if !v.isObject || v.entries.has c.key && !same (v.entries.get c.key) (c.default.get c.key) then
      .error (.refusing c.what target.commandObj)
    else .ok (v.entries.assign c.default)

/-- Set a concern, in copies of the objects. -/
def force (inWrappedForm : Bool) (target : Target) : Except Thrown Target := do
  let concern ← c.merged same target
  let unwrapped := target.unwrapped.set c.field (.object concern)
  return ⟨if inWrappedForm then
      target.commandObj.set (target.commandObj.firstKey.getD "") (.object unwrapped)
    else unwrapped, unwrapped⟩

end Concern

/-- `kDefaultReadConcern.level !== null` -/
def TestData.overridesRead (t : TestData) : Bool :=
  match t.defaultReadConcernLevel with
  | .null => false
  | _ => true

/-- Both concerns, as far as they are asked for. -/
def forceBoth (same : Value → Value → Bool) (t : TestData) (inWrappedForm : Bool)
    (flags : Bool × Bool) (target : Target) : Except Thrown Target := do
  let target ← (if flags.1 && t.overridesRead then t.readConcern.force same inWrappedForm target
    else pure target)
  (if flags.2 then t.writeConcern.force same inWrappedForm target else pure target)

/-- The command that the original function gets. -/
def runCommandWithReadAndWriteConcerns (same : Value → Value → Bool) (t : TestData) :
    Value → Except Thrown Value
  | .undefined | .null => .error .typeError
  | .object commandObj => do
    let c ← unwrap commandObj
    let flags ← shouldForce t commandObj c
    match c.commandObj with
    | .object unwrapped => do
      let target ← forceBoth same t c.inWrappedForm flags ⟨commandObj, unwrapped⟩
      return .object target.commandObj
    | _ => return .object commandObj
  | v => .ok v

/-! ## What a forced concern leaves as it is -/

variable {same : Value → Value → Bool} {t : TestData} {c c' : Concern} {w : Bool}
  {name : String} {target target' : Target}

/-- The tables ask for the name, the stages, the output and whether the command is explained. -/
theorem shouldForce_congr {o o' : Obj} {u u' : Unwrapped} (hname : u'.commandName = u.commandName)
    (hauto : o'.has "autocommit" = o.has "autocommit")
    (hget : ∀ k ∈ ["pipeline", "out", "explain"], u'.commandObj.get k = u.commandObj.get k) :
    shouldForce t o' u' = shouldForce t o u := by
  have hstages : stages u'.commandObj = stages u.commandObj := by
    unfold stages
    rw [hget "pipeline" (by decide)]
  have hinline : isMapReduceWithInlineOutput u'.commandName u'.commandObj =
      isMapReduceWithInlineOutput u.commandName u.commandObj := by
    unfold isMapReduceWithInlineOutput
    rw [hname, hget "out" (by decide)]
  have hlast : isAggregationWithOutOrMergeStage u'.commandName u'.commandObj =
      isAggregationWithOutOrMergeStage u.commandName u.commandObj := by
    unfold isAggregationWithOutOrMergeStage
    rw [hname, hstages]
  have hfirst : isAggregationWithListLocalSessionsStage u'.commandName u'.commandObj =
      isAggregationWithListLocalSessionsStage u.commandName u.commandObj := by
    unfold isAggregationWithListLocalSessionsStage isAggregationWithFirstStage
    rw [hname, hstages]
  unfold shouldForce
  rw [hinline, hlast, hfirst, hname, hauto, hget "explain" (by decide)]

/-- A command without a name is in no table. -/
theorem shouldForce_none {o : Obj} {v : Value} :
    shouldForce t o ⟨none, v, w⟩ = .ok (false, false) := by
  simp [shouldForce, isMapReduceWithInlineOutput]

/-- The target is what the command with this name has inside. -/
def IsTarget (name : String) (w : Bool) (target : Target) : Prop :=
  unwrap target.commandObj = .ok ⟨some name, .object target.unwrapped, w⟩

theorem isTarget_iff : IsTarget name w target ↔ target.unwrapped.firstKey = some name ∧
    isWrapping target.commandObj.firstKey = w ∧
      if w then target.commandObj.get? (target.commandObj.firstKey.getD "") =
        some (.object target.unwrapped) else target.commandObj = target.unwrapped := by
  unfold IsTarget unwrap
  cases hwrapping : isWrapping target.commandObj.firstKey with
  | false =>
    rw [if_neg Bool.false_ne_true]
    constructor
    · intro h
      obtain ⟨hname, hobj, rfl⟩ := Unwrapped.mk.inj (Except.ok.inj h)
      obtain hobj := Value.object.inj hobj
      exact ⟨hobj ▸ hname, rfl, hobj⟩
    · rintro ⟨hname, rfl, hobj⟩
      rw [if_neg Bool.false_ne_true] at hobj
      rw [hobj, hname]
      rfl
  | true =>
    rw [if_pos rfl, ← Obj.get_eq_object]
    constructor
    · intro h
      obtain ⟨entries, hentries, h⟩ := bind_eq_ok.mp h
      obtain ⟨hname, hobj, rfl⟩ := Unwrapped.mk.inj (Except.ok.inj h)
      rw [hobj] at hentries
      obtain rfl := Except.ok.inj hentries
      exact ⟨hname, rfl, hobj⟩
    · rintro ⟨hname, rfl, hobj⟩
      rw [if_pos rfl] at hobj
      rw [hobj]
      show Except.ok (Unwrapped.mk target.unwrapped.firstKey _ true) = _
      rw [hname]

/-- What the override does to the command, given the new concern. -/
theorem force_eq_ok : c.force same w target = .ok target' ↔ ∃ concern,
    c.merged same target = .ok concern ∧
      target'.unwrapped = target.unwrapped.set c.field (.object concern) ∧
      target'.commandObj = if w then
        target.commandObj.set (target.commandObj.firstKey.getD "") (.object target'.unwrapped)
      else target'.unwrapped := by
  unfold Concern.force
  rw [bind_eq_ok]
  refine exists_congr fun concern => and_congr_right fun _ => ?_
  obtain ⟨o, u⟩ := target'
  constructor
  · intro h
    obtain ⟨rfl, rfl⟩ := Target.mk.inj (Except.ok.inj h)
    exact ⟨rfl, rfl⟩
  · rintro ⟨hu, ho⟩
    dsimp only at hu ho
    rw [ho, hu]
    rfl

theorem isTarget_force (h : IsTarget name w target) (hforce : c.force same w target = .ok target') :
    IsTarget name w target' := by
  obtain ⟨hname, hwrapping, hobj⟩ := isTarget_iff.mp h
  obtain ⟨concern, -, hu, ho⟩ := force_eq_ok.mp hforce
  have hname' : target'.unwrapped.firstKey = some name := hu ▸ Obj.firstKey_set hname _ _
  refine isTarget_iff.mpr ⟨hname', ?_⟩
  cases w with
  | false =>
    rw [if_neg Bool.false_ne_true] at ho hobj
    rw [hobj, hname] at hwrapping
    rw [ho, hname']
    exact ⟨hwrapping, rfl⟩
  | true =>
    rw [if_pos rfl] at ho hobj
    cases hkey : target.commandObj.firstKey with
    | none =>
      rw [hkey] at hwrapping
      cases hwrapping
    | some key =>
      have hkey' : target'.commandObj.firstKey = some key := by
        rw [ho]
        exact Obj.firstKey_set hkey _ _
      rw [hkey', ← hkey]
      refine ⟨hwrapping, ?_⟩
      rw [if_pos rfl, ho, Obj.get?_set_self]

/-- No concern is one of these properties. -/
theorem get?_unwrapped_force (hforce : c.force same w target = .ok target') {k : String}
    (hk : c.field ≠ k) : target'.unwrapped.get? k = target.unwrapped.get? k := by
  obtain ⟨concern, -, hu, -⟩ := force_eq_ok.mp hforce
  rw [hu, Obj.get?_set_of_ne hk]

theorem has_autocommit_force (h : IsTarget name w target) (hk : c.field ≠ "autocommit")
    (hforce : c.force same w target = .ok target') :
    target'.commandObj.has "autocommit" = target.commandObj.has "autocommit" := by
  obtain ⟨-, hwrapping, hobj⟩ := isTarget_iff.mp h
  obtain ⟨concern, -, hu, ho⟩ := force_eq_ok.mp hforce
  cases w with
  | false =>
    rw [if_neg Bool.false_ne_true] at ho hobj
    rw [ho, hu, Obj.has_set_of_ne hk, hobj]
  | true =>
    rw [if_pos rfl] at ho
    have hkey : target.commandObj.firstKey.getD "" ≠ "autocommit" := by
      intro hkey
      cases hfirst : target.commandObj.firstKey with
      | none =>
        rw [hfirst] at hwrapping
        cases hwrapping
      | some key =>
        rw [hfirst] at hkey hwrapping
        subst hkey
        revert hwrapping
        decide
    rw [ho, Obj.has_set_of_ne hkey]

/-! ## Forcing again -/

/-- The command has the concern with its default. -/
def Settled (same : Value → Value → Bool) (c : Concern) (target : Target) : Prop :=
  ∃ concern : Obj, target.unwrapped.get? c.field = some (.object concern) ∧
    concern.assign c.default = concern ∧
    (concern.has c.key = true → same (concern.get c.key) (c.default.get c.key) = true)

theorem settled_force (hsame : ∀ v, same v v = true) (hnodup : (Obj.keys c.default).Nodup)
    (hforce : c.force same w target = .ok target') : Settled same c target' := by
  obtain ⟨concern, hmerged, hu, -⟩ := force_eq_ok.mp hforce
  have hassign : ∃ ps : Obj, concern = ps.assign c.default ∧
      (ps.has c.key = true → same (ps.get c.key) (c.default.get c.key) = true) := by
    unfold Concern.merged at hmerged
    split at hmerged
    · exact ⟨[], (Except.ok.inj hmerged).symm, fun h => nomatch h⟩
    · next v hv =>
      split_ifs at hmerged with hrefuse
      refine ⟨v.entries, (Except.ok.inj hmerged).symm, fun hhas => ?_⟩
      rw [Bool.or_eq_true, Bool.and_eq_true, not_or, not_and] at hrefuse
      have hagrees := hrefuse.2 hhas
      rwa [Bool.not_eq_true', Bool.not_eq_false] at hagrees
  obtain ⟨ps, rfl, hagrees⟩ := hassign
  refine ⟨_, by rw [hu, Obj.get?_set_self], Obj.assign_assign hnodup ps, fun hhas => ?_⟩
  by_cases hmem : c.key ∈ Obj.keys c.default
  · obtain ⟨⟨key, v⟩, hp, hkey⟩ := List.mem_map.mp hmem
    have hkey : key = c.key := hkey
    rw [← hkey, Obj.get, Obj.get, Obj.get?_assign_of_mem hnodup hp, Obj.get?_of_mem hnodup hp]
    exact hsame v
  · rw [Obj.has_eq_isSome, Obj.get?_assign_of_notMem hmem, ← Obj.has_eq_isSome] at hhas
    rw [Obj.get, Obj.get?_assign_of_notMem hmem]
    exact hagrees hhas

theorem settled_of_force (hne : c'.field ≠ c.field) (h : Settled same c target)
    (hforce : c'.force same w target = .ok target') : Settled same c target' := by
  obtain ⟨concern, hget, hrest⟩ := h
  exact ⟨concern, (get?_unwrapped_force hforce hne).trans hget, hrest⟩

/-- A concern that is settled is forced without a change. -/
theorem force_of_settled (htarget : IsTarget name w target) (h : Settled same c target) :
    c.force same w target = .ok target := by
  obtain ⟨concern, hget, hassign, hagrees⟩ := h
  have hunwrapped : target.unwrapped.set c.field (.object concern) = target.unwrapped :=
    Obj.set_of_get? hget
  refine force_eq_ok.mpr ⟨concern, ?_, hunwrapped.symm, ?_⟩
  · unfold Concern.merged
    rw [hget]
    dsimp only
    rw [if_neg]
    · exact congrArg Except.ok hassign
    · rw [Bool.or_eq_true, Bool.and_eq_true]
      rintro (h | ⟨hhas, hdiffers⟩)
      · cases h
      · rw [show Value.entries (.object concern) = concern from rfl] at hhas hdiffers
        rw [hagrees hhas] at hdiffers
        cases hdiffers
  · obtain ⟨-, -, hobj⟩ := isTarget_iff.mp htarget
    cases w with
    | false => exact hobj
    | true =>
      rw [if_pos rfl] at hobj ⊢
      exact (Obj.set_of_get? hobj).symm

/-! ## Idempotence -/

theorem forceBoth_spec (hsame : ∀ v, same v v = true) {flags : Bool × Bool}
    (htarget : IsTarget name w target) (h : forceBoth same t w flags target = .ok target') :
    IsTarget name w target' ∧
      target'.commandObj.has "autocommit" = target.commandObj.has "autocommit" ∧
      (∀ k, k ≠ "readConcern" → k ≠ "writeConcern" →
        target'.unwrapped.get? k = target.unwrapped.get? k) ∧
      ((flags.1 && t.overridesRead) = true → Settled same t.readConcern target') ∧
      (flags.2 = true → Settled same t.writeConcern target') := by
  obtain ⟨target₁, h₁, h₂⟩ := bind_eq_ok.mp h
  have hread : IsTarget name w target₁ ∧
      target₁.commandObj.has "autocommit" = target.commandObj.has "autocommit" ∧
      (∀ k, k ≠ "readConcern" → target₁.unwrapped.get? k = target.unwrapped.get? k) ∧
      ((flags.1 && t.overridesRead) = true → Settled same t.readConcern target₁) := by
    split_ifs at h₁ with hflag
    · exact ⟨isTarget_force htarget h₁, has_autocommit_force htarget (show "readConcern" ≠ "autocommit" by decide) h₁,
        fun k hk => get?_unwrapped_force h₁ (Ne.symm hk),
        fun _ => settled_force hsame (List.nodup_singleton _) h₁⟩
    · obtain rfl := Except.ok.inj h₁
      exact ⟨htarget, rfl, fun _ _ => rfl, fun h => absurd h hflag⟩
  obtain ⟨htarget₁, hauto, hget, hsettled⟩ := hread
  split_ifs at h₂ with hflag
  · have hne : t.writeConcern.field ≠ t.readConcern.field := by
      show "writeConcern" ≠ "readConcern"
      decide
    have hkey : t.writeConcern.field ≠ "autocommit" := by
      show "writeConcern" ≠ "autocommit"
      decide
    exact ⟨isTarget_force htarget₁ h₂, (has_autocommit_force htarget₁ hkey h₂).trans hauto,
      fun k hk hk' => (get?_unwrapped_force h₂ (Ne.symm hk')).trans (hget k hk),
      fun h => settled_of_force hne (hsettled h) h₂,
      fun _ => settled_force hsame t.nodup h₂⟩
  · obtain rfl := Except.ok.inj h₂
    exact ⟨htarget₁, hauto, fun k hk _ => hget k hk, hsettled, fun h => absurd h hflag⟩

theorem forceBoth_of_settled {flags : Bool × Bool} (htarget : IsTarget name w target)
    (hread : (flags.1 && t.overridesRead) = true → Settled same t.readConcern target)
    (hwrite : flags.2 = true → Settled same t.writeConcern target) :
    forceBoth same t w flags target = .ok target := by
  have hfirst : (if flags.1 && t.overridesRead then t.readConcern.force same w target
      else pure target) = .ok target := by
    split_ifs with hflag
    · exact force_of_settled htarget (hread hflag)
    · rfl
  unfold forceBoth
  rw [hfirst]
  show (if flags.2 then t.writeConcern.force same w target else pure target) = _
  split_ifs with hflag
  · exact force_of_settled htarget (hwrite hflag)
  · rfl

/-- **The override changes nothing in a command that it has changed**, so that it can be loaded
twice. -/
theorem runCommand_idempotent (hsame : ∀ v, same v v = true) {v v' : Value}
    (h : runCommandWithReadAndWriteConcerns same t v = .ok v') :
    runCommandWithReadAndWriteConcerns same t v' = .ok v' := by
  match v with
  | .undefined => cases h
  | .null => cases h
  | .boolean b => cases h; rfl
  | .number x => cases h; rfl
  | .string s => cases h; rfl
  | .array vs => cases h; rfl
  | .object o =>
    have hall := h
    obtain ⟨⟨commandName, commandObj, w⟩, hunwrap, h⟩ := bind_eq_ok.mp h
    obtain ⟨flags, hflags, h⟩ := bind_eq_ok.mp h
    cases commandObj with
    | object u =>
      obtain ⟨target', hforce, h⟩ := bind_eq_ok.mp h
      obtain rfl := Except.ok.inj h
      cases commandName with
      | none =>
        rw [shouldForce_none] at hflags
        obtain rfl := Except.ok.inj hflags
        obtain rfl := Except.ok.inj hforce
        exact hall
      | some name =>
        have htarget : IsTarget name w ⟨o, u⟩ := hunwrap
        obtain ⟨htarget', hauto, hget, hread, hwrite⟩ := forceBoth_spec hsame htarget hforce
        have hflags' : shouldForce t target'.commandObj ⟨some name, .object target'.unwrapped, w⟩ =
            .ok flags := by
          rw [← hflags]
          refine shouldForce_congr rfl hauto fun k hk => ?_
          show Obj.get target'.unwrapped k = Obj.get u k
          have hne : k ≠ "readConcern" ∧ k ≠ "writeConcern" := by
            revert k
            decide
          rw [Obj.get, Obj.get, hget k hne.1 hne.2]
        refine bind_eq_ok.mpr ⟨_, htarget', bind_eq_ok.mpr ⟨flags, hflags', ?_⟩⟩
        exact bind_eq_ok.mpr ⟨target', forceBoth_of_settled htarget' hread hwrite, rfl⟩
    | undefined => obtain rfl := Except.ok.inj h; exact hall
    | null => obtain rfl := Except.ok.inj h; exact hall
    | boolean b => obtain rfl := Except.ok.inj h; exact hall
    | number x => obtain rfl := Except.ok.inj h; exact hall
    | string s => obtain rfl := Except.ok.inj h; exact hall
    | array vs => obtain rfl := Except.ok.inj h; exact hall

/-- `bsonWoCompare` of strings. -/
def sampleSame : Value → Value → Bool
  | .string s, .string s' => s = s'
  | _, _ => true

def sampleTestData : TestData where
  defaultReadConcernLevel := .string "majority"
  defaultWriteConcern := [("w", .string "majority")]
  nodup := by decide

def sampleFind : Value := .object [("find", .string "c")]

def sampleFindMajority : Value :=
  .object [("find", .string "c"), ("readConcern", .object [("level", .string "majority")])]

theorem runCommand_idempotent_sample :
    runCommandWithReadAndWriteConcerns sampleSame sampleTestData sampleFindMajority =
      .ok sampleFindMajority :=
  runCommand_idempotent
    (fun v => by cases v <;> simp [sampleSame])
    (show runCommandWithReadAndWriteConcerns sampleSame sampleTestData sampleFind =
      .ok sampleFindMajority from rfl)

end MongoTests.Override.Concerns
