import Mathlib.Data.List.Basic
import MongoTests.Lib.Checked

/-!
# Validation in the background

`run_validate_collections_background.js`. The answers of a node are given with its databases and collections.

* `isIgnorableError`, `validateCollectionsBackgroundThread`, `run`: the code; a function that is not passed
  is undefined.
* `Node.Bad`: a node with a response that should not be ignored.
* **`throws_iff_bad_iff`**: the topologies for which the verdict is right.
-/

namespace MongoTests.Hooks.ValidateBackground

open MongoTests.Lib

/-- A response of `validate`. -/
structure Response where
  ok : Bool
  codeName : Option String
  valid : Option Bool
  deriving DecidableEq

structure Collection where
  name : String
  res : Response

/-- The collections are those of `listCollections`, if it works. -/
structure Database where
  name : String
  collections : Option (List Collection)

structure Node where
  connects : Bool
  supportsCheckpoints : Bool
  arbiterOnly : Bool
  /-- The databases of `listDatabases`, if it works. -/
  databases : Option (List Database)

inductive Topology where
  | standalone (mongod : Node)
  | replicaSet (nodes : List Node)
  | other

inductive Raised where
  | assertion
  | typeError
  | unsupportedTopology
  /-- The number of errors that were gathered. -/
  | notSuccessful (gatheredErrors : ℕ)
  deriving DecidableEq

inductive Verdict where
  | ok
  | validateFailure
  deriving DecidableEq

/-! ## The code -/

def isIgnorableError (codeName : Option String) : Bool :=
  codeName = some "NamespaceNotFound" || codeName = some "Interrupted" ||
    codeName = some "CommandNotSupportedOnView" || codeName = some "InterruptedAtShutdown" ||
    codeName = some "InvalidViewDefinition"

section Code

variable (isIgnorableErrorFunc : Option (Option String → Bool))

/-- `!res.ok && !isIgnorableErrorFunc(res.codeName)` -/
def failedForGood (res : Response) : Except Raised Bool :=
  if res.ok then pure false
  else match isIgnorableErrorFunc with
    | none => throw .typeError
    | some func => pure (!func res.codeName)

/-- The failed result of a collection, if there is one. -/
def validateCollection (dbName : String) (collection : Collection) : Except Raised (List (String × Response)) := do
  let res := collection.res
  let failed ← failedForGood isIgnorableErrorFunc res
  pure (if failed || res.valid = some false then [(dbName ++ "." ++ collection.name, res)] else [])

def validateDatabase (db : Database) : Except Raised (List (String × Response)) := do
  match db.collections with
  | none => throw .assertion
  | some collections =>
    let failedValidateResults ← collections.mapM (validateCollection isIgnorableErrorFunc db.name)
    pure failedValidateResults.flatten

def validateCollectionsBackgroundThread (node : Node) : Except Raised Verdict :=
  if !node.connects then throw .assertion
  else if !node.supportsCheckpoints then pure .ok
  else if node.arbiterOnly then pure .ok
  else match node.databases with
    | none => throw .assertion
    | some databases => do
      let failedValidateResults ← databases.mapM (validateDatabase isIgnorableErrorFunc)
      pure (if failedValidateResults.flatten = [] then .ok else .validateFailure)

end Code

def isError (returnData : Except Raised Verdict) : Bool :=
  match returnData with
  | .ok .ok => false
  | _ => true

/-- A thread that throws or whose result is not ok has an error. -/
def gatheredErrors (nodes : List Node) : List (Except Raised Verdict) :=
  (nodes.map (validateCollectionsBackgroundThread (some isIgnorableError))).filter isError

def run : Topology → Except Raised Unit
  | .standalone mongod => do
    let res ← validateCollectionsBackgroundThread none mongod
    if res = .ok then pure () else throw .assertion
  | .replicaSet nodes =>
    if (gatheredErrors nodes).length = 0 then pure () else throw (.notSuccessful (gatheredErrors nodes).length)
  | .other => throw .unsupportedTopology

/-! ## The verdict -/

def Response.Ignorable (res : Response) : Prop := !res.ok ∧ isIgnorableError res.codeName

def Response.Bad (res : Response) : Prop := res.valid = some false ∨ !res.ok ∧ !isIgnorableError res.codeName

instance : DecidablePred Response.Bad := fun _ => by
  unfold Response.Bad
  infer_instance

namespace Node

/-- A node without data or without checkpoints is skipped. -/
def Checked (node : Node) : Prop := node.supportsCheckpoints ∧ !node.arbiterOnly

/-- Connecting to the node and listing its collections work. -/
structure Listed (node : Node) : Prop where
  connects : node.connects
  databases : node.databases.isSome
  collections : ∀ dbs ∈ node.databases, ∀ db ∈ dbs, db.collections.isSome

def responses (node : Node) : List Response :=
  (node.databases.getD []).flatMap fun db => (db.collections.getD []).map Collection.res

def Bad (node : Node) : Prop := node.Checked ∧ ∃ res ∈ node.responses, res.Bad

end Node

namespace Topology

def nodes : Topology → List Node
  | standalone mongod => [mongod]
  | replicaSet nodes => nodes
  | other => []

/-- On a standalone node, an error that should be ignored must not be the only one. -/
def Sound : Topology → Prop
  | standalone mongod => mongod.Bad ∨ ¬ mongod.Checked ∨ ∀ res ∈ mongod.responses, ¬ res.Ignorable
  | replicaSet _ => True
  | other => False

end Topology

section Verdict

variable {func : Option (Option String → Bool)} {node : Node}

/-- A response that is neither an error nor a reason to throw. -/
def Response.Passes (func : Option (Option String → Bool)) (res : Response) : Prop :=
  (res.ok ∨ ∃ f, func = some f ∧ f res.codeName) ∧ res.valid ≠ some false

theorem validateCollection_eq_nil {dbName : String} {collection : Collection} :
    validateCollection func dbName collection = .ok [] ↔ collection.res.Passes func := by
  have hresult : ∀ failed : Bool,
      (if failed || collection.res.valid = some false then [(dbName ++ "." ++ collection.name, collection.res)]
        else []) = [] ↔ failed = false ∧ collection.res.valid ≠ some false := by
    intro failed
    cases failed <;> simp
  rw [validateCollection, bind_eq_ok, Response.Passes]
  unfold failedForGood
  split_ifs with hok
  · constructor
    · rintro ⟨failed, h, hnil⟩
      cases h
      exact ⟨.inl hok, ((hresult false).mp (Except.ok.inj hnil)).2⟩
    · rintro ⟨-, hvalid⟩
      exact ⟨false, rfl, congrArg Except.ok ((hresult false).mpr ⟨rfl, hvalid⟩)⟩
  · cases func with
    | none =>
      constructor
      · rintro ⟨failed, h, -⟩
        cases h
      · rintro ⟨hor, -⟩
        obtain h | ⟨f, h, -⟩ := hor
        · exact absurd h hok
        · cases h
    | some f =>
      constructor
      · rintro ⟨failed, h, hnil⟩
        cases h
        obtain ⟨hfailed, hvalid⟩ := (hresult _).mp (Except.ok.inj hnil)
        exact ⟨.inr ⟨f, rfl, by simpa using hfailed⟩, hvalid⟩
      · rintro ⟨hor, hvalid⟩
        obtain ⟨g, hg, hcode⟩ := hor.resolve_left hok
        cases hg
        exact ⟨_, rfl, congrArg Except.ok ((hresult _).mpr ⟨by simpa using hcode, hvalid⟩)⟩

theorem validateDatabase_eq_nil {db : Database} (h : db.collections.isSome) :
    validateDatabase func db = .ok [] ↔ ∀ collection ∈ db.collections.getD [], collection.res.Passes func := by
  obtain ⟨collections, hcollections⟩ := Option.isSome_iff_exists.mp h
  rw [validateDatabase, hcollections, Option.getD_some]
  dsimp only
  rw [bind_eq_ok]
  constructor
  · rintro ⟨failed, hfailed, hnil⟩ collection hmem
    exact validateCollection_eq_nil.mp (mapM_flatten_eq_nil.mp ⟨failed, hfailed, Except.ok.inj hnil⟩ collection hmem)
  · intro hall
    obtain ⟨failed, hfailed, hnil⟩ := mapM_flatten_eq_nil.mpr fun collection hmem =>
      validateCollection_eq_nil.mpr (hall collection hmem)
    exact ⟨failed, hfailed, congrArg Except.ok hnil⟩

/-- A thread is content if all responses of its node pass. -/
theorem thread_eq_ok (h : node.Listed) : validateCollectionsBackgroundThread func node = .ok .ok ↔
    (node.Checked → ∀ res ∈ node.responses, res.Passes func) := by
  obtain ⟨databases, hdatabases⟩ := Option.isSome_iff_exists.mp h.databases
  have hresponses : (∀ res ∈ node.responses, res.Passes func) ↔
      ∀ db ∈ databases, ∀ collection ∈ db.collections.getD [], collection.res.Passes func := by
    rw [Node.responses, hdatabases, Option.getD_some]
    simp only [List.forall_mem_flatMap, List.forall_mem_map]
  have hcollections : ∀ db ∈ databases, db.collections.isSome := h.collections databases hdatabases
  rw [validateCollectionsBackgroundThread, if_neg (by rw [h.connects]; exact Bool.false_ne_true)]
  by_cases hchecked : node.Checked
  · obtain ⟨hsupports, harbiter⟩ := id hchecked
    rw [imp_iff_right hchecked, hresponses, if_neg (by rw [hsupports]; exact Bool.false_ne_true),
      if_neg (by simpa using harbiter), hdatabases]
    dsimp only
    rw [bind_eq_ok]
    constructor
    · rintro ⟨failed, hfailed, hverdict⟩ db hdb
      have hnil : failed.flatten = [] := by
        by_contra hne
        rw [if_neg hne] at hverdict
        cases hverdict
      exact (validateDatabase_eq_nil (hcollections db hdb)).mp (mapM_flatten_eq_nil.mp ⟨failed, hfailed, hnil⟩ db hdb)
    · intro hall
      obtain ⟨failed, hfailed, hnil⟩ := mapM_flatten_eq_nil.mpr fun db hdb =>
        (validateDatabase_eq_nil (hcollections db hdb)).mpr (hall db hdb)
      exact ⟨failed, hfailed, by rw [if_pos hnil]; rfl⟩
  · rw [iff_true_right fun h => absurd h hchecked]
    rw [Node.Checked, not_and_or] at hchecked
    by_cases hsupports : node.supportsCheckpoints
    · have harbiter : node.arbiterOnly := by simpa [hsupports] using hchecked
      rw [if_neg (by rw [hsupports]; exact Bool.false_ne_true), if_pos harbiter]
      rfl
    · rw [if_pos (by simpa using hsupports)]
      rfl

theorem passes_isIgnorableError {res : Response} : res.Passes (some isIgnorableError) ↔ ¬ res.Bad := by
  rw [Response.Passes, Response.Bad]
  cases res.ok <;> simp [and_comm]

/-- Without the function only good responses pass. -/
theorem passes_none {res : Response} : res.Passes none ↔ ¬ res.Bad ∧ ¬ res.Ignorable := by
  rw [Response.Passes, Response.Bad, Response.Ignorable]
  cases res.ok <;> cases isIgnorableError res.codeName <;> simp

theorem isError_iff {returnData : Except Raised Verdict} : isError returnData = false ↔ returnData = .ok .ok := by
  cases returnData with
  | error err => simp [isError]
  | ok verdict => cases verdict <;> simp [isError]

theorem not_bad_iff : ¬ node.Bad ↔ (node.Checked → ∀ res ∈ node.responses, ¬ res.Bad) := by
  rw [Node.Bad, not_and, not_exists]
  simp only [not_and]

theorem gatheredErrors_length_eq_zero {nodes : List Node} (h : ∀ node ∈ nodes, node.Listed) :
    (gatheredErrors nodes).length = 0 ↔ ¬ ∃ node ∈ nodes, node.Bad := by
  have hthread : ∀ node ∈ nodes,
      validateCollectionsBackgroundThread (some isIgnorableError) node = .ok .ok ↔ ¬ node.Bad := by
    intro node hnode
    rw [thread_eq_ok (h node hnode), not_bad_iff]
    simp only [passes_isIgnorableError]
  rw [List.length_eq_zero_iff, gatheredErrors, List.filter_eq_nil_iff, List.forall_mem_map]
  simp only [Bool.not_eq_true, isError_iff, not_exists, not_and]
  exact forall₂_congr hthread

theorem run_standalone {mongod : Node} (h : mongod.Listed) : run (.standalone mongod) = .ok () ↔
    ¬ mongod.Bad ∧ (mongod.Checked → ∀ res ∈ mongod.responses, ¬ res.Ignorable) := by
  have hthread : run (.standalone mongod) = .ok () ↔ validateCollectionsBackgroundThread none mongod = .ok .ok := by
    rw [run, bind_eq_ok]
    constructor
    · rintro ⟨verdict, hverdict, hres⟩
      cases verdict with
      | ok => exact hverdict
      | validateFailure => cases hres
    · exact fun hverdict => ⟨.ok, hverdict, rfl⟩
  rw [hthread, thread_eq_ok h, not_bad_iff]
  simp only [passes_none]
  exact ⟨fun hall => ⟨fun hchecked res hres => (hall hchecked res hres).1, fun hchecked res hres =>
    (hall hchecked res hres).2⟩, fun hall hchecked res hres => ⟨hall.1 hchecked res hres, hall.2 hchecked res hres⟩⟩

theorem throws_iff {topology : Topology} :
    (∃ err, run topology = .error err) ↔ run topology ≠ .ok () := by
  cases run topology with
  | error err => simp
  | ok u => simp

/-- **For which topologies is the verdict right?** -/
theorem throws_iff_bad_iff {topology : Topology} (h : ∀ node ∈ topology.nodes, node.Listed) :
    ((∃ err, run topology = .error err) ↔ ∃ node ∈ topology.nodes, node.Bad) ↔ topology.Sound := by
  rw [throws_iff]
  cases topology with
  | standalone mongod =>
    have hnodes : (∃ node ∈ (Topology.standalone mongod).nodes, node.Bad) ↔ mongod.Bad := by simp [Topology.nodes]
    rw [hnodes, ne_eq, run_standalone (h mongod List.mem_cons_self), Topology.Sound]
    by_cases hbad : mongod.Bad
    · simp [hbad]
    · simp [hbad, imp_iff_not_or]
  | replicaSet nodes =>
    have hrun : run (.replicaSet nodes) = .ok () ↔ ¬ ∃ node ∈ nodes, node.Bad := by
      have hlisted : ∀ node ∈ nodes, node.Listed := h
      rw [← gatheredErrors_length_eq_zero hlisted, run]
      split_ifs with hlength
      · exact iff_of_true rfl hlength
      · exact iff_of_false (fun h => by cases h) hlength
    exact iff_of_true (by rw [ne_eq, hrun, not_not]; rfl) trivial
  | other =>
    refine iff_of_false (fun h => ?_) id
    obtain ⟨node, hnode, -⟩ := h.mp fun h => by cases h
    cases hnode

/-! ### A dropped collection -/

/-- The collection was dropped between the list and the validation. -/
def dropped : Response := ⟨false, some "NamespaceNotFound", none⟩

def nodeWith (res : Response) : Node := ⟨true, true, false, some [⟨"test", some [⟨"foo", res⟩]⟩]⟩

theorem nodeWith_listed (res : Response) : (nodeWith res).Listed where
  connects := rfl
  databases := rfl
  collections := by
    intro dbs hdbs db hdb
    cases hdbs
    rw [List.mem_singleton.mp hdb]
    rfl

/-- In a replica set the dropped collection is passed over. -/
theorem replicaSet_dropped : ((∃ err, run (.replicaSet [nodeWith dropped]) = .error err) ↔
    ∃ node ∈ (Topology.replicaSet [nodeWith dropped]).nodes, node.Bad) :=
  (@throws_iff_bad_iff (.replicaSet [nodeWith dropped]) fun node hnode => by
    rw [List.mem_singleton.mp hnode]
    exact nodeWith_listed dropped).mpr trivial

/-- On a standalone node the missing function is called. -/
theorem standalone_dropped : run (.standalone (nodeWith dropped)) = .error .typeError ∧
    ¬ ∃ node ∈ (Topology.standalone (nodeWith dropped)).nodes, node.Bad := by
  refine ⟨rfl, ?_⟩
  rintro ⟨node, hnode, -, res, hres, hbad⟩
  rw [List.mem_singleton.mp hnode] at hres
  rw [List.mem_singleton.mp hres] at hbad
  revert hbad
  decide

end Verdict

end MongoTests.Hooks.ValidateBackground
