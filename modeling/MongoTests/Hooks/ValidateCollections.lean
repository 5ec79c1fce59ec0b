import Mathlib.Data.List.Infix

/-!
# Collection validation

`CollectionValidator` in `validate_collections.js`. A text is the list of its code units; what a server answers
is a parameter, and `none` is an exception.

* `RegExp`: regular expressions, on names without special characters.
* `validateCollections`, `validateCollectionsThread`, `validateNodes`: the code.
* `Skips`: the collections that are left out; `SkipsListed` says that they are those that are listed.
* **`covers_iff`**: when exactly the listed namespaces are left out.
* **`restores_iff`**: when the original feature compatibility version is restored.
-/

namespace MongoTests.Hooks.ValidateCollections

/-! ## Texts -/

abbrev Text := List UInt16

/-- The code units of a text of ASCII characters. -/
def js (s : String) : Text := s.toList.map fun c => UInt16.ofNat c.toNat

def dot : UInt16 := 46

def caret : UInt16 := 94

/-- The characters that are special in a regular expression. -/
def syntaxCharacters : Text := [94, 36, 92, 46, 42, 43, 63, 40, 41, 91, 93, 123, 125, 124]

def Plain (s : Text) : Prop := ∀ c ∈ s, c ∉ syntaxCharacters

instance : DecidablePred Plain := fun s => List.decidableBAll (· ∉ syntaxCharacters) s

/-- What `.` does not match. -/
def lineTerminators : Text := [10, 13, 0x2028, 0x2029]

/-- The text without the name and one more character in front. -/
def stripName (name ns : Text) : Text :=
  if name <+: ns then
    match ns.drop name.length with
    | [] => ns
    | c :: rest => if c ∈ lineTerminators then ns else rest
  else ns

structure RegExp where
  /-- `ns.replace(new RegExp(pattern), '')`, or a syntax error. -/
  compile : Text → Option (Text → Text)
  compile_plain : ∀ name, Plain name → compile (caret :: (name ++ [dot])) = some (stripName name)

/-! ## Servers -/

inductive CollectionType where
  | collection
  | view
  deriving DecidableEq

/-- What `listCollections` says of a collection. -/
structure Info where
  name : Text
  type : Option CollectionType
  deriving DecidableEq

structure Database where
  name : Text
  infos : List Info

structure Host where
  name : Text
  databases : List Database

/-- A response of `validate`. -/
structure Response where
  ok : Bool
  valid : Bool
  codeName : Option String
  deriving DecidableEq

abbrev Version := String

/-- `featureCompatibilityVersion` -/
structure FCV where
  version : Version
  targetVersion : Option Version
  deriving DecidableEq

/-- What the servers answer. -/
structure Servers where
  /-- The connection is made and authenticated. -/
  connects : Host → Bool
  /-- The document on the host when its check ends, given the one that was set. -/
  document : Host → FCV → FCV
  /-- `getCollectionInfos` has a result. -/
  lists : Host → Database → Bool
  validate : Host → Database → Text → Option Response

structure Options where
  skipValidationOnInvalidViewDefinitions : Bool
  skipValidationNamespaces : List Text
  skipValidationOnNamespaceNotFound : Bool
  forceValidationWithFeatureCompatibilityVersion : Option Version

/-! ## One database -/

section Code

variable (re : RegExp) (opts : Options) (sv : Servers)

/-- The names that are stripped of the name of the database. -/
def skippedCollections (dbName : Text) : List Text → Option (List Text)
  | [] => some []
  | ns :: namespaces => do
    let replace ← re.compile (caret :: (dbName ++ [dot]))
    let skipped ← skippedCollections dbName namespaces
    let collName := replace ns
    pure (if collName ≠ ns then collName :: skipped else skipped)

/-- The filter on the type. -/
def isCollection (info : Info) : Bool :=
  info.type = some .collection || opts.skipValidationOnInvalidViewDefinitions && info.type = none

structure Validated where
  /-- The collections on which `validate` was run. -/
  collections : List Text
  /-- `failed_res`, or an exception. -/
  failedRes : Option (List Response)

def isFailed (res : Response) : Bool :=
  (!res.ok || !res.valid) &&
    !(opts.skipValidationOnNamespaceNotFound && res.codeName = some "NamespaceNotFound")

def validateLoop (validate : Text → Option Response) : List Info → Validated
  | [] => ⟨[], some []⟩
  | info :: infos =>
    match validate info.name with
    | none => ⟨[info.name], none⟩
    | some res =>
      let rest := validateLoop validate infos
      ⟨info.name :: rest.collections,
        if isFailed opts res then rest.failedRes.map (res :: ·) else rest.failedRes⟩

def validateCollections (host : Host) (db : Database) : Validated :=
  match skippedCollections re db.name opts.skipValidationNamespaces with
  | none => ⟨[], none⟩
  | some skipped =>
    if sv.lists host db then
      validateLoop opts (sv.validate host db)
        (db.infos.filter fun info => isCollection opts info && info.name ∉ skipped)
    else ⟨[], none⟩

/-! ## All hosts -/

/-- A collection that is validated, and the document of its host. -/
structure Validation where
  host : Host
  db : Text
  collection : Text
  document : FCV

structure Thread where
  validations : List Validation
  ok : Bool

def validateDatabases (host : Host) (document : FCV) : List Database → Thread
  | [] => ⟨[], true⟩
  | db :: dbs =>
    let validated := validateCollections re opts sv host db
    let validations := validated.collections.map fun name => ⟨host, db.name, name, document⟩
    if validated.failedRes = some [] then
      let rest := validateDatabases host document dbs
      ⟨validations ++ rest.validations, rest.ok⟩
    else ⟨validations, false⟩

def validateCollectionsThread (document : FCV) (host : Host) : Thread :=
  if sv.connects host then
    match opts.forceValidationWithFeatureCompatibilityVersion with
    | none => validateDatabases re opts sv host (sv.document host document) host.databases
    | some requiredFCV =>
      -- `checkFCV`
      if sv.document host document = ⟨requiredFCV, none⟩ then
        validateDatabases re opts sv host (sv.document host document) host.databases
      else ⟨[], false⟩
  else ⟨[], false⟩

/-- The document after `setFeatureCompatibilityVersion`. -/
def setFCV (version : Version) : FCV := ⟨version, none⟩

/-- The document before the threads are started. -/
def prepare (originalFCV : FCV) : FCV :=
  match opts.forceValidationWithFeatureCompatibilityVersion with
  | none => originalFCV
  | some requiredFCV =>
    let document := match originalFCV.targetVersion with
      | some targetVersion => setFCV targetVersion
      | none => originalFCV
    if originalFCV.version ≠ requiredFCV ∧ originalFCV.targetVersion ≠ some requiredFCV then setFCV requiredFCV
    else document

structure Exit where
  document : FCV
  threw : Bool
  validations : List Validation

def validateNodes (originalFCV : FCV) (hostList : List Host) : Exit :=
  let document := prepare opts originalFCV
  let threads := hostList.map (validateCollectionsThread re opts sv document)
  let validations := threads.flatMap Thread.validations
  if threads.all Thread.ok then
    match opts.forceValidationWithFeatureCompatibilityVersion with
    | some requiredFCV =>
      if originalFCV.version ≠ requiredFCV then ⟨setFCV originalFCV.version, false, validations⟩
      else ⟨document, false, validations⟩
    | none => ⟨document, false, validations⟩
  else ⟨document, true, validations⟩

end Code

/-! ## What is left out -/

section Skipped

variable (re : RegExp) (opts : Options) (sv : Servers)

def fullName (dbName name : Text) : Text := dbName ++ dot :: name

/-- The collections of a database that are left out. -/
def Skips (dbName name : Text) : Prop :=
  match re.compile (caret :: (dbName ++ [dot])) with
  | none => opts.skipValidationNamespaces ≠ []
  | some replace => ∃ ns ∈ opts.skipValidationNamespaces, replace ns ≠ ns ∧ replace ns = name

instance (dbName : Text) : DecidablePred (Skips re opts dbName) := fun _ => by
  unfold Skips
  split
  · infer_instance
  · infer_instance

/-- The pattern is no regular expression. -/
def SyntaxError (dbName : Text) : Prop :=
  (re.compile (caret :: (dbName ++ [dot]))).isNone ∧ opts.skipValidationNamespaces ≠ []

instance (dbName : Text) : Decidable (SyntaxError re opts dbName) := by
  unfold SyntaxError
  infer_instance

/-- What a database should have: if its name is plain, no listed namespace is that of another database of the
same length whose collection has a name that is not listed here. -/
def SkipsListed (db : Database) : Prop :=
  if Plain db.name then
    ∀ ns ∈ opts.skipValidationNamespaces, ∀ c name, ns = db.name ++ c :: name → c ≠ dot → c ∉ lineTerminators →
      (∃ info ∈ db.infos, isCollection opts info ∧ info.name = name) →
        fullName db.name name ∈ opts.skipValidationNamespaces
  else ∀ info ∈ db.infos, isCollection opts info →
    (Skips re opts db.name info.name ↔ fullName db.name info.name ∈ opts.skipValidationNamespaces)

variable {re opts sv}

theorem stripName_spec {name ns rest : Text} :
    stripName name ns ≠ ns ∧ stripName name ns = rest ↔ ∃ c, c ∉ lineTerminators ∧ ns = name ++ c :: rest := by
  rw [stripName]
  by_cases hprefix : name <+: ns
  · obtain ⟨t, rfl⟩ := id hprefix
    rw [if_pos hprefix, List.drop_left]
    cases t with
    | nil => simp
    | cons c t =>
      have hrest : (∃ c', c' ∉ lineTerminators ∧ name ++ c :: t = name ++ c' :: rest) ↔ c ∉ lineTerminators ∧ t = rest := by
        constructor
        · rintro ⟨c', hc', h⟩
          obtain ⟨rfl, rfl⟩ := List.cons.inj (List.append_cancel_left h)
          exact ⟨hc', rfl⟩
        · rintro ⟨hc, rfl⟩
          exact ⟨c, hc, rfl⟩
      rw [hrest]
      dsimp only
      by_cases hterminator : c ∈ lineTerminators
      · rw [if_pos hterminator]
        exact iff_of_false (fun h => h.1 rfl) fun h => h.1 hterminator
      · rw [if_neg hterminator, and_iff_right hterminator, and_iff_right_iff_imp]
        rintro rfl h
        have hlength := congrArg List.length h
        simp only [List.length_append, List.length_cons] at hlength
        omega
  · rw [if_neg hprefix]
    refine iff_of_false (fun h => h.1 rfl) ?_
    rintro ⟨c, -, rfl⟩
    exact hprefix (List.prefix_append _ _)

theorem skips_of_plain {dbName name : Text} (h : Plain dbName) : Skips re opts dbName name ↔
    ∃ c, c ∉ lineTerminators ∧ dbName ++ c :: name ∈ opts.skipValidationNamespaces := by
  rw [Skips, re.compile_plain dbName h]
  dsimp only
  simp only [stripName_spec]
  constructor
  · rintro ⟨ns, hns, c, hc, rfl⟩
    exact ⟨c, hc, hns⟩
  · rintro ⟨c, hc, hns⟩
    exact ⟨_, hns, c, hc, rfl⟩

/-- For plain names the listed collections are left out, and those of other databases that look the same. -/
theorem skipsListed_iff {db : Database} : SkipsListed re opts db ↔ ∀ info ∈ db.infos, isCollection opts info →
    (Skips re opts db.name info.name ↔ fullName db.name info.name ∈ opts.skipValidationNamespaces) := by
  rw [SkipsListed]
  split_ifs with hplain
  · simp only [skips_of_plain hplain]
    constructor
    · intro h info hinfo htype
      constructor
      · rintro ⟨c, hc, hns⟩
        by_cases hdot : c = dot
        · rw [hdot] at hns
          exact hns
        · exact h _ hns c info.name rfl hdot hc ⟨info, hinfo, htype, rfl⟩
      · exact fun hns => ⟨dot, by decide, hns⟩
    · rintro h ns hns c name rfl - hc ⟨info, hinfo, htype, rfl⟩
      exact (h info hinfo htype).mp ⟨c, hc, hns⟩
  · rfl

theorem skippedCollections_of_compile {dbName : Text} {replace : Text → Text}
    (h : re.compile (caret :: (dbName ++ [dot])) = some replace) (namespaces : List Text) :
    skippedCollections re dbName namespaces =
      some ((namespaces.filter fun ns => replace ns ≠ ns).map replace) := by
  induction namespaces with
  | nil => rfl
  | cons ns namespaces ih =>
    rw [skippedCollections, h, ih, List.filter_cons]
    by_cases hns : replace ns = ns
    · simp [hns]
    · simp [hns]

theorem skippedCollections_of_syntaxError {dbName : Text} (h : SyntaxError re opts dbName) :
    skippedCollections re dbName opts.skipValidationNamespaces = none := by
  obtain ⟨ns, namespaces, hskip⟩ := List.exists_cons_of_ne_nil h.2
  rw [hskip, skippedCollections, Option.isNone_iff_eq_none.mp h.1]
  rfl

theorem exists_skippedCollections {dbName : Text} (h : ¬ SyntaxError re opts dbName) :
    ∃ skipped, skippedCollections re dbName opts.skipValidationNamespaces = some skipped ∧
      ∀ name, name ∈ skipped ↔ Skips re opts dbName name := by
  simp only [Skips]
  cases hcompile : re.compile (caret :: (dbName ++ [dot])) with
  | none =>
    have hskip : opts.skipValidationNamespaces = [] := by
      by_contra hne
      exact h ⟨Option.isNone_iff_eq_none.mpr hcompile, hne⟩
    rw [hskip]
    exact ⟨[], rfl, fun name => iff_of_false List.not_mem_nil fun hne => hne rfl⟩
  | some replace =>
    refine ⟨_, skippedCollections_of_compile hcompile _, fun name => ?_⟩
    rw [List.mem_map]
    simp only [List.mem_filter, decide_eq_true_eq, and_assoc]

/-- What a database shows of its collections. -/
def shown (re : RegExp) (opts : Options) (db : Database) : List Info :=
  db.infos.filter fun info => isCollection opts info && !decide (Skips re opts db.name info.name)

theorem validateCollections_eq (host : Host) (db : Database) : validateCollections re opts sv host db =
    if SyntaxError re opts db.name ∨ sv.lists host db = false then ⟨[], none⟩
    else validateLoop opts (sv.validate host db) (shown re opts db) := by
  rw [validateCollections]
  by_cases hraises : SyntaxError re opts db.name
  · rw [skippedCollections_of_syntaxError hraises, if_pos (.inl hraises)]
  · obtain ⟨skipped, hskipped, hmem⟩ := exists_skippedCollections hraises
    have hshown : shown re opts db =
        db.infos.filter fun info => isCollection opts info && info.name ∉ skipped := by
      refine List.filter_congr fun info _ => ?_
      simp only [hmem, decide_not]
    rw [hskipped, hshown]
    dsimp only
    cases hlists : sv.lists host db
    · rw [if_neg Bool.false_ne_true, if_pos (.inr rfl)]
    · rw [if_pos rfl, if_neg (by simp [hraises])]

/-! ## The loops -/

/-- Without exceptions all are validated. -/
theorem validateLoop_collections {validate : Text → Option Response} {infos : List Info}
    (h : ∀ name, validate name ≠ none) : (validateLoop opts validate infos).collections = infos.map Info.name := by
  induction infos with
  | nil => rfl
  | cons info infos ih =>
    obtain ⟨res, hres⟩ := Option.ne_none_iff_exists'.mp (h info.name)
    rw [validateLoop, hres, List.map_cons, ← ih]

variable (opts) in
/-- What is not reported of a collection. -/
def Passes (res : Option Response) : Prop := ∃ r, res = some r ∧ isFailed opts r = false

theorem validateLoop_failedRes {validate : Text → Option Response} {infos : List Info} :
    (validateLoop opts validate infos).failedRes = some [] ↔ ∀ info ∈ infos, Passes opts (validate info.name) := by
  induction infos with
  | nil => simp [validateLoop]
  | cons info infos ih =>
    rw [List.forall_mem_cons, ← ih, validateLoop, Passes]
    cases hres : validate info.name with
    | none => simp
    | some res =>
      dsimp only
      cases hfailed : isFailed opts res
      · simp [hfailed]
      · simp [hfailed]

theorem validateDatabases_ok {host : Host} {document : FCV} {dbs : List Database} :
    (validateDatabases re opts sv host document dbs).ok ↔
      ∀ db ∈ dbs, (validateCollections re opts sv host db).failedRes = some [] := by
  induction dbs with
  | nil => simp [validateDatabases]
  | cons db dbs ih =>
    rw [List.forall_mem_cons, ← ih, validateDatabases]
    dsimp only
    split_ifs with hnil
    · simp [hnil]
    · simp [hnil]

theorem validateNodes_threw {originalFCV : FCV} {hostList : List Host} :
    (validateNodes re opts sv originalFCV hostList).threw ↔
      ∃ host ∈ hostList, (validateCollectionsThread re opts sv (prepare opts originalFCV) host).ok = false := by
  have hall : (hostList.map (validateCollectionsThread re opts sv (prepare opts originalFCV))).all Thread.ok ↔
      ¬ ∃ host ∈ hostList, (validateCollectionsThread re opts sv (prepare opts originalFCV) host).ok = false := by
    simp [List.all_eq_true]
  rw [validateNodes]
  split_ifs with hok
  · cases opts.forceValidationWithFeatureCompatibilityVersion with
    | none => exact iff_of_false (fun h => by cases h) (hall.mp hok)
    | some requiredFCV =>
      dsimp only
      split_ifs
      · exact iff_of_false (fun h => by cases h) (hall.mp hok)
      · exact iff_of_false (fun h => by cases h) (hall.mp hok)
  · exact iff_of_true rfl (not_not.mp (hall.not.mp hok))

end Skipped

/-! ## What should be covered -/

section Covers

variable (re : RegExp) (opts : Options)

/-- The names of the collections that are not listed. -/
def expected (db : Database) : List Text :=
  (db.infos.filter fun info => isCollection opts info &&
    fullName db.name info.name ∉ opts.skipValidationNamespaces).map Info.name

def Response.Bad (res : Response) : Prop :=
  (res.ok = false ∨ res.valid = false) ∧
    ¬ (opts.skipValidationOnNamespaceNotFound ∧ res.codeName = some "NamespaceNotFound")

/-- A collection of a database that is not listed. -/
def Unlisted (db : Database) (info : Info) : Prop :=
  isCollection opts info ∧ fullName db.name info.name ∉ opts.skipValidationNamespaces

/-- An exception in the thread of a host. -/
def MeetsException (sv : Servers) (document : FCV) (host : Host) : Prop :=
  sv.connects host = false ∨
    (∃ requiredFCV ∈ opts.forceValidationWithFeatureCompatibilityVersion,
      sv.document host document ≠ ⟨requiredFCV, none⟩) ∨
    ∃ db ∈ host.databases, SyntaxError re opts db.name ∨ sv.lists host db = false ∨
      ∃ info ∈ db.infos, Unlisted opts db info ∧ sv.validate host db info.name = none

/-- What is not skipped is validated, and what is found there is reported. -/
structure Covers (hostList : List Host) : Prop where
  validated : ∀ sv, ∀ host ∈ hostList, ∀ db ∈ host.databases, sv.lists host db →
    (∀ name, sv.validate host db name ≠ none) →
      (validateCollections re opts sv host db).collections = expected opts db
  throws : ∀ sv originalFCV, (validateNodes re opts sv originalFCV hostList).threw ↔
    ∃ host ∈ hostList, MeetsException re opts sv (prepare opts originalFCV) host ∨
      ∃ db ∈ host.databases, ∃ info ∈ db.infos, Unlisted opts db info ∧
        ∃ res ∈ sv.validate host db info.name, res.Bad opts

variable {re opts} {sv : Servers}

theorem isFailed_iff {res : Response} : isFailed opts res ↔ res.Bad opts := by
  rw [isFailed, Response.Bad]
  cases res.ok <;> cases res.valid <;> cases opts.skipValidationOnNamespaceNotFound <;> simp

theorem not_passes_iff {res : Option Response} : ¬ Passes opts res ↔ res = none ∨ ∃ r ∈ res, r.Bad opts := by
  cases res with
  | none => simp [Passes]
  | some r => simp [Passes, ← isFailed_iff]

theorem shown_eq_nil {db : Database} (h : SyntaxError re opts db.name) : shown re opts db = [] := by
  refine List.filter_eq_nil_iff.mpr fun info _ => ?_
  have hskips : Skips re opts db.name info.name := by
    rw [Skips, Option.isNone_iff_eq_none.mp h.1]
    exact h.2
  simp [hskips]

/-- What is validated is what is shown. -/
theorem collections_eq {host : Host} {db : Database} (hlists : sv.lists host db)
    (hvalidate : ∀ name, sv.validate host db name ≠ none) :
    (validateCollections re opts sv host db).collections = (shown re opts db).map Info.name := by
  rw [validateCollections_eq]
  split_ifs with h
  · have hraises : SyntaxError re opts db.name := h.resolve_right (by simp [hlists])
    rw [shown_eq_nil hraises]
    rfl
  · exact validateLoop_collections hvalidate

theorem shown_eq {db : Database} (h : SkipsListed re opts db) : shown re opts db =
    db.infos.filter fun info => isCollection opts info &&
      fullName db.name info.name ∉ opts.skipValidationNamespaces := by
  refine List.filter_congr fun info hinfo => ?_
  cases htype : isCollection opts info with
  | false => rfl
  | true =>
    have hiff := skipsListed_iff.mp h info hinfo htype
    simp [hiff]

theorem mem_shown {db : Database} (h : SkipsListed re opts db) {info : Info} :
    info ∈ shown re opts db ↔ info ∈ db.infos ∧ Unlisted opts db info := by
  rw [shown_eq h, List.mem_filter, Unlisted]
  simp

theorem failedRes_ne_iff {host : Host} {db : Database} (h : SkipsListed re opts db) :
    (validateCollections re opts sv host db).failedRes ≠ some [] ↔
      SyntaxError re opts db.name ∨ sv.lists host db = false ∨
        ∃ info ∈ db.infos, Unlisted opts db info ∧ ¬ Passes opts (sv.validate host db info.name) := by
  rw [validateCollections_eq, ← or_assoc]
  split_ifs with hor
  · exact iff_of_true (fun h => by cases h) (.inl hor)
  · rw [or_iff_right hor, ne_eq, validateLoop_failedRes]
    simp only [mem_shown h, not_forall, exists_prop, and_assoc]

theorem databases_ok_iff {host : Host} {document : FCV} (h : ∀ db ∈ host.databases, SkipsListed re opts db) :
    (validateDatabases re opts sv host document host.databases).ok = false ↔
      ∃ db ∈ host.databases, SyntaxError re opts db.name ∨ sv.lists host db = false ∨
        ∃ info ∈ db.infos, Unlisted opts db info ∧ ¬ Passes opts (sv.validate host db info.name) := by
  rw [← Bool.not_eq_true, validateDatabases_ok]
  simp only [not_forall, exists_prop]
  refine exists_congr fun db => and_congr_right fun hdb => ?_
  exact failedRes_ne_iff (h db hdb)

theorem thread_ok_iff {host : Host} {document : FCV} (h : ∀ db ∈ host.databases, SkipsListed re opts db) :
    (validateCollectionsThread re opts sv document host).ok = false ↔
      MeetsException re opts sv document host ∨ ∃ db ∈ host.databases, ∃ info ∈ db.infos, Unlisted opts db info ∧
        ∃ res ∈ sv.validate host db info.name, res.Bad opts := by
  have hdatabases : (validateDatabases re opts sv host (sv.document host document) host.databases).ok = false ↔
      (∃ db ∈ host.databases, SyntaxError re opts db.name ∨ sv.lists host db = false ∨
        ∃ info ∈ db.infos, Unlisted opts db info ∧ sv.validate host db info.name = none) ∨
        ∃ db ∈ host.databases, ∃ info ∈ db.infos, Unlisted opts db info ∧
          ∃ res ∈ sv.validate host db info.name, res.Bad opts := by
    rw [databases_ok_iff h, ← exists_or]
    refine exists_congr fun db => ?_
    rw [← and_or_left]
    refine and_congr_right fun _ => ?_
    rw [or_assoc, or_assoc, ← exists_or]
    refine or_congr_right (or_congr_right (exists_congr fun info => ?_))
    rw [← and_or_left, ← and_or_left, not_passes_iff]
  rw [validateCollectionsThread, MeetsException]
  split_ifs with hconnects
  · rw [hconnects]
    cases hrequired : opts.forceValidationWithFeatureCompatibilityVersion with
    | none =>
      dsimp only
      rw [hdatabases]
      simp
    | some requiredFCV =>
      dsimp only
      split_ifs with hdocument
      · rw [hdatabases]
        simp [hdocument]
      · exact iff_of_true rfl (.inl (.inr (.inl ⟨requiredFCV, rfl, hdocument⟩)))
  · exact iff_of_true rfl (.inl (.inl (by simpa using hconnects)))

/-- Servers without failures. -/
def soundServers : Servers where
  connects _ := true
  document _ fcv := fcv
  lists _ _ := true
  validate _ _ _ := some ⟨true, true, none⟩

variable (re opts) in
/-- **When are exactly the listed namespaces skipped?** -/
theorem covers_iff (hostList : List Host) :
    Covers re opts hostList ↔ ∀ host ∈ hostList, ∀ db ∈ host.databases, SkipsListed re opts db := by
  constructor
  · intro h host hhost db hdb
    refine skipsListed_iff.mpr fun info hinfo htype => ?_
    have hnames := h.validated soundServers host hhost db hdb rfl fun _ => Option.some_ne_none _
    rw [collections_eq rfl fun _ => Option.some_ne_none _, expected] at hnames
    constructor
    · intro hskips
      by_contra hlisted
      have hmem : info.name ∈ (shown re opts db).map Info.name := by
        rw [hnames]
        exact List.mem_map_of_mem (List.mem_filter.mpr ⟨hinfo, by simp [htype, hlisted]⟩)
      obtain ⟨info', hinfo', hname⟩ := List.mem_map.mp hmem
      have hshown := (List.mem_filter.mp hinfo').2
      rw [hname] at hshown
      simp [hskips] at hshown
    · intro hlisted
      by_contra hskips
      have hmem : info.name ∈ (db.infos.filter fun info => isCollection opts info &&
          fullName db.name info.name ∉ opts.skipValidationNamespaces).map Info.name := by
        rw [← hnames]
        exact List.mem_map_of_mem (List.mem_filter.mpr ⟨hinfo, by simp [htype, hskips]⟩)
      obtain ⟨info', hinfo', hname⟩ := List.mem_map.mp hmem
      have hexpected := (List.mem_filter.mp hinfo').2
      rw [hname] at hexpected
      simp [hlisted] at hexpected
  · intro h
    refine ⟨fun sv host hhost db hdb hlists hvalidate => ?_, fun sv originalFCV => ?_⟩
    · rw [collections_eq hlists hvalidate, shown_eq (h host hhost db hdb)]
      rfl
    · rw [validateNodes_threw]
      exact exists_congr fun host => and_congr_right fun hhost => thread_ok_iff (h host hhost)

/-! ### A database whose name is one character longer -/

/-- Regular expressions without special characters. -/
def plainRegExp : RegExp where
  compile pattern :=
    if Plain pattern.tail.dropLast ∧ pattern = caret :: (pattern.tail.dropLast ++ [dot]) then
      some (stripName pattern.tail.dropLast)
    else none
  compile_plain name h := by
    rw [List.tail_cons, List.dropLast_concat]
    exact if_pos ⟨h, rfl⟩

def skipOther : Options := ⟨false, [js "testXfoo.bar"], false, none⟩

def testDatabase : Database := ⟨js "test", [⟨js "foo.bar", some .collection⟩]⟩

/-- The listed collection is in another database, but `foo.bar` of `test` is not validated. -/
theorem other_skipped :
    (validateCollections plainRegExp skipOther soundServers ⟨js "host", [testDatabase]⟩ testDatabase).collections = [] ∧
      ¬ Covers plainRegExp skipOther [⟨js "host", [testDatabase]⟩] := by
  have hnone : (validateCollections plainRegExp skipOther soundServers ⟨js "host", [testDatabase]⟩
      testDatabase).collections = [] := by decide +kernel
  refine ⟨hnone, fun h => ?_⟩
  have hnames := h.validated soundServers _ List.mem_cons_self testDatabase List.mem_cons_self rfl
    fun _ => Option.some_ne_none _
  rw [hnone] at hnames
  revert hnames
  decide +kernel

end Covers

/-! ## The feature compatibility version -/

section Restores

variable (re : RegExp) (opts : Options) (sv : Servers) (requiredFCV : Version) (originalFCV : FCV)
  (hostList : List Host)

/-- The options with a required version. -/
def requiring (opts : Options) (requiredFCV : Version) : Options :=
  { opts with forceValidationWithFeatureCompatibilityVersion := some requiredFCV }

/-- Collections are validated under the required version, and the original one is there at the end. -/
structure Restores (exit : Exit) : Prop where
  required : ∀ v ∈ exit.validations, v.document = ⟨requiredFCV, none⟩
  restored : exit.document.version = originalFCV.version

variable {re opts sv requiredFCV originalFCV hostList}

theorem document_of_mem_validations {host : Host} {document : FCV} {dbs : List Database} :
    ∀ v ∈ (validateDatabases re opts sv host document dbs).validations, v.document = document := by
  induction dbs with
  | nil =>
    intro v hv
    cases hv
  | cons db dbs ih =>
    intro v hv
    have hdb : ∀ v ∈ (validateCollections re opts sv host db).collections.map fun name =>
        (⟨host, db.name, name, document⟩ : Validation), v.document = document := by
      intro v hv
      obtain ⟨name, -, rfl⟩ := List.mem_map.mp hv
      rfl
    rw [validateDatabases] at hv
    dsimp only at hv
    split_ifs at hv
    · exact (List.mem_append.mp hv).elim (hdb v) (ih v)
    · exact hdb v hv

theorem document_of_mem_thread {host : Host} {document : FCV} :
    ∀ v ∈ (validateCollectionsThread re (requiring opts requiredFCV) sv document host).validations,
      v.document = ⟨requiredFCV, none⟩ := by
  intro v hv
  rw [validateCollectionsThread] at hv
  split_ifs at hv with hconnects
  · dsimp only [requiring] at hv
    split_ifs at hv with hdocument
    · rw [document_of_mem_validations v hv, hdocument]
    · cases hv
  · cases hv

theorem prepare_of_ne (h : originalFCV.version ≠ requiredFCV) :
    prepare (requiring opts requiredFCV) originalFCV = setFCV requiredFCV := by
  rw [prepare]
  dsimp only [requiring]
  by_cases htarget : originalFCV.targetVersion = some requiredFCV
  · rw [if_neg fun hand => hand.2 htarget, htarget]
  · rw [if_pos ⟨h, htarget⟩]

theorem prepare_of_eq (h : originalFCV.version = requiredFCV) :
    prepare (requiring opts requiredFCV) originalFCV =
      (originalFCV.targetVersion.map setFCV).getD originalFCV := by
  rw [prepare]
  dsimp only [requiring]
  rw [if_neg fun hand => hand.1 h]
  cases originalFCV.targetVersion with
  | none => rfl
  | some targetVersion => rfl

theorem validations_validateNodes : (validateNodes re opts sv originalFCV hostList).validations =
    (hostList.map (validateCollectionsThread re opts sv (prepare opts originalFCV))).flatMap Thread.validations := by
  rw [validateNodes]
  split_ifs
  · cases opts.forceValidationWithFeatureCompatibilityVersion with
    | none => rfl
    | some requiredFCV =>
      dsimp only
      split_ifs
      · rfl
      · rfl
  · rfl

/-- What there is at the end. -/
theorem document_validateNodes :
    (validateNodes re (requiring opts requiredFCV) sv originalFCV hostList).document =
      if originalFCV.version ≠ requiredFCV ∧ (hostList.map (validateCollectionsThread re (requiring opts requiredFCV) sv
          (prepare (requiring opts requiredFCV) originalFCV))).all Thread.ok
      then setFCV originalFCV.version else prepare (requiring opts requiredFCV) originalFCV := by
  rw [validateNodes]
  split_ifs with hok hand hand
  · show (ite (originalFCV.version ≠ requiredFCV) _ _ : Exit).document = _
    rw [if_pos hand.1]
  · show (ite (originalFCV.version ≠ requiredFCV) _ _ : Exit).document = _
    rw [if_neg fun hne => hand ⟨hne, hok⟩]
  · exact absurd hand.2 hok
  · rfl

variable (re opts sv requiredFCV originalFCV hostList) in
/-- **When is the original version restored?** -/
theorem restores_iff :
    Restores requiredFCV originalFCV (validateNodes re (requiring opts requiredFCV) sv originalFCV hostList) ↔
      originalFCV.version = requiredFCV ∧
          (originalFCV.targetVersion = none ∨ originalFCV.targetVersion = some originalFCV.version) ∨
        originalFCV.version ≠ requiredFCV ∧ ∀ host ∈ hostList,
          (validateCollectionsThread re (requiring opts requiredFCV) sv (setFCV requiredFCV) host).ok := by
  have hrequired : ∀ v ∈ (validateNodes re (requiring opts requiredFCV) sv originalFCV hostList).validations,
      v.document = ⟨requiredFCV, none⟩ := by
    intro v hv
    rw [validations_validateNodes] at hv
    obtain ⟨thread, hthread, hv⟩ := List.mem_flatMap.mp hv
    obtain ⟨host, -, rfl⟩ := List.mem_map.mp hthread
    exact document_of_mem_thread v hv
  have hrestores : Restores requiredFCV originalFCV
      (validateNodes re (requiring opts requiredFCV) sv originalFCV hostList) ↔
        (validateNodes re (requiring opts requiredFCV) sv originalFCV hostList).document.version =
          originalFCV.version :=
    ⟨Restores.restored, fun h => ⟨hrequired, h⟩⟩
  rw [hrestores, document_validateNodes]
  by_cases heq : originalFCV.version = requiredFCV
  · rw [if_neg fun hand => hand.1 heq, prepare_of_eq heq]
    cases htarget : originalFCV.targetVersion with
    | none => simp [heq]
    | some targetVersion => simp [heq, setFCV]
  · rw [prepare_of_ne heq]
    have hall : (hostList.map (validateCollectionsThread re (requiring opts requiredFCV) sv
        (setFCV requiredFCV))).all Thread.ok ↔ ∀ host ∈ hostList,
          (validateCollectionsThread re (requiring opts requiredFCV) sv (setFCV requiredFCV) host).ok := by
      simp [List.all_eq_true]
    rw [← hall]
    split_ifs with hand
    · exact iff_of_true rfl (.inr hand)
    · refine iff_of_false (fun h => heq h.symm) ?_
      rintro (⟨hversion, -⟩ | hand')
      · exact heq hversion
      · exact hand hand'

/-- An interrupted downgrade. -/
def interrupted : FCV := ⟨"4.2", some "4.0"⟩

/-- The host cannot be reached. -/
def deadServers : Servers := { soundServers with connects := fun _ => false }

/-- A validation that fails, and an interrupted downgrade from the required version. -/
theorem version_not_restored :
    ¬ Restores "4.0" ⟨"4.2", none⟩
        (validateNodes plainRegExp (requiring skipOther "4.0") deadServers ⟨"4.2", none⟩ [⟨js "host", []⟩]) ∧
      ¬ Restores "4.2" interrupted
        (validateNodes plainRegExp (requiring skipOther "4.2") soundServers interrupted [⟨js "host", []⟩]) :=
  ⟨fun h => absurd h.restored (by decide +kernel), fun h => absurd h.restored (by decide +kernel)⟩

end Restores

end MongoTests.Hooks.ValidateCollections
