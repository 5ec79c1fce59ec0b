import Mathlib.Data.List.TakeWhile
import MongoTests.Lib.Checked
import MongoTests.Lib.Rotation
import MongoTests.Lib.RoundRobin

/-!
# Lists of tests that run in parallel

`ParallelTester.createJstestsLists` of `jstests/libs/parallelTester.js`, on the tree of files under
`jstests/core`. `listFiles` lists a directory in some order; the outcomes of `Array.shuffle` are the
environment's.

* `Name`, `Forest`, `Directory`; `getFilesRecursive`, `createJstestsLists`.
* `Forest.paths`: the files by their components; `fullName_injective`, `nodup_paths`.
* `Added`, `skips_eq`; `exists_addFiles`, `exists_lists`: what the lists contain.
* `added_iff_of_length`: what becomes of the tests of transactions.
* **`partitions_iff`**: when the lists are a partition.
-/

namespace MongoTests.Suites.Parallel

open MongoTests.Lib

/-! ## Files -/

section Model

/-- What `.` does not match. -/
def isLineTerminator (c : Char) : Bool :=
  c = '\n' || c = '\r' || c = '\u2028' || c = '\u2029'

/-- A name in a directory. -/
def IsName (s : String) : Prop :=
  s ≠ "" ∧ ∀ c ∈ s.toList, c ≠ '/' ∧ c ≠ '\\' ∧ isLineTerminator c = false

instance (s : String) : Decidable (IsName s) :=
  @instDecidableAnd _ _ inferInstance (List.decidableBAll _ s.toList)

abbrev Name := {s : String // IsName s}

/-- The entries of a directory, in the order in which they are listed. -/
inductive Forest
  | nil
  | file (name : Name) (rest : Forest)
  | directory (name : Name) (children rest : Forest)

namespace Forest

def names : Forest → List Name
  | nil => []
  | file name rest => name :: rest.names
  | directory name _ rest => name :: rest.names

/-- No two entries of a directory have the same name. -/
def Distinct : Forest → Prop
  | nil => True
  | file name rest => name ∉ rest.names ∧ rest.Distinct
  | directory name children rest => name ∉ rest.names ∧ children.Distinct ∧ rest.Distinct

/-- The entries of a subdirectory. -/
def listFiles (dir : String) : Forest → Option Forest
  | nil => none
  | file _ rest => rest.listFiles dir
  | directory name children rest => if name.val = dir then some children else rest.listFiles dir

end Forest

structure Directory where
  entries : Forest
  distinct : entries.Distinct

structure File where
  name : String
  baseName : String
  deriving DecidableEq, Repr

def getFilesRecursive (dir : String) : Forest → List File
  | .nil => []
  | .file name rest => ⟨dir ++ "/" ++ name.val, name.val⟩ :: getFilesRecursive dir rest
  | .directory name children rest =>
    getFilesRecursive (dir ++ "/" ++ name.val) children ++ getFilesRecursive dir rest

/-! ## The tests that are left out -/

def parallelFilesDir : String := "jstests/core"

/-- `skipTests`; the last ones are for the `legacy` read mode. -/
def skipTests (legacy : Bool) : List String :=
  ["indexb.js", "index_bigkeys_nofail.js", "index_bigkeys_validation.js", "mr3.js", "evald.js",
    "run_program1.js", "notablescan.js", "bench_test1.js", "dropdb_race.js",
    "bulk_legacy_enforce_gle.js", "comment_field.js", "getlog2.js", "logprocessdetails.js",
    "queryoptimizera.js", "connections_opened.js", "opcounters_write_cmd.js", "set_param1.js",
    "geo_update_btree2.js", "update_setOnInsert.js", "max_time_ms.js", "autocomplete.js", "type6.js",
    "kill_cursors.js", "background_validation.js", "views/invalid_system_views.js",
    "views/views_all_commands.js", "views/view_with_invalid_dbname.js", "restart_catalog.js",
    "long_collection_names.js", "crud_ops_do_not_throw_locktimeout.js"] ++
  if legacy then
    ["update_pipeline_shell_helpers.js", "update_with_pipeline.js", "views/views_aggregation.js",
      "views/views_change.js", "views/views_drop.js", "views/views_find.js",
      "wildcard_index_collation.js"]
  else []

def serialTestsArr : List String :=
  ["/fsync.js", "/currentop.js", "/killop_drop_collection.js", "/apitest_db_profile_level.js",
    "/geo_s2cursorlimitskip.js", "/profile1.js", "/profile2.js", "/profile3.js", "/profile_agg.js",
    "/profile_count.js", "/profile_delete.js", "/profile_distinct.js", "/profile_find.js",
    "/profile_findandmodify.js", "/profile_getmore.js", "/profile_insert.js",
    "/profile_list_collections.js", "/profile_list_indexes.js", "/profile_mapreduce.js",
    "/profile_no_such_db.js", "/profile_query_hash.js", "/profile_sampling.js", "/profile_update.js",
    "/compact_keeps_indexes.js", "/awaitdata_getmore_cmd.js", "/list_all_local_sessions.js",
    "/list_all_sessions.js", "/list_local_sessions.js", "/list_sessions.js"].map
      (parallelFilesDir ++ ·)

inductive ListsError
  | noSuchDirectory
  /-- `null[1]` -/
  | noMatch
  deriving DecidableEq, Repr

/-- `/[\/\\]_/` -/
def underscoreTest : List Char → Bool
  | c :: d :: l => (c = '/' || c = '\\') && d = '_' || underscoreTest (d :: l)
  | _ => false

/-- `/\.js$/` -/
def jsTest (name : String) : Bool := ".js".toList.isSuffixOf name.toList

/-- `(.*.js)`, as much as it can match of a line that is given from its end. -/
def greedyJs : List Char → Option (List Char)
  | 's' :: 'j' :: c :: l => some (l.reverse ++ [c, 'j', 's'])
  | _ :: l => greedyJs l
  | [] => none

/-- `match(parallelFilesDir + "/(.*\.js)")[1]`. The backslash is gone from the pattern. -/
def matchParallelFile : List Char → Option (List Char)
  | [] => none
  | c :: l =>
    (if (parallelFilesDir ++ "/").toList.isPrefixOf (c :: l) then
      greedyJs (((c :: l).drop 13).takeWhile (!isLineTerminator ·)).reverse
    else none).or (matchParallelFile l)

/-- Whether a file is left out. -/
def skips (skip : List String) (x : File) : Except ListsError Bool :=
  if underscoreTest x.name.toList || !jsTest x.name then .ok true
  else
    match matchParallelFile x.name.toList with
    | some group => .ok (decide (String.ofList group ∈ skip) || decide (x.name ∈ serialTestsArr))
    | none => .error .noMatch

/-- The loop over the files; `i` counts those that were added. -/
def addFiles (skip : List String) (n : ℕ) :
    List (List String) → ℕ → List File → Except ListsError (List (List String))
  | params, _, [] => .ok params
  | params, i, x :: files => do
    if ← skips skip x then addFiles skip n params i files
    else addFiles skip n (params.modify (i % n) (· ++ [x.name])) (i + 1) files

def createJstestsLists (core : Directory) (legacy : Bool) (fileShuffler : Shuffler File)
    (testShuffler : Shuffler String) (n : ℕ) : Except ListsError (List (List String)) :=
  match core.entries.listFiles "txns" with
  | none => .error .noSuchDirectory
  | some txns => do
    let txnsTestFiles :=
      (getFilesRecursive (parallelFilesDir ++ "/txns") txns).map ("txns/" ++ File.baseName ·)
    let params := (List.replicate n []).set 0 serialTestsArr
    let files := fileShuffler.shuffle 0 (getFilesRecursive parallelFilesDir core.entries)
    let params ← addFiles (skipTests legacy ++ txnsTestFiles) n params 0 files
    let params := params.modify 0 (testShuffler.shuffle 0)
    pure (params.mapIdx fun i tests => toString i :: tests)

end Model

/-! ## Paths -/

section Paths

/-- The components of the files below a directory. -/
def Forest.paths : Forest → List (List Name)
  | .nil => []
  | .file name rest => [name] :: rest.paths
  | .directory name children rest => children.paths.map (name :: ·) ++ rest.paths

def pathText (p : List Name) : List Char := p.flatMap fun name => '/' :: name.val.toList

def fullName (p : List Name) : String := parallelFilesDir ++ String.ofList (pathText p)

/-- The path relative to `jstests/core`. -/
def relativeName (p : List Name) : String := String.ofList (pathText p).tail

def baseName (p : List Name) : String := (p.getLast?.map Subtype.val).getD ""

variable {p q : List Name} {f : Forest} {name : Name}

theorem pathText_cons : pathText (name :: p) = '/' :: (name.val.toList ++ pathText p) := by
  rw [pathText, List.flatMap_cons, List.cons_append]
  rfl

theorem takeWhile_name (name : Name) (p : List Name) :
    (name.val.toList ++ pathText p).takeWhile (· ≠ '/') = name.val.toList := by
  have hname : ∀ c ∈ name.val.toList, decide (c ≠ '/') = true := fun c hc =>
    decide_eq_true (name.property.2 c hc).1
  rw [List.takeWhile_append_of_pos hname]
  cases p with
  | nil => exact List.append_nil _
  | cons name' p =>
    rw [pathText_cons, List.takeWhile_cons_of_neg (by simp), List.append_nil]

/-- The components can be read off a path. -/
theorem pathText_injective (h : pathText p = pathText q) : p = q := by
  induction p generalizing q with
  | nil =>
    cases q with
    | nil => rfl
    | cons name q => cases h
  | cons name p ih =>
    cases q with
    | nil => cases h
    | cons name' q =>
      rw [pathText_cons, pathText_cons] at h
      have htail := (List.cons.inj h).2
      have hname : name.val.toList = name'.val.toList := by
        rw [← takeWhile_name name p, htail, takeWhile_name]
      rw [hname] at htail
      rw [Subtype.ext (String.toList_injective hname), ih (List.append_cancel_left htail)]

theorem fullName_injective (h : fullName p = fullName q) : p = q := by
  refine pathText_injective ?_
  have htext := congrArg String.toList h
  simpa only [fullName, String.toList_append, String.toList_ofList, List.append_cancel_left_eq]
    using htext

theorem ne_nil_of_mem_paths (h : p ∈ f.paths) : p ≠ [] := by
  induction f with
  | nil => cases h
  | file name rest ih =>
    rcases List.mem_cons.mp h with rfl | h
    · exact List.cons_ne_nil _ _
    · exact ih h
  | directory name children rest _ ih =>
    rcases List.mem_append.mp h with h | h
    · obtain ⟨q, -, rfl⟩ := List.mem_map.mp h
      exact List.cons_ne_nil _ _
    · exact ih h

theorem exists_head_of_mem_paths (h : p ∈ f.paths) : ∃ name ∈ f.names, ∃ q, p = name :: q := by
  induction f with
  | nil => cases h
  | file name rest ih =>
    rcases List.mem_cons.mp h with rfl | h
    · exact ⟨name, List.mem_cons_self, [], rfl⟩
    · exact (ih h).imp fun _ h => ⟨List.mem_cons_of_mem _ h.1, h.2⟩
  | directory name children rest _ ih =>
    rcases List.mem_append.mp h with h | h
    · obtain ⟨q, -, rfl⟩ := List.mem_map.mp h
      exact ⟨name, List.mem_cons_self, q, rfl⟩
    · exact (ih h).imp fun _ h => ⟨List.mem_cons_of_mem _ h.1, h.2⟩

theorem nodup_paths (h : f.Distinct) : f.paths.Nodup := by
  induction f with
  | nil => exact List.nodup_nil
  | file name rest ih =>
    refine List.nodup_cons.mpr ⟨fun hmem => ?_, ih h.2⟩
    obtain ⟨name', hname', q, heq⟩ := exists_head_of_mem_paths hmem
    exact h.1 ((List.cons.inj heq).1 ▸ hname')
  | directory name children rest ihc ih =>
    refine ((ihc h.2.1).map (List.cons_injective)).append (ih h.2.2) fun p hp hp' => ?_
    obtain ⟨q, -, rfl⟩ := List.mem_map.mp hp
    obtain ⟨name', hname', q', heq⟩ := exists_head_of_mem_paths hp'
    exact h.1 ((List.cons.inj heq).1 ▸ hname')

theorem getFilesRecursive_eq (dir : String) :
    getFilesRecursive dir f =
      f.paths.map fun p => ⟨dir ++ String.ofList (pathText p), baseName p⟩ := by
  induction f generalizing dir with
  | nil => rfl
  | file name rest ih =>
    rw [getFilesRecursive, ih, Forest.paths, List.map_cons]
    congr 2
    refine String.toList_injective ?_
    simp [pathText]
  | directory name children rest ihc ih =>
    rw [getFilesRecursive, ihc, ih, Forest.paths, List.map_append, List.map_map]
    congr 1
    refine List.map_congr_left fun p hp => ?_
    have hbase : baseName (name :: p) = baseName p := by
      rw [baseName, List.getLast?_cons_of_ne_nil (ne_nil_of_mem_paths hp), baseName]
    rw [Function.comp_apply, hbase]
    congr 1
    refine String.toList_injective ?_
    simp [pathText_cons]

end Paths

/-! ## What is left out -/

section Skips

variable {p : List Name} {skip : List String}

/-- A component that hides the file. -/
def Hidden (p : List Name) : Prop := ∃ name ∈ p, name.val.toList.head? = some '_'

def JsFile (p : List Name) : Prop := ".js".toList <:+ (baseName p).toList

theorem underscoreTest_cons (c : Char) (l : List Char) :
    underscoreTest (c :: l) =
      ((c = '/' || c = '\\') && decide (l.head? = some '_') || underscoreTest l) := by
  cases l with
  | nil => simp [underscoreTest]
  | cons d l =>
    rw [underscoreTest, List.head?_cons]
    simp

/-- Characters that are not separators do not count. -/
theorem underscoreTest_append {s : List Char} (h : ∀ c ∈ s, c ≠ '/' ∧ c ≠ '\\') (l : List Char) :
    underscoreTest (s ++ l) = underscoreTest l := by
  induction s with
  | nil => rfl
  | cons c s ih =>
    obtain ⟨⟨hc, hc'⟩, hs⟩ := List.forall_mem_cons.mp h
    rw [List.cons_append, underscoreTest_cons, ih hs]
    simp [hc, hc']

theorem underscoreTest_pathText : underscoreTest (pathText p) = true ↔ Hidden p := by
  induction p with
  | nil => simp [pathText, underscoreTest, Hidden]
  | cons name p ih =>
    have hname : ∀ c ∈ name.val.toList, c ≠ '/' ∧ c ≠ '\\' := fun c hc =>
      ⟨(name.property.2 c hc).1, (name.property.2 c hc).2.1⟩
    have hne : name.val.toList ≠ [] := fun hnil =>
      name.property.1 (String.toList_injective hnil)
    have hhead : (name.val.toList ++ pathText p).head? = name.val.toList.head? := by
      rw [List.head?_append_of_ne_nil _ hne]
    rw [pathText_cons, underscoreTest_cons, underscoreTest_append hname, hhead, Hidden,
      List.exists_mem_cons_iff, ← Hidden, ← ih]
    simp

theorem underscoreTest_fullName : underscoreTest (fullName p).toList = true ↔ Hidden p := by
  rw [fullName, String.toList_append, String.toList_ofList, ← underscoreTest_pathText]
  have hdir : parallelFilesDir.toList = "jstests".toList ++ '/' :: "core".toList := by
    simp [parallelFilesDir]
  have hjstests : ∀ c ∈ "jstests".toList, c ≠ '/' ∧ c ≠ '\\' := by simp
  have hcore : ∀ c ∈ "core".toList, c ≠ '/' ∧ c ≠ '\\' := by simp
  rw [hdir, List.append_assoc, underscoreTest_append hjstests, List.cons_append,
    underscoreTest_cons, underscoreTest_append hcore]
  simp

/-- The text of a path that is not empty ends with the base name. -/
theorem exists_pathText_eq (h : p ≠ []) : ∃ pre, pathText p = pre ++ '/' :: (baseName p).toList := by
  obtain ⟨q, name, rfl⟩ := List.eq_nil_or_concat p |>.resolve_left h
  refine ⟨pathText q, ?_⟩
  rw [pathText, List.concat_eq_append, List.flatMap_append]
  simp [baseName, pathText]

theorem jsTest_fullName (h : p ≠ []) : jsTest (fullName p) = true ↔ JsFile p := by
  obtain ⟨pre, hpre⟩ := exists_pathText_eq h
  have hfull : (fullName p).toList =
      (parallelFilesDir.toList ++ pre) ++ '/' :: (baseName p).toList := by
    rw [fullName, String.toList_append, String.toList_ofList, hpre, List.append_assoc]
  rw [jsTest, List.isSuffixOf_iff_suffix, hfull, JsFile]
  constructor
  · intro hsuffix
    have hbase : '/' :: (baseName p).toList <:+
        (parallelFilesDir.toList ++ pre) ++ '/' :: (baseName p).toList := List.suffix_append _ _
    rcases List.suffix_or_suffix_of_suffix hsuffix hbase with h | h
    · rcases List.suffix_cons_iff.mp h with h | h
      · cases h
      · exact h
    · exact absurd (h.subset List.mem_cons_self) (by decide)
  · exact fun hsuffix => (hsuffix.trans (List.suffix_cons _ _)).trans (List.suffix_append _ _)

theorem notLineTerminator (p : List Name) : ∀ c ∈ pathText p, isLineTerminator c = false := by
  intro c hc
  obtain ⟨name, -, hc⟩ := List.mem_flatMap.mp hc
  rcases List.mem_cons.mp hc with rfl | hc
  · decide
  · exact (name.property.2 c hc).2.2

/-- The match is the relative path. -/
theorem matchParallelFile_fullName (h : p ≠ []) (hjs : JsFile p) :
    matchParallelFile (fullName p).toList = some (pathText p).tail := by
  obtain ⟨name, q, rfl⟩ := List.exists_cons_of_ne_nil h
  have hsuffix : ".js".toList <:+ (pathText (name :: q)).tail := by
    obtain ⟨pre, hpre⟩ := exists_pathText_eq h
    rw [hpre]
    cases pre with
    | nil => exact hjs
    | cons c pre => exact (hjs.trans (List.suffix_cons _ _)).trans (List.suffix_append _ _)
  obtain ⟨s, hs⟩ := hsuffix
  have hline : ((pathText (name :: q)).tail.takeWhile (!isLineTerminator ·)) =
      (pathText (name :: q)).tail := by
    refine List.takeWhile_eq_self_iff.mpr fun c hc => ?_
    rw [notLineTerminator _ c (List.mem_of_mem_tail hc)]
    rfl
  have hfull : (fullName (name :: q)).toList =
      (parallelFilesDir ++ "/").toList ++ (pathText (name :: q)).tail := by
    rw [fullName, String.toList_append, String.toList_ofList, pathText_cons, List.tail_cons]
    simp [parallelFilesDir]
  have hgreedy : greedyJs ((pathText (name :: q)).tail).reverse = some (pathText (name :: q)).tail := by
    have hrev : (pathText (name :: q)).tail.reverse = 's' :: 'j' :: '.' :: s.reverse := by
      rw [← hs, List.reverse_append]
      rfl
    rw [hrev, greedyJs, List.reverse_reverse, ← hs]
    rfl
  obtain ⟨c, l, hcons⟩ := List.exists_cons_of_ne_nil (l := (fullName (name :: q)).toList) (by
    rw [hfull]
    simp)
  have hprefix : (parallelFilesDir ++ "/").toList.isPrefixOf (fullName (name :: q)).toList = true := by
    rw [List.isPrefixOf_iff_prefix, hfull]
    exact List.prefix_append _ _
  have hdrop : (fullName (name :: q)).toList.drop 13 = (pathText (name :: q)).tail := by
    rw [hfull, List.drop_append_of_le_length (by decide)]
    rfl
  rw [hcons] at hprefix hdrop ⊢
  rw [matchParallelFile, if_pos hprefix, hdrop, hline, hgreedy, Option.some_or]

/-- The file is added to a list. -/
structure Added (skip : List String) (p : List Name) : Prop where
  js : JsFile p
  notHidden : ¬ Hidden p
  notSkipped : relativeName p ∉ skip
  notSerial : fullName p ∉ serialTestsArr

theorem skips_eq (skip : List String) (h : p ≠ []) (base : String) :
    ∃ b, skips skip ⟨fullName p, base⟩ = .ok b ∧ (b = false ↔ Added skip p) := by
  rw [skips]
  by_cases hleft : Hidden p ∨ ¬ JsFile p
  · refine ⟨true, if_pos ?_, iff_of_false (by decide) fun hadded => ?_⟩
    · rw [Bool.or_eq_true, underscoreTest_fullName, Bool.not_eq_true', ← Bool.not_eq_true,
        jsTest_fullName h]
      exact hleft
    · exact hleft.elim hadded.notHidden fun hjs => hjs hadded.js
  · obtain ⟨hhidden, hjs⟩ := not_or.mp hleft
    have hjs := not_not.mp hjs
    rw [if_neg, matchParallelFile_fullName h hjs]
    · refine ⟨_, rfl, ?_⟩
      rw [Bool.or_eq_false_iff, decide_eq_false_iff_not, decide_eq_false_iff_not]
      exact ⟨fun h => ⟨hjs, hhidden, h.1, h.2⟩, fun h => ⟨h.notSkipped, h.notSerial⟩⟩
    · rw [Bool.or_eq_true, underscoreTest_fullName, Bool.not_eq_true', ← Bool.not_eq_true,
        jsTest_fullName h]
      exact hleft

end Skips

/-! ## The loop -/

section Loop

variable {core : Directory} {legacy : Bool} {skip : List String} {n i : ℕ}
  {params : List (List String)} {p : List Name} {x : String}

def toFile (p : List Name) : File := ⟨fullName p, baseName p⟩

variable (skip n i params) in
/-- The files that are added, in order. -/
theorem exists_addFiles {files : List File} (hfiles : ∀ x ∈ files, ∃ p, p ≠ [] ∧ x = toFile p) :
    ∃ added : List String, addFiles skip n params i files = .ok (deal n params i added) ∧
      added.Sublist (files.map File.name) ∧
      ∀ x, x ∈ added ↔ ∃ p, toFile p ∈ files ∧ Added skip p ∧ fullName p = x := by
  induction files generalizing params i with
  | nil => exact ⟨[], rfl, .slnil, by simp⟩
  | cons file files ih =>
    obtain ⟨⟨p, hp, rfl⟩, hrest⟩ := List.forall_mem_cons.mp hfiles
    obtain ⟨b, hb, hiff⟩ := skips_eq skip hp (baseName p)
    have hmem : ∀ q, toFile q ∈ toFile p :: files ↔ q = p ∨ toFile q ∈ files := fun q => by
      rw [List.mem_cons]
      refine or_congr_left ⟨fun heq => fullName_injective (congrArg File.name heq), ?_⟩
      rintro rfl
      rfl
    cases b with
    | true =>
      obtain ⟨added, hr, hsub, hadded⟩ := ih i params hrest
      refine ⟨added, ?_, hsub.cons _, fun x => (hadded x).trans ?_⟩
      · rw [addFiles, toFile, hb, ← hr]
        rfl
      · refine exists_congr fun q => and_congr_left fun hq => ?_
        rw [hmem, or_iff_right]
        rintro rfl
        exact absurd (hiff.mpr hq.1) (by decide)
    | false =>
      obtain ⟨added, hr, hsub, hadded⟩ := ih (i + 1)
        (params.modify (i % n) (· ++ [fullName p])) hrest
      refine ⟨fullName p :: added, ?_, hsub.cons_cons _, fun x => ?_⟩
      · rw [addFiles, toFile, hb, deal, ← hr]
        rfl
      · rw [List.mem_cons, hadded]
        simp only [hmem, or_and_right, exists_or, exists_eq_left]
        refine or_congr_left ⟨?_, fun h => h.2.symm⟩
        rintro rfl
        exact ⟨hiff.mp rfl, rfl⟩

/-- The tests of list `j`, without its number. -/
def testsOf (lists : List (List String)) (j : ℕ) : List String := (lists[j]?.getD []).tail

/-- The keys of the files below `txns`. -/
def txnsTestFiles (txns : Forest) : List String := txns.paths.map ("txns/" ++ baseName ·)

/-- The keys as the code collects them. -/
theorem map_baseName_getFilesRecursive (dir : String) (txns : Forest) :
    (getFilesRecursive dir txns).map ("txns/" ++ File.baseName ·) = txnsTestFiles txns := by
  rw [getFilesRecursive_eq, List.map_map]
  rfl

variable (legacy n) in
/-- **The lists**: the serial tests are in the first one, and the other tests are dealt out. -/
theorem exists_lists (fileShuffler : Shuffler File) (testShuffler : Shuffler String)
    {txns : Forest} (htxns : core.entries.listFiles "txns" = some txns) :
    ∃ lists added, createJstestsLists core legacy fileShuffler testShuffler n = .ok lists ∧
      lists.length = n ∧
      (∀ j < n, (testsOf lists j).Perm ((if j = 0 then serialTestsArr else []) ++ share n j 0 added)) ∧
      added.Nodup ∧
      ∀ x, x ∈ added ↔ ∃ p ∈ core.entries.paths,
        Added (skipTests legacy ++ txnsTestFiles txns) p ∧ fullName p = x := by
  have hall : getFilesRecursive parallelFilesDir core.entries = core.entries.paths.map toFile :=
    getFilesRecursive_eq _
  have hperm := fileShuffler.perm 0 (getFilesRecursive parallelFilesDir core.entries)
  rw [hall] at hperm
  have hmem : ∀ p, toFile p ∈ fileShuffler.shuffle 0 (core.entries.paths.map toFile) ↔
      p ∈ core.entries.paths := fun p => by
    rw [hperm.mem_iff]
    refine List.mem_map_of_injective fun p q heq => fullName_injective (congrArg File.name heq)
  have hfiles : ∀ x ∈ fileShuffler.shuffle 0 (core.entries.paths.map toFile),
      ∃ p, p ≠ [] ∧ x = toFile p := by
    intro x hx
    obtain ⟨p, hp, rfl⟩ := List.mem_map.mp (hperm.mem_iff.mp hx)
    exact ⟨p, ne_nil_of_mem_paths hp, rfl⟩
  obtain ⟨added, hr, hsub, hadded⟩ := exists_addFiles (skipTests legacy ++ txnsTestFiles txns) n
    0 ((List.replicate n []).set 0 serialTestsArr) hfiles
  refine ⟨((deal n ((List.replicate n []).set 0 serialTestsArr) 0 added).modify 0
    (testShuffler.shuffle 0)).mapIdx fun i tests => toString i :: tests, added, ?_, ?_,
    fun j hj => ?_, ?_, fun x => ?_⟩
  · rw [createJstestsLists, htxns]
    simp only [map_baseName_getFilesRecursive, hall, hr]
    rfl
  · rw [List.length_mapIdx, List.length_modify, length_deal, List.length_set, List.length_replicate]
  · rw [testsOf, List.getElem?_mapIdx, List.getElem?_modify, getElem?_deal]
    by_cases hzero : j = 0
    · subst hzero
      have hget : ((List.replicate n ([] : List String)).set 0 serialTestsArr)[0]? =
          some serialTestsArr := by
        rw [List.getElem?_set_self (by simpa using hj)]
      rw [hget]
      exact testShuffler.perm 0 _
    · have hget : ((List.replicate n ([] : List String)).set 0 serialTestsArr)[j]? = some [] := by
        rw [List.getElem?_set_ne (Ne.symm hzero), List.getElem?_replicate_of_lt hj]
      rw [hget]
      simp [hzero, Ne.symm hzero]
  · refine List.Nodup.sublist hsub ?_
    have hnames := (hperm.map File.name).nodup_iff
    rw [hnames, List.map_map]
    exact (nodup_paths core.distinct).map fun p q heq => fullName_injective heq
  · simp only [hadded, hmem]

end Loop

/-! ## Tests of transactions -/

section Txns

variable {legacy : Bool} {f txns : Forest} {p q : List Name} {name : Name}

/-- The file is in `jstests/core/txns`, at any depth. -/
def BelowTxns (p : List Name) : Prop := ∃ name q, p = name :: q ∧ name.val = "txns" ∧ q ≠ []

def txnsName : Name := ⟨"txns", by decide⟩

theorem BelowTxns.exists_tail (h : BelowTxns p) : ∃ q, q ≠ [] ∧ p = txnsName :: q := by
  obtain ⟨name, q, rfl, hname, hq⟩ := h
  exact ⟨q, hq, congrArg (· :: q) (Subtype.ext hname)⟩

theorem mem_paths_of_listFiles (hdistinct : f.Distinct)
    (htxns : f.listFiles name.val = some txns) (hq : q ≠ []) (h : name :: q ∈ f.paths) :
    q ∈ txns.paths := by
  induction f with
  | nil => cases h
  | file name' rest ih =>
    refine ih hdistinct.2 htxns ((List.mem_cons.mp h).resolve_left fun heq => ?_)
    exact hq (List.cons.inj heq).2
  | directory name' children rest _ ih =>
    rw [Forest.listFiles] at htxns
    rcases List.mem_append.mp h with h | h
    · obtain ⟨q', hq', heq⟩ := List.mem_map.mp h
      cases heq
      rw [if_pos rfl] at htxns
      cases htxns
      exact hq'
    · obtain ⟨name'', hname'', _, heq⟩ := exists_head_of_mem_paths h
      cases heq
      have hne : name'.val ≠ name.val := fun hval =>
        hdistinct.1 (Subtype.ext hval ▸ hname'')
      rw [if_neg hne] at htxns
      exact ih hdistinct.2.2 htxns h

theorem relativeName_injective (hp : p ≠ []) (hq : q ≠ [])
    (h : relativeName p = relativeName q) : p = q := by
  obtain ⟨name, p, rfl⟩ := List.exists_cons_of_ne_nil hp
  obtain ⟨name', q, rfl⟩ := List.exists_cons_of_ne_nil hq
  have htail := String.ofList_injective h
  rw [pathText_cons, pathText_cons, List.tail_cons, List.tail_cons] at htail
  refine pathText_injective ?_
  rw [pathText_cons, pathText_cons, htail]

/-- A key of `txnsTestFiles` is the relative path of a file in `txns` itself. -/
theorem txns_baseName (hq : q ≠ []) :
    ∃ last ∈ q.getLast?, "txns/" ++ baseName q = relativeName [txnsName, last] := by
  obtain ⟨last, hlast⟩ : ∃ last, q.getLast? = some last := ⟨_, List.getLast?_eq_some_getLast hq⟩
  refine ⟨last, hlast, String.toList_injective ?_⟩
  rw [baseName, hlast]
  simp [relativeName, pathText, txnsName]

theorem mem_txnsTestFiles {s : String} :
    s ∈ txnsTestFiles txns ↔
      ∃ q ∈ txns.paths, ∃ last ∈ q.getLast?, s = relativeName [txnsName, last] := by
  rw [txnsTestFiles, List.mem_map]
  refine exists_congr fun q => and_congr_right fun hq => ?_
  obtain ⟨last, hlast, heq⟩ := txns_baseName (ne_nil_of_mem_paths hq)
  constructor
  · rintro rfl
    exact ⟨last, hlast, heq⟩
  · rintro ⟨last', hlast', rfl⟩
    rw [heq, Option.some.inj (hlast.symm.trans hlast')]

theorem exists_relativeName_eq (hq : q ≠ []) :
    ∃ s, relativeName (txnsName :: q) = "txns/" ++ s ∧
      fullName (txnsName :: q) = "jstests/core/txns/" ++ s := by
  obtain ⟨name, q, rfl⟩ := List.exists_cons_of_ne_nil hq
  refine ⟨name.val ++ String.ofList (pathText q), String.toList_injective ?_,
    String.toList_injective ?_⟩
  · simp [relativeName, pathText_cons, txnsName]
  · simp [fullName, pathText_cons, txnsName, parallelFilesDir]

/-- The characters of a literal are those it is made of: they are not decoded. -/
theorem not_prefix_ofList {pre cs : List Char} (h : pre.isPrefixOf cs = false) :
    ¬ pre <+: (String.ofList cs).toList := by
  rw [String.toList_ofList, ← List.isPrefixOf_iff_prefix, h]
  exact Bool.false_ne_true

theorem skipTests_not_txns :
    ∀ s ∈ skipTests legacy, ¬ "txns/".toList <+: s.toList := by
  cases legacy <;>
    repeat first
      | exact List.forall_mem_nil _
      | refine List.forall_mem_cons.mpr ⟨not_prefix_ofList rfl, ?_⟩

theorem serialTestsArr_not_txns :
    ∀ s ∈ serialTestsArr, ¬ "jstests/core/txns/".toList <+: s.toList := by
  intro s hs
  obtain ⟨t, ht, rfl⟩ := List.mem_map.mp hs
  have hdir : "jstests/core/txns/".toList = parallelFilesDir.toList ++ "/txns/".toList := rfl
  rw [hdir, String.toList_append, List.prefix_append_right_inj]
  clear hs
  revert t
  repeat first
    | exact List.forall_mem_nil _
    | refine List.forall_mem_cons.mpr ⟨not_prefix_ofList rfl, ?_⟩

theorem nodup_serialTestsArr : serialTestsArr.Nodup :=
  List.Nodup.map (fun _ _ h => (String.append_right_inj parallelFilesDir).mp h) (by simp)

theorem not_serial_of_belowTxns (hbelow : BelowTxns p) : fullName p ∉ serialTestsArr := by
  intro hmem
  obtain ⟨q, hq, rfl⟩ := hbelow.exists_tail
  obtain ⟨s, -, hs⟩ := exists_relativeName_eq hq
  refine serialTestsArr_not_txns _ hmem ?_
  rw [hs, String.toList_append]
  exact List.prefix_append _ _

/-- Files in `txns` itself are left out. -/
theorem not_added_of_length (hdistinct : f.Distinct) (htxns : f.listFiles "txns" = some txns)
    (hp : p ∈ f.paths) (hbelow : BelowTxns p) (hlen : p.length < 3) :
    ¬ Added (skipTests legacy ++ txnsTestFiles txns) p := by
  obtain ⟨q, hq, rfl⟩ := hbelow.exists_tail
  have hmem : q ∈ txns.paths := mem_paths_of_listFiles hdistinct htxns hq hp
  obtain ⟨last, q', rfl⟩ := List.exists_cons_of_ne_nil hq
  have hq' : q' = [] := by
    rw [List.length_cons, List.length_cons] at hlen
    exact List.eq_nil_of_length_eq_zero (by omega)
  subst hq'
  exact fun hadded => hadded.notSkipped (List.mem_append_right _
    (mem_txnsTestFiles.mpr ⟨_, hmem, last, rfl, rfl⟩))

/-- **Files in the subdirectories of `txns` are not**: their keys are those of files that do not
exist. -/
theorem added_iff_of_length (hbelow : BelowTxns p) (hlen : 3 ≤ p.length) :
    Added (skipTests legacy ++ txnsTestFiles txns) p ↔ JsFile p ∧ ¬ Hidden p := by
  refine ⟨fun h => ⟨h.js, h.notHidden⟩, fun h => ⟨h.1, h.2, fun hmem => ?_, fun hmem => ?_⟩⟩
  · rcases List.mem_append.mp hmem with hmem | hmem
    · obtain ⟨q, hq, rfl⟩ := hbelow.exists_tail
      obtain ⟨s, hs, -⟩ := exists_relativeName_eq hq
      refine skipTests_not_txns _ hmem ?_
      rw [hs, String.toList_append]
      exact List.prefix_append _ _
    · obtain ⟨q, -, last, -, heq⟩ := mem_txnsTestFiles.mp hmem
      have hp : p ≠ [] := by
        rintro rfl
        exact absurd hlen (by decide)
      rw [relativeName_injective hp (List.cons_ne_nil _ _) heq] at hlen
      exact absurd hlen (by simp)
  · exact not_serial_of_belowTxns hbelow hmem

end Txns

/-! ## Partitions -/

section Partitions

variable {core : Directory} {legacy : Bool} {n : ℕ} {lists : List (List String)} {p : List Name}

/-- A file that the lists are to contain. -/
structure Required (legacy : Bool) (p : List Name) : Prop where
  js : JsFile p
  notHidden : ¬ Hidden p
  notSkipped : relativeName p ∉ skipTests legacy
  notSerial : fullName p ∉ serialTestsArr
  notTxns : ¬ BelowTxns p

/-- The tests of list `j` that can run in parallel with others. -/
def nonSerial (lists : List (List String)) (j : ℕ) : List String :=
  (testsOf lists j).filter fun x => x ∉ serialTestsArr

/-- What the lists are for. -/
structure Partitions (core : Directory) (legacy : Bool) (n : ℕ) (lists : List (List String)) :
    Prop where
  length_eq : lists.length = n
  required : ∀ p ∈ core.entries.paths, Required legacy p →
    ∃ j < n, (testsOf lists j).count (fullName p) = 1 ∧
      ∀ j', j' ≠ j → fullName p ∉ testsOf lists j'
  serial : ∀ s ∈ serialTestsArr, (testsOf lists 0).count s = 1 ∧
    ∀ j, j ≠ 0 → s ∉ testsOf lists j
  txns : ∀ p ∈ core.entries.paths, BelowTxns p → ∀ j, fullName p ∉ testsOf lists j
  sizes : ∀ j < n, ∀ j' < n, (nonSerial lists j).length ≤ (nonSerial lists j').length + 1

variable (core) in
/-- There are transaction tests, and those in subdirectories are hidden. -/
def TxnsSkipped : Prop :=
  (core.entries.listFiles "txns").isSome ∧
    ∀ p ∈ core.entries.paths, BelowTxns p → 3 ≤ p.length → JsFile p → Hidden p

theorem Required.added {txns : Forest} (h : Required legacy p) (hp : p ≠ []) :
    Added (skipTests legacy ++ txnsTestFiles txns) p := by
  refine ⟨h.js, h.notHidden, fun hmem => ?_, h.notSerial⟩
  rcases List.mem_append.mp hmem with hmem | hmem
  · exact h.notSkipped hmem
  · obtain ⟨q, -, last, -, heq⟩ := mem_txnsTestFiles.mp hmem
    exact h.notTxns ⟨txnsName, [last], relativeName_injective hp (List.cons_ne_nil _ _) heq, rfl,
      List.cons_ne_nil _ _⟩

theorem testsOf_of_le {j : ℕ} (h : lists.length ≤ j) : testsOf lists j = [] := by
  rw [testsOf, List.getElem?_eq_none h]
  rfl

/-- The lists are a partition when the right tests are dealt out. -/
theorem partitions_of_dealt {added : List String} (hn : 0 < n) (hlen : lists.length = n)
    (hperm : ∀ j < n, (testsOf lists j).Perm
      ((if j = 0 then serialTestsArr else []) ++ share n j 0 added))
    (hnodup : added.Nodup) (hserial : ∀ x ∈ added, x ∉ serialTestsArr)
    (hrequired : ∀ p ∈ core.entries.paths, Required legacy p → fullName p ∈ added)
    (htxns : ∀ p ∈ core.entries.paths, BelowTxns p → fullName p ∉ added) :
    Partitions core legacy n lists := by
  have hmem : ∀ j x, x ∈ testsOf lists j → j = 0 ∧ x ∈ serialTestsArr ∨ x ∈ share n j 0 added := by
    intro j x hx
    by_cases hj : j < n
    · rw [(hperm j hj).mem_iff] at hx
      refine (List.mem_append.mp hx).imp_left fun hx => ?_
      split_ifs at hx with hzero
      · exact ⟨hzero, hx⟩
      · cases hx
    · rw [testsOf_of_le (by omega)] at hx
      cases hx
  have hshare : ∀ j, ∀ x ∈ share n j 0 added, x ∈ added := fun j x hx => share_sublist.subset hx
  refine ⟨hlen, fun p hp hreq => ?_, fun s hs => ⟨?_, fun j hj hx => ?_⟩, fun p hp hbelow j hx => ?_,
    fun j hj j' hj' => ?_⟩
  · have hadded := hrequired p hp hreq
    obtain ⟨j, hj, hcount, hother⟩ := exists_share (i := 0) hn hadded hnodup
    refine ⟨j, hj, ?_, fun j' hj' hx => ?_⟩
    · have hzero : (if j = 0 then serialTestsArr else []).count (fullName p) = 0 := by
        refine List.count_eq_zero.mpr fun hx => ?_
        split_ifs at hx
        · exact hreq.notSerial hx
        · cases hx
      rw [(hperm j hj).count_eq, List.count_append, hzero, hcount]
    · exact (hmem j' _ hx).elim (fun h => hreq.notSerial h.2) (hother j' hj')
  · have hzero : (share n 0 0 added).count s = 0 :=
      List.count_eq_zero.mpr fun hx => hserial s (hshare 0 s hx) hs
    have hone : serialTestsArr.count s = 1 := List.count_eq_one_of_mem nodup_serialTestsArr hs
    rw [(hperm 0 hn).count_eq, List.count_append, if_pos rfl, hzero, hone]
  · exact (hmem j s hx).elim (fun h => hj h.1) fun h => hserial s (hshare j s h) hs
  · exact (hmem j _ hx).elim (fun h => not_serial_of_belowTxns hbelow h.2) fun h =>
      htxns p hp hbelow (hshare j _ h)
  · have hsize : ∀ j < n, (nonSerial lists j).length = (share n j 0 added).length := by
      intro j hj
      have hleft : (if j = 0 then serialTestsArr else []).filter (fun x => x ∉ serialTestsArr) = [] := by
        refine List.filter_eq_nil_iff.mpr fun x hx => ?_
        split_ifs at hx
        · simpa using hx
        · cases hx
      have hright : (share n j 0 added).filter (fun x => x ∉ serialTestsArr) = share n j 0 added :=
        List.filter_eq_self.mpr fun x hx => decide_eq_true (hserial x (hshare j x hx))
      rw [nonSerial, ((hperm j hj).filter _).length_eq, List.filter_append, hleft, hright,
        List.nil_append]
    rw [hsize j hj, hsize j' hj']
    exact length_share_le hj hj'

variable {fileShuffler : Shuffler File} {testShuffler : Shuffler String}

/-- A test of transactions that is not hidden gets into a list. -/
theorem hidden_of_partitions (hn : 0 < n)
    (hr : createJstestsLists core legacy fileShuffler testShuffler n = .ok lists)
    (hpart : Partitions core legacy n lists) (hp : p ∈ core.entries.paths) (hbelow : BelowTxns p)
    (hlen : 3 ≤ p.length) (hjs : JsFile p) : Hidden p := by
  cases htxns : core.entries.listFiles "txns" with
  | none =>
    rw [createJstestsLists, htxns] at hr
    cases hr
  | some txns =>
    obtain ⟨lists', added, hr', -, hperm, hnodup, hadded⟩ :=
      exists_lists legacy n fileShuffler testShuffler htxns
    cases hr.symm.trans hr'
    by_contra hhidden
    have hin := (hadded _).mpr ⟨p, hp, (added_iff_of_length hbelow hlen).mpr ⟨hjs, hhidden⟩, rfl⟩
    obtain ⟨j, hj, hcount, -⟩ := exists_share (i := 0) hn hin hnodup
    refine hpart.txns p hp hbelow j ((hperm j hj).mem_iff.mpr (List.mem_append_right _ ?_))
    exact List.one_le_count_iff.mp hcount.ge

/-- **When the lists are a partition**: if and only if there is a directory of transaction tests, and
no file in a subdirectory of it would be added. -/
theorem partitions_iff (core : Directory) (legacy : Bool) (fileShuffler : Shuffler File)
    (testShuffler : Shuffler String) {n : ℕ} (hn : 0 < n) :
    (∃ lists, createJstestsLists core legacy fileShuffler testShuffler n = .ok lists ∧
      Partitions core legacy n lists) ↔ TxnsSkipped core := by
  constructor
  · rintro ⟨lists, hr, hpart⟩
    refine ⟨?_, fun p hp hbelow hlen hjs => hidden_of_partitions hn hr hpart hp hbelow hlen hjs⟩
    cases htxns : core.entries.listFiles "txns" with
    | none =>
      rw [createJstestsLists, htxns] at hr
      cases hr
    | some txns => rfl
  · rintro ⟨htxns, hskipped⟩
    obtain ⟨txns, htxns⟩ := Option.isSome_iff_exists.mp htxns
    obtain ⟨lists, added, hr, hlen, hperm, hnodup, hadded⟩ :=
      exists_lists legacy n fileShuffler testShuffler htxns
    refine ⟨lists, hr, partitions_of_dealt hn hlen hperm hnodup (fun x hx => ?_)
      (fun p hp hreq => (hadded _).mpr ⟨p, hp, hreq.added (ne_nil_of_mem_paths hp), rfl⟩)
      fun p hp hbelow hin => ?_⟩
    · obtain ⟨p, -, hp, rfl⟩ := (hadded x).mp hx
      exact hp.notSerial
    · obtain ⟨q, -, hq, heq⟩ := (hadded _).mp hin
      rw [fullName_injective heq] at hq
      by_cases hlen' : p.length < 3
      · exact not_added_of_length core.distinct htxns hp hbelow hlen' hq
      · exact hq.notHidden (hskipped p hp hbelow (by omega) hq.js)

/-- One test of transactions, in a subdirectory. -/
def nestedTxns : Directory where
  entries := .directory txnsName (.directory ⟨"libs", by decide⟩ (.file ⟨"a.js", by decide⟩ .nil) .nil)
    .nil
  distinct := ⟨List.not_mem_nil, ⟨List.not_mem_nil, ⟨List.not_mem_nil, trivial⟩, trivial⟩, trivial⟩

theorem partitions_iff_nestedTxns :
    0 < 2 ∧ ((∃ lists, createJstestsLists nestedTxns false (.rotating _ 0) (.rotating _ 0) 2 =
      .ok lists ∧ Partitions nestedTxns false 2 lists) ↔ TxnsSkipped nestedTxns) :=
  ⟨by decide, partitions_iff nestedTxns false _ _ (by decide)⟩

theorem nestedTxns_not_skipped :
    ¬ ∃ lists, createJstestsLists nestedTxns false (.rotating _ 0) (.rotating _ 0) 2 = .ok lists ∧
      Partitions nestedTxns false 2 lists := by
  rintro ⟨lists, hr, hpart⟩
  have hp : [txnsName, ⟨"libs", by decide⟩, ⟨"a.js", by decide⟩] ∈ nestedTxns.entries.paths :=
    List.mem_cons_self
  obtain ⟨name, hname, hhead⟩ := hidden_of_partitions (by decide) hr hpart hp
    ⟨_, _, rfl, rfl, List.cons_ne_nil _ _⟩ (Nat.le_refl 3) ⟨['a'], rfl⟩
  simp only [List.mem_cons, List.not_mem_nil, or_false] at hname
  rcases hname with rfl | rfl | rfl
  · exact absurd hhead (by decide)
  · exact absurd hhead (by decide)
  · exact absurd hhead (by decide)

end Partitions

end MongoTests.Suites.Parallel
