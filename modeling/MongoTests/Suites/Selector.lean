import Mathlib.Data.Finset.Basic
import Mathlib.Data.Finset.Dedup
import Mathlib.Data.List.Sort
import Mathlib.Data.String.Basic
import MongoTests.Lib.Checked
import MongoTests.Lib.Firsts

/-!
# Test selection

Embeds `resmokelib/selector.py` (`_TestList`, the tag expressions, `_SelectorConfig`,
`_Selector.select`) over a `TestFileExplorer` that stands for the file tree.

* `normpath`, `isGlobPattern`: the two functions on path names.
* `TestList`: `expandFiles`, `includeFiles`, `excludeFiles`, `matchTagExpression`, `getTests`.
* `makeExpression`, `TagExpression.eval`: tag matching expressions.
* `selectorConfig`, `select`: from the `selector` section of a suite to its tests.
* `mem_included_of_filterTests`: what is selected matches `include_files`.
* **`filterTests_plain`**: what is selected from plain roots, without exclusions or tags.
-/

namespace MongoTests.Suites

open MongoTests.Lib

/-! ## Path names -/

/-- One component of the loop of `os.path.normpath`. -/
def normComp (absolute : Bool) (comps : List (List Char)) (comp : List Char) :
    List (List Char) :=
  if comp = [] ∨ comp = ['.'] then comps
  else if comp ≠ ['.', '.'] ∨ (absolute = false ∧ comps = []) ∨
      comps.getLast? = some ['.', '.'] then comps ++ [comp]
  else comps.dropLast

/-- How many leading slashes `os.path.normpath` keeps: POSIX allows one or two. -/
def initialSlashes : List Char → ℕ
  | '/' :: '/' :: '/' :: _ => 1
  | '/' :: '/' :: _ => 2
  | '/' :: _ => 1
  | _ => 0

def normpath (path : String) : String :=
  let slashes := initialSlashes path.toList
  let comps := (path.toList.splitOn '/').foldl (normComp (slashes != 0)) []
  let norm := List.replicate slashes '/' ++ List.intercalate ['/'] comps
  if norm = [] then "." else String.ofList norm

def isGlobPattern (path : String) : Bool := path.toList.any fun c => c ∈ ['*', '?', '[']

/-- `TestFileExplorer`: what the file tree answers. -/
structure TestFileExplorer where
  iglob : String → List String
  isfile : String → Bool
  readRootFile : String → List String
  getTags : String → List String

inductive SelectorError
  | unrecognizedTestFile (test : String)
  | excludedTestFileMissing (path : String)
  | notFiles
  | rootAndRoots
  | includeAndExcludeTags
  | tagsOneKey
  | tagsInvalid
  /-- `open(None)` when there is neither `root` nor `roots`. -/
  | noRoot
  deriving DecidableEq, Repr

/-- The text of the exception; `tagsInvalid` goes on with the configuration. -/
def SelectorError.message : SelectorError → String
  | .unrecognizedTestFile test => "Unrecognized test file: " ++ test
  | .excludedTestFileMissing path => "Excluded test file " ++ path ++
      " does not exist, perhaps it was renamed or removed" ++
      " , and should be modified in, or removed from, the exclude_files list."
  | .notFiles => "_TestList does not contain files."
  | .rootAndRoots => "root and roots cannot be specified at the same time"
  | .includeAndExcludeTags => "include_tags and exclude_tags cannot be specified at the same time"
  | .tagsOneKey => "Tag matching expressions should only contain one key"
  | .tagsInvalid => "Invalid tag matching expression: "
  | .noRoot => "expected str, bytes or os.PathLike object, not NoneType"

/-! ## `_TestList` -/

structure TestList where
  testsAreFiles : Bool
  roots : List String
  filtered : Finset String

namespace TestList

variable (ex : TestFileExplorer)

/-- One root of `_expand_files`. -/
def expandFile (test : String) : Except SelectorError (List String) :=
  if isGlobPattern test then .ok (ex.iglob test)
  else if ex.isfile test then .ok [normpath test]
  else .error (.unrecognizedTestFile test)

def expandFiles : List String → Except SelectorError (List String)
  | [] => .ok []
  | test :: tests => do
    let expanded ← expandFile ex test
    let rest ← expandFiles tests
    pure (expanded ++ rest)

/-- The roots of `_TestList.__init__`. -/
def initialRoots (roots : List String) (testsAreFiles : Bool) :
    Except SelectorError (List String) :=
  if testsAreFiles then expandFiles ex roots else .ok roots

def init (roots : List String) (testsAreFiles : Bool) : Except SelectorError TestList := do
  let roots ← initialRoots ex roots testsAreFiles
  pure ⟨testsAreFiles, roots, roots.toFinset⟩

/-- The files that an entry of `include_files` stands for. -/
def expandInclude (path : String) : List String :=
  if isGlobPattern path then ex.iglob path else [normpath path]

def includeFiles (l : TestList) (files : List String) (force : Bool) :
    Except SelectorError TestList :=
  if l.testsAreFiles then
    let expanded := (files.flatMap (expandInclude ex)).toFinset
    let filtered := l.filtered ∩ expanded
    .ok { l with filtered := if force then filtered ∪ (l.roots.toFinset ∩ expanded) else filtered }
  else .error .notFiles

/-- One entry of `exclude_files`. -/
def excludeFile (l : TestList) (path : String) : Except SelectorError TestList :=
  if isGlobPattern path then .ok { l with filtered := l.filtered \ (ex.iglob path).toFinset }
  else if normpath path ∈ l.roots then .ok { l with filtered := l.filtered.erase (normpath path) }
  else .error (.excludedTestFileMissing (normpath path))

def excludeFiles (l : TestList) (files : List String) : Except SelectorError TestList :=
  if l.testsAreFiles then files.foldlM (excludeFile ex) l else .error .notFiles

def matchTagExpression (l : TestList) (tagExpression : List String → Bool)
    (getTags : String → List String) : TestList :=
  { l with filtered := l.filtered.filter fun test => tagExpression (getTags test) = true }

/-- One root of the loop of `get_tests`. -/
def getTestsStep (filtered : Finset String) (acc : List String × List String) (test : String) :
    List String × List String :=
  if test ∈ filtered then (if test ∈ acc.1 then acc else (acc.1 ++ [test], acc.2))
  else if test ∈ acc.2 then acc else (acc.1, acc.2 ++ [test])

/-- `get_tests`: the tests and the excluded tests, in the order of the roots. -/
def getTests (l : TestList) : List String × List String :=
  l.roots.foldl (getTestsStep l.filtered) ([], [])

end TestList

/-! ## Tag matching expressions -/

/-- A value of the YAML configuration of a tag expression. -/
inductive TagConf
  | str (s : String)
  | list (l : List TagConf)
  | dict (l : List (String × TagConf))

/-- The four classes of tag matching expressions. -/
inductive TagExpression
  | allOf (children : List TagExpression)
  | anyOf (children : List TagExpression)
  | not (child : TagExpression)
  | matchTag (tag : String)

/-- `__call__` of the tag matching expressions. -/
def TagExpression.eval (fileTags : List String) : TagExpression → Bool
  | .allOf children => children.attach.all fun ⟨c, _⟩ => c.eval fileTags
  | .anyOf children => children.attach.any fun ⟨c, _⟩ => c.eval fileTags
  | .not child => !child.eval fileTags
  | .matchTag tag => decide (tag ∈ fileTags)

mutual

def makeExpression : TagConf → Except SelectorError TagExpression
  | .str s => .ok (.matchTag s)
  | .dict [(key, value)] =>
    if key = "$allOf" then do
      let children ← makeExpressionList value
      pure (.allOf children)
    else if key = "$anyOf" then do
      let children ← makeExpressionList value
      pure (.anyOf children)
    else if key = "$not" then do
      let child ← makeExpression value
      pure (.not child)
    else .error .tagsInvalid
  | .dict _ => .error .tagsOneKey
  | .list _ => .error .tagsInvalid

/-- `_make_expression_list`, which iterates over whatever value it is given: the elements of a list,
the characters of a string, the keys of a dictionary. -/
def makeExpressionList : TagConf → Except SelectorError (List TagExpression)
  | .str s => .ok (s.toList.map fun c => .matchTag (String.ofList [c]))
  | .list l => makeExpressions l
  | .dict l => .ok (l.map fun p => .matchTag p.1)

/-- The comprehension of `_make_expression_list`. -/
def makeExpressions : List TagConf → Except SelectorError (List TagExpression)
  | [] => .ok []
  | c :: cs => do
    let e ← makeExpression c
    let es ← makeExpressions cs
    pure (e :: es)

end

/-! ## `_SelectorConfig` and `_Selector` -/

/-- The `selector` section of a suite configuration; a missing key is `none`. -/
structure Section where
  root : Option String
  roots : Option (List String)
  includeFiles : Option (List String)
  excludeFiles : Option (List String)
  includeTags : Option TagConf
  excludeTags : Option TagConf
  includeWithAnyTags : Option (List String)
  excludeWithAnyTags : Option (List String)

/-- The global options that the selection reads, and `str.lower`. -/
structure Globals where
  includeWithAnyTags : Option (List String)
  excludeWithAnyTags : Option (List String)
  orderTestsByName : Bool
  lower : String → String

structure SelectorConfig where
  root : Option String
  roots : Option (List String)
  includeFiles : List String
  excludeFiles : List String
  tagsExpression : Option TagExpression

def TagConf.truthy : TagConf → Bool
  | .str s => s != ""
  | .list l => !l.isEmpty
  | .dict l => !l.isEmpty

/-- A configuration that is given and true. -/
def given (conf : Option TagConf) : Option TagConf := conf.filter TagConf.truthy

def mergeLists (a b : Option (List String)) : Option (List String) :=
  let merged := a.getD [] ++ b.getD []
  if merged.isEmpty then none else some merged

/-- `make_expression({"$anyOf": tags})`. -/
def anyOfTags (tags : List String) : TagExpression := .anyOf (tags.map .matchTag)

def makeTagsExpression (includeTags excludeTags : Option TagConf)
    (includeWithAnyTags excludeWithAnyTags : Option (List String)) :
    Except SelectorError (Option TagExpression) := do
  let tags ← match given includeTags, given excludeTags with
    | some conf, _ => do
      let e ← makeExpression conf
      pure [e]
    | none, some conf => do
      let e ← makeExpression conf
      pure [.not e]
    | none, none => pure []
  let expressions := tags ++ (includeWithAnyTags.map anyOfTags).toList ++
    (excludeWithAnyTags.map fun tags => .not (anyOfTags tags)).toList
  pure (if expressions.isEmpty then none else some (.allOf expressions))

/-- The incompatible arguments check of `_SelectorConfig.__init__`. -/
def checkCompatible (c : Section) : Except SelectorError Unit :=
  if c.root.getD "" ≠ "" ∧ c.roots.getD [] ≠ [] then .error .rootAndRoots
  else if (given c.includeTags).isSome ∧ (given c.excludeTags).isSome then
    .error .includeAndExcludeTags
  else .ok ()

def selectorConfig (g : Globals) (c : Section) : Except SelectorError SelectorConfig := do
  checkCompatible c
  let tagsExpression ← makeTagsExpression c.includeTags c.excludeTags
    (mergeLists c.includeWithAnyTags g.includeWithAnyTags)
    (mergeLists c.excludeWithAnyTags g.excludeWithAnyTags)
  pure ⟨c.root, c.roots, c.includeFiles.getD [], c.excludeFiles.getD [], tagsExpression⟩

/-- `sorted(tests, key=str.lower)`. -/
def sortByName (lower : String → String) (tests : List String) : List String :=
  tests.insertionSort fun a b => lower a ≤ lower b

def sortTests (g : Globals) (t : List String × List String) : List String × List String :=
  if g.orderTestsByName then (sortByName g.lower t.1, sortByName g.lower t.2) else t

/-- The root files of `_Selector.select`. -/
def findRoots (ex : TestFileExplorer) (c : SelectorConfig) : Except SelectorError (List String) :=
  match c.roots, c.root with
  | some roots, _ => .ok roots
  | none, some root => .ok (ex.readRootFile root)
  | none, none => .error .noRoot

/-- Step 3 of `_Selector.select`. -/
def applyExcludeFiles (ex : TestFileExplorer) (c : SelectorConfig) (l : TestList) :
    Except SelectorError TestList :=
  if l.testsAreFiles = true ∧ c.excludeFiles ≠ [] then l.excludeFiles ex c.excludeFiles else .ok l

/-- Step 4 of `_Selector.select`. -/
def applyTags (ex : TestFileExplorer) (c : SelectorConfig) (l : TestList) : TestList :=
  match c.tagsExpression with
  | some e => l.matchTagExpression (fun tags => e.eval tags) ex.getTags
  | none => l

/-- Step 5 of `_Selector.select`: the include files come last, to take precedence over the tags. -/
def applyIncludeFiles (ex : TestFileExplorer) (c : SelectorConfig) (l : TestList) :
    Except SelectorError TestList :=
  if l.testsAreFiles = true ∧ c.includeFiles ≠ [] then l.includeFiles ex c.includeFiles true
  else .ok l

/-- `_Selector.select`: the selected tests and the excluded ones. -/
def select (ex : TestFileExplorer) (g : Globals) (testsAreFiles : Bool) (c : SelectorConfig) :
    Except SelectorError (List String × List String) := do
  let roots ← findRoots ex c
  let l ← TestList.init ex roots testsAreFiles
  let l ← applyExcludeFiles ex c l
  let l ← applyIncludeFiles ex c (applyTags ex c l)
  pure (sortTests g l.getTests)

/-- `filter_tests` for the test kinds whose tests are files. -/
def filterTests (ex : TestFileExplorer) (g : Globals) (c : Section) :
    Except SelectorError (List String × List String) := do
  let c ← selectorConfig g c
  select ex g true c

/-! ## What is selected -/

/-- A name that denotes itself as a root: no glob pattern, and the normalised path of a file. -/
structure TestFileExplorer.Plain (ex : TestFileExplorer) (test : String) : Prop where
  notGlob : isGlobPattern test = false
  isfile : ex.isfile test = true
  normal : normpath test = test

instance (ex : TestFileExplorer) (test : String) : Decidable (ex.Plain test) :=
  decidable_of_iff (isGlobPattern test = false ∧ ex.isfile test = true ∧ normpath test = test)
    ⟨fun ⟨h1, h2, h3⟩ => ⟨h1, h2, h3⟩, fun ⟨h1, h2, h3⟩ => ⟨h1, h2, h3⟩⟩

section TestList

variable {ex : TestFileExplorer} {g : Globals}

/-- Plain names expand to themselves. -/
theorem TestList.expandFiles_plain {tests : List String} (h : ∀ t ∈ tests, ex.Plain t) :
    TestList.expandFiles ex tests = .ok tests := by
  induction tests with
  | nil => rfl
  | cons t ts ih =>
    have ht := h t List.mem_cons_self
    have hx : TestList.expandFile ex t = .ok [t] := by
      rw [TestList.expandFile, if_neg (by simp [ht.notGlob]), if_pos ht.isfile, ht.normal]
    rw [TestList.expandFiles, hx, ih fun u hu => h u (List.mem_cons_of_mem t hu)]
    rfl

/-- The loop of `get_tests` collects the first occurrences on either side of the filter. -/
theorem TestList.foldl_getTestsStep (f : Finset String) (roots tests excluded : List String) :
    roots.foldl (getTestsStep f) (tests, excluded) =
      (firstsFrom tests (roots.filter (· ∈ f)), firstsFrom excluded (roots.filter (· ∉ f))) := by
  induction roots generalizing tests excluded with
  | nil => rfl
  | cons t ts ih =>
    rw [List.foldl_cons]
    by_cases ht : t ∈ f
    · have hstep : getTestsStep f (tests, excluded) t =
          (if t ∈ tests then tests else tests ++ [t], excluded) := by
        rw [getTestsStep, if_pos ht]
        split_ifs <;> rfl
      rw [hstep, ih, List.filter_cons_of_pos (by simpa using ht),
        List.filter_cons_of_neg (by simpa using ht), firstsFrom_cons]
    · have hstep : getTestsStep f (tests, excluded) t =
          (tests, if t ∈ excluded then excluded else excluded ++ [t]) := by
        rw [getTestsStep, if_neg ht]
        split_ifs <;> rfl
      rw [hstep, ih, List.filter_cons_of_neg (by simpa using ht),
        List.filter_cons_of_pos (by simpa using ht), firstsFrom_cons]

theorem TestList.getTests_eq (l : TestList) :
    l.getTests = (firsts (l.roots.filter (· ∈ l.filtered)),
      firsts (l.roots.filter (· ∉ l.filtered))) :=
  foldl_getTestsStep l.filtered l.roots [] []

/-- When no root is filtered out, none is excluded. -/
theorem TestList.getTests_of_all {l : TestList} (h : ∀ t ∈ l.roots, t ∈ l.filtered) :
    l.getTests = (firsts l.roots, []) := by
  have h1 : l.roots.filter (· ∈ l.filtered) = l.roots := by
    rw [List.filter_eq_self]
    simpa using h
  have h2 : l.roots.filter (· ∉ l.filtered) = [] := by
    rw [List.filter_eq_nil_iff]
    simpa using h
  rw [getTests_eq, h1, h2]
  rfl

theorem pairwise_sortByName (lower : String → String) (tests : List String) :
    (sortByName lower tests).Pairwise fun a b => lower a ≤ lower b := by
  have : Std.Total fun a b => lower a ≤ lower b := ⟨fun a b => le_total (lower a) (lower b)⟩
  have : IsTrans String fun a b => lower a ≤ lower b := ⟨fun _ _ _ => le_trans⟩
  exact List.pairwise_insertionSort _ tests

theorem mem_sortTests {t : List String × List String} {x : String} :
    x ∈ (sortTests g t).1 ↔ x ∈ t.1 := by
  unfold sortTests
  split_ifs
  · exact List.mem_insertionSort _
  · exact Iff.rfl

end TestList

/-- The files that `include_files` stands for. -/
def Section.included (ex : TestFileExplorer) (c : Section) : List String :=
  (c.includeFiles.getD []).flatMap (TestList.expandInclude ex)

section Select

variable {ex : TestFileExplorer} {g : Globals} {c : Section} {tests excluded : List String}

/-- After the include files, only what they stand for passes the filter. -/
theorem TestList.mem_getTests_includeFiles {l l' : TestList} {files : List String} {force : Bool}
    (h : l.includeFiles ex files force = .ok l') {t : String} (ht : t ∈ l'.getTests.1) :
    t ∈ files.flatMap (expandInclude ex) := by
  rw [getTests_eq, mem_firsts, List.mem_filter] at ht
  have hm : t ∈ l'.filtered := by simpa using ht.2
  rw [includeFiles] at h
  split at h
  · cases h
    rw [← List.mem_toFinset]
    split_ifs at hm
    · exact (Finset.mem_union.mp hm).elim Finset.mem_of_mem_inter_right
        Finset.mem_of_mem_inter_right
    · exact Finset.mem_of_mem_inter_right hm
  · cases h

theorem includeFiles_selectorConfig {cfg : SelectorConfig} (h : selectorConfig g c = .ok cfg) :
    cfg.includeFiles = c.includeFiles.getD [] := by
  obtain ⟨_, -, h⟩ := bind_eq_ok.mp h
  obtain ⟨_, -, h⟩ := bind_eq_ok.mp h
  cases h
  rfl

theorem TestList.testsAreFiles_init {roots : List String} {b : Bool} {l : TestList}
    (h : TestList.init ex roots b = .ok l) : l.testsAreFiles = b := by
  obtain ⟨_, -, h⟩ := bind_eq_ok.mp h
  cases h
  rfl

theorem TestList.testsAreFiles_excludeFile {l l' : TestList} {path : String}
    (h : l.excludeFile ex path = .ok l') : l'.testsAreFiles = l.testsAreFiles := by
  unfold excludeFile at h
  split_ifs at h <;> cases h <;> rfl

theorem TestList.testsAreFiles_excludeFiles {files : List String} {l l' : TestList}
    (h : files.foldlM (excludeFile ex) l = .ok l') : l'.testsAreFiles = l.testsAreFiles := by
  induction files generalizing l with
  | nil =>
    cases h
    rfl
  | cons f fs ih =>
    obtain ⟨m, hm, h⟩ := bind_eq_ok.mp h
    exact (ih h).trans (testsAreFiles_excludeFile hm)

theorem testsAreFiles_applyExcludeFiles {cfg : SelectorConfig} {l l' : TestList}
    (h : applyExcludeFiles ex cfg l = .ok l') : l'.testsAreFiles = l.testsAreFiles := by
  unfold applyExcludeFiles TestList.excludeFiles at h
  split_ifs at h with h1 h2
  · exact TestList.testsAreFiles_excludeFiles h
  · cases h
    rfl

theorem testsAreFiles_applyTags (cfg : SelectorConfig) (l : TestList) :
    (applyTags ex cfg l).testsAreFiles = l.testsAreFiles := by
  unfold applyTags
  split <;> rfl

/-- What is selected matches `include_files`, if there are any. -/
theorem mem_included_of_filterTests (h : filterTests ex g c = .ok (tests, excluded))
    (hi : c.includeFiles.getD [] ≠ []) {t : String} (ht : t ∈ tests) : t ∈ c.included ex := by
  obtain ⟨cfg, hcfg, h⟩ := bind_eq_ok.mp h
  obtain ⟨roots, -, h⟩ := bind_eq_ok.mp h
  obtain ⟨l1, h1, h⟩ := bind_eq_ok.mp h
  obtain ⟨l2, h2, h⟩ := bind_eq_ok.mp h
  obtain ⟨l, hl, h⟩ := bind_eq_ok.mp h
  have hfiles : (applyTags ex cfg l2).testsAreFiles = true := by
    rw [testsAreFiles_applyTags, testsAreFiles_applyExcludeFiles h2,
      TestList.testsAreFiles_init h1]
  rw [applyIncludeFiles, includeFiles_selectorConfig hcfg, if_pos ⟨hfiles, hi⟩] at hl
  have hs : (sortTests g l.getTests).1 = tests := congrArg (fun r => r.1) (Except.ok.inj h)
  rw [← hs, mem_sortTests] at ht
  exact TestList.mem_getTests_includeFiles hl ht

/-- No tag option is given, in the section or globally. -/
structure NoTags (g : Globals) (c : Section) : Prop where
  includeTags : c.includeTags = none
  excludeTags : c.excludeTags = none
  includeWithAnyTags : c.includeWithAnyTags = none
  excludeWithAnyTags : c.excludeWithAnyTags = none
  globalInclude : g.includeWithAnyTags = none
  globalExclude : g.excludeWithAnyTags = none

/-- **The selection from plain roots.** Without `root`, exclusions and tags, plain roots that match
the include files are selected, each once. -/
theorem filterTests_plain (hn : NoTags g c) (hroot : c.root = none) {roots : List String}
    (hroots : c.roots = some roots) (hex : c.excludeFiles.getD [] = [])
    (hp : ∀ t ∈ roots, ex.Plain t)
    (hi : c.includeFiles.getD [] ≠ [] → ∀ t ∈ roots, t ∈ c.included ex) :
    filterTests ex g c = .ok (sortTests g (firsts roots, [])) := by
  obtain ⟨h1, h2, h3, h4, h5, h6⟩ := hn
  have hcfg : selectorConfig g c = .ok ⟨none, some roots, c.includeFiles.getD [], [], none⟩ := by
    simp only [selectorConfig, checkCompatible, makeTagsExpression, given, mergeLists, h1, h2, h3,
      h4, h5, h6, hroot, hroots, hex]
    rfl
  have hinit : TestList.init ex roots true = .ok ⟨true, roots, roots.toFinset⟩ := by
    rw [TestList.init, TestList.initialRoots, if_pos rfl, TestList.expandFiles_plain hp]
    rfl
  refine bind_eq_ok.mpr ⟨_, hcfg, bind_eq_ok.mpr ⟨roots, rfl, bind_eq_ok.mpr ⟨_, hinit, ?_⟩⟩⟩
  refine bind_eq_ok.mpr ⟨⟨true, roots, roots.toFinset⟩, by simp [applyExcludeFiles], ?_⟩
  -- without tags and exclusions every root is still there when the include files come
  suffices h : ∃ l, applyIncludeFiles ex ⟨none, some roots, c.includeFiles.getD [], [], none⟩
      ⟨true, roots, roots.toFinset⟩ = .ok l ∧ l.getTests = (firsts roots, []) by
    obtain ⟨l, hl, hg⟩ := h
    exact bind_eq_ok.mpr ⟨l, hl, by rw [hg]; rfl⟩
  unfold applyIncludeFiles
  split_ifs with hne
  · refine ⟨_, rfl, TestList.getTests_of_all fun t ht => Finset.mem_union_right _ ?_⟩
    exact Finset.mem_inter.mpr ⟨List.mem_toFinset.mpr ht, List.mem_toFinset.mpr (hi hne.2 t ht)⟩
  · exact ⟨_, rfl, TestList.getTests_of_all fun t ht => List.mem_toFinset.mpr ht⟩

end Select

end MongoTests.Suites
