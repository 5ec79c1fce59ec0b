import MongoTests.Lib.Decimal
import MongoTests.Resmoke.Archival
import MongoTests.Suites.Selector

/-!
# Archives of tests and hooks

`HookTestArchival` of `resmokelib/testing/hook_test_archival.py`, called by several jobs. A job counts
the archives of a name under a lock, and it reads the count again, without the lock, for the file name
and for the display name.

* `archivedName`: the name under which a call of `archive` is archived, if it is.
* `step`: a step of a job; `Exclusive`: the calls that do not get in each other's way.
* `s3Path_injective`: the path tells the normalized name and the repetition.
* **`s3_paths_unique`**: the paths of the archives when all calls are exclusive.
* `s3_paths_clash`: two jobs with one test, and two tests with one normalized name.
-/

namespace MongoTests.Resmoke.TestArchival

open MongoTests.Lib MongoTests.Suites

/-! ## Calls -/

/-- The module `config`, and the fields that `__init__` sets. -/
structure Config where
  archiveFile : Bool
  hasArchiveInstance : Bool
  onSuccess : Bool
  archiveAll : Bool
  tests : List String
  hooks : List String
  archiveBucket : String
  evergreenTaskId : String
  evergreenExecution : String
  evergreenProjectName : String
  evergreenVariantName : String
  evergreenRevision : String

/-- A call of `archive`; the hook is given by its `REGISTERED_NAME`. -/
structure Call where
  testName : String
  shortName : String
  dbpathPrefix : String
  success : Bool
  hook : Option String
  deriving DecidableEq, Repr

section Names

variable (cfg : Config)

def shouldArchive (success : Bool) : Bool := !success || cfg.onSuccess

/-- `_archive_hook` -/
def archiveHook (c : Call) (hook : String) : Option String :=
  if hook ∈ cfg.hooks ∧ shouldArchive cfg c.success then some (c.shortName ++ ":" ++ hook) else none

/-- `_archive_test` -/
def archiveTest (c : Call) : Option String :=
  let testMatch := cfg.archiveAll || cfg.tests.any fun t => normpath c.testName = normpath t
  if testMatch ∧ shouldArchive cfg c.success then some c.testName else none

/-- The name that `archive` gives to `_archive_hook_or_test`. -/
def archivedName (c : Call) : Option String :=
  if !cfg.archiveFile || !cfg.hasArchiveInstance then none
  else
    match c.hook with
    | some hook => archiveHook cfg c hook
    | none => archiveTest cfg c

/-- `text.replace(old, new)`, for two characters. -/
def replaceChar (old new : Char) (text : String) : String :=
  String.ofList (text.toList.map fun c => if c = old then new else c)

/-- `test_path` -/
def testPath (testName : String) : String :=
  replaceChar ':' '_' (replaceChar '.' '_' (replaceChar '\\' '_' (replaceChar '/' '_' testName)))

def fileName (testName : String) (testsRepeat : ℕ) : String :=
  "mongo-data-" ++ cfg.evergreenTaskId ++ "-" ++ testPath testName ++ "-" ++
    cfg.evergreenExecution ++ "-" ++ toString testsRepeat ++ ".tgz"

def s3Path (testName : String) (testsRepeat : ℕ) : String :=
  cfg.evergreenProjectName ++ "/" ++ cfg.evergreenVariantName ++ "/" ++ cfg.evergreenRevision ++
    "/datafiles/" ++ fileName cfg testName testsRepeat

def displayName (testName : String) (testsRepeat : ℕ) : String :=
  "Data files " ++ testName ++ " - Execution " ++ cfg.evergreenExecution ++ " Repetition " ++
    toString testsRepeat

end Names

/-! ## Jobs -/

/-- Where a job is in `_archive_hook_or_test`. -/
inductive Pc
  | idle
  /-- It has counted, and is about to read the count for the file name. -/
  | counted (c : Call) (testName : String)
  /-- It is about to read the count for the display name. -/
  | named (c : Call) (testName s3Path : String)
  deriving DecidableEq, Repr

/-- The dictionary `_tests_repeat`, the jobs, and the archives that were asked for. -/
structure State (n : ℕ) where
  testsRepeat : String → Option ℕ
  pc : Fin n → Pc
  requests : List Archival.Request

inductive Act (n : ℕ)
  /-- A job calls `archive`, up to the end of the lock section. -/
  | call (i : Fin n) (c : Call)
  /-- The next step of the call. -/
  | tick (i : Fin n)

section Step

variable {n : ℕ} (cfg : Config)

/-- The section under the lock. -/
def count (testsRepeat : String → Option ℕ) (testName : String) : String → Option ℕ :=
  Function.update testsRepeat testName
    (match testsRepeat testName with
    | none => some 0
    | some k => some (k + 1))

def step (s : State n) : Act n → Option (State n)
  | .call i c =>
    match s.pc i with
    | .idle =>
      match archivedName cfg c with
      | none => some s
      | some testName => some { s with
          testsRepeat := count s.testsRepeat testName
          pc := Function.update s.pc i (.counted c testName) }
    | _ => none
  | .tick i =>
    match s.pc i with
    | .idle => none
    | .counted c testName =>
      (s.testsRepeat testName).map fun k =>
        { s with pc := Function.update s.pc i (.named c testName (s3Path cfg testName k)) }
    | .named c testName path =>
      (s.testsRepeat testName).map fun k => { s with
        pc := Function.update s.pc i .idle
        requests := s.requests ++
          [⟨displayName cfg testName k, [c.dbpathPrefix], cfg.archiveBucket, path⟩] }

variable (n) in
def start : State n where
  testsRepeat _ := none
  pc _ := .idle
  requests := []

/-- The S3 paths that were given to archives. -/
def s3Paths (s : State n) : List String := s.requests.map Archival.Request.s3Path

/-- The job has counted an archive of the name, and has not read the count. -/
def Counted (s : State n) (i : Fin n) (testName : String) : Prop :=
  ∃ c, s.pc i = .counted c testName

/-- **The condition on the steps.** When a job counts an archive of a name, no other job has counted
one of this name without having read the count, and no other name with this path was counted. -/
def Exclusive (s : State n) : Act n → Prop
  | .call _ c => ∀ testName ∈ archivedName cfg c,
      (∀ j, ¬ Counted s j testName) ∧
        ∀ other, s.testsRepeat other ≠ none → testPath other = testPath testName → other = testName
  | .tick _ => True

end Step

/-! ## Paths -/

/-- A text with a name and a number, between the same texts. -/
theorem numbered_injective {before mid after t t' : String} {k k' : ℕ}
    (h : before ++ (t ++ ("-" ++ (mid ++ ("-" ++ (toString k ++ after))))) =
      before ++ (t' ++ ("-" ++ (mid ++ ("-" ++ (toString k' ++ after)))))) : t = t' ∧ k = k' := by
  have hdash : "-".toList = ['-'] := rfl
  have hdigits : ∀ j : ℕ, (toString j).toList = Nat.toDigits 10 j := fun j => String.toList_ofList
  have hlist := congrArg String.toList h
  simp only [String.toList_append, hdash, hdigits] at hlist
  have hrest := List.append_cancel_left hlist
  simp only [← List.append_assoc] at hrest
  have hnumbered := List.append_cancel_right hrest
  have hsplit : ∀ s u : List Char, s ++ ['-'] ++ u = s ++ '-' :: u :=
    fun s u => List.append_assoc s ['-'] u
  rw [hsplit _ (Nat.toDigits 10 k), hsplit _ (Nat.toDigits 10 k')] at hnumbered
  obtain ⟨hname, hnumber⟩ := append_cons_inj (notMem_toDigits rfl k) (notMem_toDigits rfl k')
    hnumbered
  refine ⟨String.toList_injective ?_, toDigits_injective hnumber⟩
  exact List.append_cancel_right (List.append_cancel_right hname)

/-- The path up to the name. -/
def s3Prefix (cfg : Config) : String :=
  cfg.evergreenProjectName ++ "/" ++ cfg.evergreenVariantName ++ "/" ++ cfg.evergreenRevision ++
    "/datafiles/" ++ ("mongo-data-" ++ cfg.evergreenTaskId ++ "-")

theorem s3Path_eq (cfg : Config) (t : String) (k : ℕ) :
    s3Path cfg t k = s3Prefix cfg ++ (testPath t ++ ("-" ++ (cfg.evergreenExecution ++ ("-" ++
      (toString k ++ ".tgz"))))) := by
  have hassoc : ∀ before task path mid number : String,
      before ++ ("mongo-data-" ++ task ++ "-" ++ path ++ "-" ++ mid ++ "-" ++ number ++ ".tgz") =
        before ++ ("mongo-data-" ++ task ++ "-") ++
          (path ++ ("-" ++ (mid ++ ("-" ++ (number ++ ".tgz"))))) := by
    intro before task path mid number
    simp only [String.append_assoc]
  exact hassoc _ _ _ _ (toString k)

/-- **The path tells** the normalized name and the repetition. -/
theorem s3Path_injective (cfg : Config) {t t' : String} {k k' : ℕ}
    (h : s3Path cfg t k = s3Path cfg t' k') : testPath t = testPath t' ∧ k = k' := by
  rw [s3Path_eq, s3Path_eq] at h
  exact numbered_injective h

/-! ## The invariant -/

section Inv

variable {n : ℕ} {cfg : Config} {s s' : State n}

/-- The job has the S3 path of an archive that it has not asked for. -/
def Named (s : State n) (i : Fin n) (path : String) : Prop := ∃ c t, s.pc i = .named c t path

/-- The path was made from a repetition of the name, and no job is about to read this count. -/
def MadeFrom (cfg : Config) (s : State n) (path : String) : Prop :=
  ∃ t j k, path = s3Path cfg t j ∧ s.testsRepeat t = some k ∧ j ≤ k ∧
    (j = k → ∀ i, ¬ Counted s i t)

variable (cfg) in
structure Inv (s : State n) : Prop where
  counted : ∀ i t, Counted s i t → s.testsRepeat t ≠ none
  single : ∀ i j t, Counted s i t → Counted s j t → i = j
  paths : ∀ t t', s.testsRepeat t ≠ none → s.testsRepeat t' ≠ none → testPath t = testPath t' → t = t'
  requested : ∀ path ∈ s3Paths s, MadeFrom cfg s path
  named : ∀ i path, Named s i path → MadeFrom cfg s path
  nodup : (s3Paths s).Nodup
  new : ∀ i path, Named s i path → path ∉ s3Paths s
  distinct : ∀ i j path, Named s i path → Named s j path → i = j

theorem Inv.start : Inv cfg (start n) where
  counted i t := by
    rintro ⟨_, h⟩
    cases h
  single i j t := by
    rintro ⟨_, h⟩
    cases h
  paths t t' h := absurd rfl h
  requested _ h := absurd h List.not_mem_nil
  named i path := by
    rintro ⟨_, _, h⟩
    cases h
  nodup := List.nodup_nil
  new i path := by
    rintro ⟨_, _, h⟩
    cases h
  distinct i j path := by
    rintro ⟨_, _, h⟩
    cases h

theorem count_self (testsRepeat : String → Option ℕ) (t : String) :
    ∃ k, count testsRepeat t t = some k ∧ ∀ j, testsRepeat t = some j → k = j + 1 := by
  rw [count, Function.update_self]
  cases testsRepeat t with
  | none => exact ⟨0, rfl, (fun _ h => by cases h)⟩
  | some j =>
    refine ⟨j + 1, rfl, fun j' h => ?_⟩
    cases h
    rfl

theorem count_of_ne {testsRepeat : String → Option ℕ} {t t' : String} (h : t' ≠ t) :
    count testsRepeat t t' = testsRepeat t' := Function.update_of_ne h _ _

theorem count_ne_none {testsRepeat : String → Option ℕ} {t t' : String} :
    count testsRepeat t t' ≠ none ↔ t' = t ∨ testsRepeat t' ≠ none := by
  by_cases h : t' = t
  · obtain ⟨k, hk, -⟩ := count_self testsRepeat t
    rw [h, hk]
    simp
  · rw [count_of_ne h, or_iff_right h]

/-! ### A job counts -/

section Call

variable {i : Fin n} {c : Call} {t : String}

/-- The state after the section under the lock. -/
def State.afterCount (s : State n) (i : Fin n) (c : Call) (t : String) : State n :=
  { s with
    testsRepeat := count s.testsRepeat t
    pc := Function.update s.pc i (.counted c t) }

theorem pc_afterCount : (s.afterCount i c t).pc = Function.update s.pc i (.counted c t) := rfl

theorem counted_afterCount {j : Fin n} {t' : String} (h : Counted (s.afterCount i c t) j t') :
    j = i ∧ t' = t ∨ j ≠ i ∧ Counted s j t' := by
  obtain ⟨c', h⟩ := h
  by_cases hj : j = i
  · subst hj
    rw [pc_afterCount, Function.update_self] at h
    cases h
    exact .inl ⟨rfl, rfl⟩
  · rw [pc_afterCount, Function.update_of_ne hj] at h
    exact .inr ⟨hj, c', h⟩

theorem named_afterCount {j : Fin n} {path : String} (h : Named (s.afterCount i c t) j path) :
    Named s j path := by
  obtain ⟨c', t', h⟩ := h
  by_cases hj : j = i
  · subst hj
    rw [pc_afterCount, Function.update_self] at h
    cases h
  · rw [pc_afterCount, Function.update_of_ne hj] at h
    exact ⟨c', t', h⟩

theorem MadeFrom.afterCount {path : String} (h : MadeFrom cfg s path) :
    MadeFrom cfg (s.afterCount i c t) path := by
  obtain ⟨t', j, k, rfl, hk, hle, hlast⟩ := h
  by_cases ht : t' = t
  · -- The count has grown.
    subst ht
    obtain ⟨k', hk', hsucc⟩ := count_self s.testsRepeat t'
    have hgrown := hsucc k hk
    exact ⟨t', j, k', rfl, hk', by omega, fun heq => by omega⟩
  · refine ⟨t', j, k, rfl, (count_of_ne ht).trans hk, hle, fun heq l hl => ?_⟩
    obtain ⟨-, rfl⟩ | ⟨-, hl⟩ := counted_afterCount hl
    · exact ht rfl
    · exact hlast heq l hl

theorem Inv.afterCount (h : Inv cfg s) (hfree : ∀ j, ¬ Counted s j t)
    (hpath : ∀ other, s.testsRepeat other ≠ none → testPath other = testPath t → other = t) :
    Inv cfg (s.afterCount i c t) where
  counted j t' hj := by
    obtain ⟨-, rfl⟩ | ⟨-, hj⟩ := counted_afterCount hj
    · exact count_ne_none.mpr (.inl rfl)
    · exact count_ne_none.mpr (.inr (h.counted j t' hj))
  single j l t' hj hl := by
    obtain ⟨rfl, rfl⟩ | ⟨-, hj'⟩ := counted_afterCount hj
    · obtain ⟨rfl, -⟩ | ⟨-, hl'⟩ := counted_afterCount hl
      · rfl
      · exact absurd hl' (hfree l)
    · obtain ⟨rfl, rfl⟩ | ⟨-, hl'⟩ := counted_afterCount hl
      · exact absurd hj' (hfree j)
      · exact h.single j l t' hj' hl'
  paths t₁ t₂ h₁ h₂ heq := by
    obtain rfl | h₁' := count_ne_none.mp h₁
    · obtain rfl | h₂' := count_ne_none.mp h₂
      · rfl
      · exact (hpath t₂ h₂' heq.symm).symm
    · obtain rfl | h₂' := count_ne_none.mp h₂
      · exact hpath t₁ h₁' heq
      · exact h.paths t₁ t₂ h₁' h₂' heq
  requested path hp := (h.requested path hp).afterCount
  named j path hj := (h.named j path (named_afterCount hj)).afterCount
  nodup := h.nodup
  new j path hj := h.new j path (named_afterCount hj)
  distinct j l path hj hl := h.distinct j l path (named_afterCount hj) (named_afterCount hl)

end Call

/-! ### A job reads the count -/

section Read

variable {i : Fin n} {c : Call} {t : String} {k : ℕ}

/-- The state after the file name was made. -/
def State.afterRead (s : State n) (i : Fin n) (c : Call) (t path : String) : State n :=
  { s with pc := Function.update s.pc i (.named c t path) }

theorem pc_afterRead {path : String} :
    (s.afterRead i c t path).pc = Function.update s.pc i (.named c t path) := rfl

theorem counted_afterRead {j : Fin n} {t' path : String}
    (h : Counted (s.afterRead i c t path) j t') : j ≠ i ∧ Counted s j t' := by
  obtain ⟨c', h⟩ := h
  by_cases hj : j = i
  · subst hj
    rw [pc_afterRead, Function.update_self] at h
    cases h
  · rw [pc_afterRead, Function.update_of_ne hj] at h
    exact ⟨hj, c', h⟩

theorem named_afterRead {j : Fin n} {path path' : String}
    (h : Named (s.afterRead i c t path) j path') :
    j = i ∧ path' = path ∨ j ≠ i ∧ Named s j path' := by
  obtain ⟨c', t', h⟩ := h
  by_cases hj : j = i
  · subst hj
    rw [pc_afterRead, Function.update_self] at h
    cases h
    exact .inl ⟨rfl, rfl⟩
  · rw [pc_afterRead, Function.update_of_ne hj] at h
    exact .inr ⟨hj, c', t', h⟩

theorem MadeFrom.afterRead {path path' : String} (h : MadeFrom cfg s path') :
    MadeFrom cfg (s.afterRead i c t path) path' := by
  obtain ⟨t', j, k, rfl, hk, hle, hlast⟩ := h
  exact ⟨t', j, k, rfl, hk, hle, fun heq l hl => hlast heq l (counted_afterRead hl).2⟩

/-- The path of the last repetition has not been made while a job is about to read its count. -/
theorem Inv.ne_of_madeFrom (h : Inv cfg s) (hi : Counted s i t) (hk : s.testsRepeat t = some k)
    {path : String} (hpath : MadeFrom cfg s path) : path ≠ s3Path cfg t k := by
  obtain ⟨t', j, k', rfl, hk', -, hlast⟩ := hpath
  intro heq
  obtain ⟨hname, rfl⟩ := s3Path_injective cfg heq
  have ht : t' = t := h.paths t' t (by rw [hk']; simp) (by rw [hk]; simp) hname
  subst ht
  rw [hk'] at hk
  cases hk
  exact hlast rfl i hi

theorem Inv.afterRead (h : Inv cfg s) (hi : Counted s i t) (hk : s.testsRepeat t = some k) :
    Inv cfg (s.afterRead i c t (s3Path cfg t k)) := by
  have hmade : MadeFrom cfg (s.afterRead i c t (s3Path cfg t k)) (s3Path cfg t k) := by
    refine ⟨t, k, k, rfl, hk, le_rfl, fun _ j hj => ?_⟩
    obtain ⟨hne, hj⟩ := counted_afterRead hj
    exact hne (h.single j i t hj hi)
  constructor
  · exact fun j t' hj => h.counted j t' (counted_afterRead hj).2
  · exact fun j l t' hj hl => h.single j l t' (counted_afterRead hj).2 (counted_afterRead hl).2
  · exact h.paths
  · exact fun path hp => (h.requested path hp).afterRead
  · intro j path hj
    obtain ⟨-, rfl⟩ | ⟨-, hj⟩ := named_afterRead hj
    · exact hmade
    · exact (h.named j path hj).afterRead
  · exact h.nodup
  · intro j path hj hmem
    obtain ⟨-, rfl⟩ | ⟨-, hj⟩ := named_afterRead hj
    · exact h.ne_of_madeFrom hi hk (h.requested _ hmem) rfl
    · exact h.new j path hj hmem
  · intro j l path hj hl
    obtain ⟨rfl, rfl⟩ | ⟨-, hj'⟩ := named_afterRead hj
    · obtain ⟨rfl, -⟩ | ⟨-, hl'⟩ := named_afterRead hl
      · rfl
      · exact absurd rfl (h.ne_of_madeFrom hi hk (h.named l _ hl'))
    · obtain ⟨rfl, rfl⟩ | ⟨-, hl'⟩ := named_afterRead hl
      · exact absurd rfl (h.ne_of_madeFrom hi hk (h.named j _ hj'))
      · exact h.distinct j l path hj' hl'

end Read

/-! ### A job asks for the archive -/

section Request

variable {i : Fin n} {r : Archival.Request}

/-- The state after `archive_files_to_s3` was called. -/
def State.afterRequest (s : State n) (i : Fin n) (r : Archival.Request) : State n :=
  { s with
    pc := Function.update s.pc i .idle
    requests := s.requests ++ [r] }

theorem pc_afterRequest : (s.afterRequest i r).pc = Function.update s.pc i .idle := rfl

theorem counted_afterRequest {j : Fin n} {t : String} (h : Counted (s.afterRequest i r) j t) :
    Counted s j t := by
  obtain ⟨c', h⟩ := h
  by_cases hj : j = i
  · subst hj
    rw [pc_afterRequest, Function.update_self] at h
    cases h
  · rw [pc_afterRequest, Function.update_of_ne hj] at h
    exact ⟨c', h⟩

theorem named_afterRequest {j : Fin n} {path : String} (h : Named (s.afterRequest i r) j path) :
    j ≠ i ∧ Named s j path := by
  obtain ⟨c', t', h⟩ := h
  by_cases hj : j = i
  · subst hj
    rw [pc_afterRequest, Function.update_self] at h
    cases h
  · rw [pc_afterRequest, Function.update_of_ne hj] at h
    exact ⟨hj, c', t', h⟩

theorem s3Paths_afterRequest : s3Paths (s.afterRequest i r) = s3Paths s ++ [r.s3Path] := by
  rw [s3Paths, State.afterRequest, List.map_append]
  rfl

theorem MadeFrom.afterRequest {path : String} (h : MadeFrom cfg s path) :
    MadeFrom cfg (s.afterRequest i r) path := by
  obtain ⟨t', j, k, rfl, hk, hle, hlast⟩ := h
  exact ⟨t', j, k, rfl, hk, hle, fun heq l hl => hlast heq l (counted_afterRequest hl)⟩

theorem Inv.afterRequest (h : Inv cfg s) (hi : Named s i r.s3Path) :
    Inv cfg (s.afterRequest i r) := by
  constructor
  · exact fun j t' hj => h.counted j t' (counted_afterRequest hj)
  · exact fun j l t' hj hl => h.single j l t' (counted_afterRequest hj) (counted_afterRequest hl)
  · exact h.paths
  · intro path hp
    rw [s3Paths_afterRequest, List.mem_append, List.mem_singleton] at hp
    obtain hp | rfl := hp
    · exact (h.requested path hp).afterRequest
    · exact (h.named i _ hi).afterRequest
  · exact fun j path hj => (h.named j path (named_afterRequest hj).2).afterRequest
  · rw [s3Paths_afterRequest, ← List.concat_eq_append]
    exact h.nodup.concat (h.new i _ hi)
  · intro j path hj hmem
    obtain ⟨hne, hj⟩ := named_afterRequest hj
    rw [s3Paths_afterRequest, List.mem_append, List.mem_singleton] at hmem
    obtain hmem | rfl := hmem
    · exact h.new j path hj hmem
    · exact hne (h.distinct j i _ hj hi)
  · exact fun j l path hj hl =>
      h.distinct j l path (named_afterRequest hj).2 (named_afterRequest hl).2

end Request

/-- What a step does. -/
theorem step_cases {a : Act n} (h : step cfg s a = some s') :
    s' = s ∨
    (∃ i c t, a = .call i c ∧ archivedName cfg c = some t ∧ s' = s.afterCount i c t) ∨
    (∃ i c t k, Counted s i t ∧ s.testsRepeat t = some k ∧
      s' = s.afterRead i c t (s3Path cfg t k)) ∨
    ∃ i r, Named s i r.s3Path ∧ s' = s.afterRequest i r := by
  cases a with
  | call i c =>
    cases hpc : s.pc i with
    | idle =>
      cases ht : archivedName cfg c with
      | none =>
        simp only [step, hpc, ht, Option.some.injEq] at h
        exact .inl h.symm
      | some t =>
        simp only [step, hpc, ht, Option.some.injEq] at h
        exact .inr (.inl ⟨i, c, t, rfl, ht, h.symm⟩)
    | counted _ _ | named _ _ _ =>
      simp only [step, hpc, reduceCtorEq] at h
  | tick i =>
    cases hpc : s.pc i with
    | idle => simp only [step, hpc, reduceCtorEq] at h
    | counted c t =>
      simp only [step, hpc] at h
      obtain ⟨k, hk, rfl⟩ := Option.map_eq_some_iff.mp h
      exact .inr (.inr (.inl ⟨i, c, t, k, ⟨c, hpc⟩, hk, rfl⟩))
    | named c t path =>
      simp only [step, hpc] at h
      obtain ⟨k, -, rfl⟩ := Option.map_eq_some_iff.mp h
      exact .inr (.inr (.inr ⟨i, _, ⟨c, t, hpc⟩, rfl⟩))

theorem Inv.step {a : Act n} (h : Inv cfg s) (hok : Exclusive cfg s a)
    (hstep : TestArchival.step cfg s a = some s') : Inv cfg s' := by
  obtain rfl | ⟨i, c, t, rfl, ht, rfl⟩ | ⟨i, c, t, k, hi, hk, rfl⟩ | ⟨i, r, hi, rfl⟩ :=
    step_cases hstep
  · exact h
  · obtain ⟨hfree, hpath⟩ := hok t ht
    exact h.afterCount hfree hpath
  · exact h.afterRead hi hk
  · exact h.afterRequest hi

end Inv

/-! ## Unique paths -/

/-- **The paths of the archives are distinct** in every run in which no job counts an archive of a
name while another one is between counting and reading the count of this name, and no two archived
names have the same path. -/
theorem s3_paths_unique {n : ℕ} (cfg : Config) (s : State n)
    (h : Reach (step cfg) (Exclusive cfg) (· = start n) s) : (s3Paths s).Nodup := by
  refine (Reach.inv (I := Inv cfg) ?_ (fun s a s' hs hok hstep => hs.step hok hstep) h).nodup
  rintro _ rfl
  exact .start

/-! ## Runs -/

section Runs

variable {n : ℕ} {cfg : Config} {s : State n} {i : Fin n} {c : Call} {t path : String} {k : ℕ}

theorem step_call (hi : s.pc i = .idle) (ht : archivedName cfg c = some t) :
    step cfg s (.call i c) = some (s.afterCount i c t) := by
  simp only [step, hi, ht]
  rfl

theorem step_read (hi : s.pc i = .counted c t) (hk : s.testsRepeat t = some k) :
    step cfg s (.tick i) = some (s.afterRead i c t (s3Path cfg t k)) := by
  simp only [step, hi, hk]
  rfl

theorem step_request (hi : s.pc i = .named c t path) (hk : s.testsRepeat t = some k) :
    step cfg s (.tick i) = some (s.afterRequest i
      ⟨displayName cfg t k, [c.dbpathPrefix], cfg.archiveBucket, path⟩) := by
  simp only [step, hi, hk]
  rfl

/-- The first archive of a name, or one of the only name so far. -/
theorem exclusive_of_idle (hidle : ∀ j, s.pc j = .idle) (ht : archivedName cfg c = some t)
    (hname : ∀ other, s.testsRepeat other ≠ none → other = t) : Exclusive cfg s (.call i c) := by
  intro testName hmem
  obtain rfl : t = testName := Option.some_inj.mp (ht.symm.trans hmem)
  refine ⟨?_, fun other h _ => hname other h⟩
  rintro j ⟨c', hj⟩
  rw [hidle j] at hj
  cases hj

theorem exclusive_tick : Exclusive cfg s (.tick i) := trivial

end Runs

/-- All tests are archived. -/
def archiveAll : Config where
  archiveFile := true
  hasArchiveInstance := true
  onSuccess := false
  archiveAll := true
  tests := []
  hooks := []
  archiveBucket := "mongodatafiles"
  evergreenTaskId := "task"
  evergreenExecution := "0"
  evergreenProjectName := "mongodb-mongo-master"
  evergreenVariantName := "enterprise-rhel-62-64-bit"
  evergreenRevision := "c0ffee"

/-- A test that has failed. -/
def failed (testName : String) : Call where
  testName := testName
  shortName := testName
  dbpathPrefix := "/data/db/job0"
  success := false
  hook := none

theorem archivedName_failed (testName : String) :
    archivedName archiveAll (failed testName) = some testName := rfl

/-- Two jobs archive a test one after the other. -/
theorem s3_paths_unique_repeated : ∃ s : State 2,
    Reach (step archiveAll) (Exclusive archiveAll) (· = start 2) s ∧
      s3Paths s = [s3Path archiveAll "jstests/a.js" 0, s3Path archiveAll "jstests/a.js" 1] ∧
      (s3Paths s).Nodup := by
  have h0 : Reach (step archiveAll) (Exclusive archiveAll) (· = start 2) (start 2) := .start rfl
  have hname := archivedName_failed "jstests/a.js"
  have h1 := h0.next (exclusive_of_idle (i := 0) (fun _ => rfl) hname (fun _ h => absurd rfl h))
    (step_call rfl hname)
  have h2 := h1.next exclusive_tick (step_read (i := 0) rfl rfl)
  have h3 := h2.next exclusive_tick (step_request (i := 0) rfl rfl)
  have h4 := h3.next
    (exclusive_of_idle (i := 1) (by decide) hname fun other h =>
      (count_ne_none.mp h).resolve_right (absurd rfl))
    (step_call rfl hname)
  have h5 := h4.next exclusive_tick (step_read (i := 1) rfl rfl)
  have h6 := h5.next exclusive_tick (step_request (i := 1) rfl rfl)
  exact ⟨_, h6, rfl, s3_paths_unique archiveAll _ h6⟩

/-- Two jobs that archive a test at once give both archives one path, and so does a job that
archives two tests that differ in a `/` and a `_`. -/
theorem s3_paths_clash :
    (∃ s : State 2, Reach (step archiveAll) Free (· = start 2) s ∧
      s3Paths s = [s3Path archiveAll "jstests/a.js" 1, s3Path archiveAll "jstests/a.js" 1] ∧
      ¬ (s3Paths s).Nodup) ∧
    ∃ s : State 1, Reach (step archiveAll) Free (· = start 1) s ∧
      s3Paths s = [s3Path archiveAll "jstests/a/b.js" 0, s3Path archiveAll "jstests/a_b.js" 0] ∧
      ¬ (s3Paths s).Nodup := by
  constructor
  · have h0 : Reach (step archiveAll) Free (· = start 2) (start 2) := .start rfl
    have hname := archivedName_failed "jstests/a.js"
    have h1 := h0.next trivial (step_call (i := 0) rfl hname)
    have h2 := h1.next trivial (step_call (i := 1) rfl hname)
    have h3 := h2.next trivial (step_read (i := 0) rfl rfl)
    have h4 := h3.next trivial (step_read (i := 1) rfl rfl)
    have h5 := h4.next trivial (step_request (i := 0) rfl rfl)
    have h6 := h5.next trivial (step_request (i := 1) rfl rfl)
    exact ⟨_, h6, rfl, fun hnodup => (List.nodup_cons.mp hnodup).1 List.mem_cons_self⟩
  · have h0 : Reach (step archiveAll) Free (· = start 1) (start 1) := .start rfl
    have h1 := h0.next trivial (step_call (i := 0) rfl (archivedName_failed "jstests/a/b.js"))
    have h2 := h1.next trivial (step_read (i := 0) rfl rfl)
    have h3 := h2.next trivial (step_request (i := 0) rfl rfl)
    have h4 := h3.next trivial (step_call (i := 0) rfl (archivedName_failed "jstests/a_b.js"))
    have h5 := h4.next trivial (step_read (i := 0) rfl rfl)
    have h6 := h5.next trivial (step_request (i := 0) rfl rfl)
    have hpath : testPath "jstests/a/b.js" = testPath "jstests/a_b.js" := by decide +kernel
    refine ⟨_, h6, rfl, fun hnodup => ?_⟩
    have hne := (List.nodup_cons.mp hnodup).1
    exact hne (List.mem_singleton.mpr (by rw [s3Path_eq, s3Path_eq, hpath]))

end MongoTests.Resmoke.TestArchival
