import Mathlib.Data.List.Dedup
import Mathlib.Data.Prod.Lex
import Mathlib.Tactic.Ring
import MongoTests.ErrorCodes.Replace
import MongoTests.Lib.SortByKey

/-!
# Fixing the zero codes

`errorcodes.py --fix`: `read_error_codes`, `get_next_code` and `replace_bad_codes`, one after the other.

* `replaceBadCodes`, `fix`: the locations, the last one first, with increasing codes.
* `replaceFiles`: the same with the code of each location; `replaceFiles_file`: what it does with a file.
* `FixedBy`, `Fixed`: the zero codes have become new codes, and nothing else has changed.
* `FixCondition`, **`fix_iff`**: the sets of files for which `--fix` does this.
-/

namespace MongoTests.ErrorCodes

open MongoTests.Lib Dict

abbrev Files := Dict String (List Char)

/-! ## The loop over the locations -/

/-- The tuples in their order. No two locations have the same place. -/
def AssertLocation.key (l : AssertLocation) : String ×ₗ ℕ := toLex l.place

def replaceLocation (files : Files) (nextCode : ℕ) (loc : AssertLocation) : Except Raised Files :=
  match files.get loc.sourceFile with
  | none => .error .fileNotFoundError
  | some raw => do
    let raw' ← replaceRaw nextCode loc raw
    pure (files.set loc.sourceFile raw')

def replaceLoop : List AssertLocation → ℕ → Files → Except Raised Files
  | [], _, files => .ok files
  | loc :: locs, nextCode, files => do
    let files ← replaceLocation files nextCode loc
    replaceLoop locs (nextCode + 1) files

section Fix

variable (uni : Unicode)

def zeroErrors (errors : List AssertLocation) : List AssertLocation := errors.filter fun e => uni.int e.code = 0

/-- `reversed(sorted(set(zero_errors)))` -/
def worklist (errors : List AssertLocation) : List AssertLocation :=
  ((zeroErrors uni errors).dedup.mergeSort fun l l' => l.key ≤ l'.key).reverse

def replaceBadCodes (files : Files) (errors : List AssertLocation) (nextCode : ℕ) : Except Raised Files :=
  replaceLoop (worklist uni errors) nextCode files

def fix (files : Files) : Except Raised Files := do
  let (codes, errors) := readErrorCodes uni files
  let nextCode ← getNextCode uni codes
  replaceBadCodes uni files errors nextCode

end Fix

/-! ## File by file -/

/-- The locations with a given next code for each of them. -/
def replaceFiles (next : AssertLocation → ℕ) (locs : List AssertLocation) (files : Files) :
    Except Raised Files :=
  locs.foldlM (fun files loc => replaceLocation files (next loc) loc) files

/-- The number of locations at later places. -/
def rank (locs : List AssertLocation) (l : AssertLocation) : ℕ := locs.countP fun l' => l.key < l'.key

def inFile (locs : List AssertLocation) (sourceFile : String) : List AssertLocation :=
  locs.filter fun l => l.sourceFile = sourceFile

section Loop

variable {files files' : Files} {locs done : List AssertLocation} {next : AssertLocation → ℕ} {n : ℕ}
  {sourceFile : String} {raw : List Char} {l : AssertLocation}

/-- The codes increase with the number of locations that are done. -/
theorem replaceLoop_eq (hsorted : (done ++ locs).Pairwise fun l l' => l'.key < l.key) :
    replaceLoop locs (n + done.length) files =
      replaceFiles (fun l => n + rank (done ++ locs) l) locs files := by
  induction locs generalizing done files with
  | nil => rfl
  | cons l locs ih =>
    obtain ⟨-, hlocs, hdone⟩ := List.pairwise_append.mp hsorted
    have hrank : rank (done ++ l :: locs) l = done.length := by
      have hbefore : done.countP (fun l' => l.key < l'.key) = done.length := by
        rw [List.countP_eq_length]
        intro l' hl'
        exact decide_eq_true (hdone l' hl' l List.mem_cons_self)
      have hafter : (l :: locs).countP (fun l' => l.key < l'.key) = 0 := by
        rw [List.countP_eq_zero]
        intro l' hl'
        rw [decide_eq_true_eq, not_lt]
        obtain rfl | hl' := List.mem_cons.mp hl'
        · exact le_refl _
        · exact ((List.pairwise_cons.mp hlocs).1 l' hl').le
      rw [rank, List.countP_append, hbefore, hafter, Nat.add_zero]
    have hshift : done ++ l :: locs = done ++ [l] ++ locs := by simp
    rw [replaceLoop, replaceFiles, List.foldlM_cons, hrank]
    refine congrArg (replaceLocation files (n + done.length) l >>= ·) (funext fun files₁ => ?_)
    have hlength : n + done.length + 1 = n + (done ++ [l]).length := by
      rw [List.length_append, List.length_singleton, Nat.add_assoc]
    rw [hshift] at hsorted ⊢
    rw [hlength, ih hsorted]
    rfl

theorem replaceLocation_eq_ok : replaceLocation files n l = .ok files' ↔
    ∃ raw raw', files.get l.sourceFile = some raw ∧ replaceRaw n l raw = .ok raw' ∧
      files' = files.set l.sourceFile raw' := by
  unfold replaceLocation
  cases hget : files.get l.sourceFile with
  | none => simp
  | some raw =>
    dsimp only
    rw [bind_eq_ok]
    constructor
    · rintro ⟨raw', hraw, h⟩
      cases h
      exact ⟨raw, raw', rfl, hraw, rfl⟩
    · rintro ⟨_, raw', h, hraw, rfl⟩
      cases h
      exact ⟨raw', hraw, rfl⟩

theorem inFile_cons_self (h : l.sourceFile = sourceFile) :
    inFile (l :: locs) sourceFile = l :: inFile locs sourceFile :=
  List.filter_cons_of_pos (decide_eq_true h)

theorem inFile_cons_ne (h : l.sourceFile ≠ sourceFile) :
    inFile (l :: locs) sourceFile = inFile locs sourceFile :=
  List.filter_cons_of_neg (by rw [decide_eq_true_eq]; exact h)

/-- A file is changed by its own locations. -/
theorem replaceFiles_file (h : replaceFiles next locs files = .ok files') :
    (∀ raw, files.get sourceFile = some raw → ∃ raw',
      replaceRaws next (inFile locs sourceFile) raw = .ok raw' ∧ files'.get sourceFile = some raw') ∧
    (files.get sourceFile = none → files'.get sourceFile = none) := by
  induction locs generalizing files with
  | nil =>
    cases h
    exact ⟨fun raw hraw => ⟨raw, rfl, hraw⟩, id⟩
  | cons l locs ih =>
    rw [replaceFiles, List.foldlM_cons] at h
    obtain ⟨files₁, hstep, h⟩ := bind_eq_ok.mp h
    obtain ⟨raw₀, raw₁, hget₀, hraw₁, rfl⟩ := replaceLocation_eq_ok.mp hstep
    obtain ⟨hsome, hnone⟩ := ih h
    rw [get_set] at hsome hnone
    by_cases heq : l.sourceFile = sourceFile
    · subst heq
      rw [if_pos rfl] at hsome hnone
      refine ⟨fun raw hraw => ?_, fun hget => ?_⟩
      · rw [hget₀] at hraw
        cases hraw
        obtain ⟨raw', hrest, hget'⟩ := hsome raw₁ rfl
        refine ⟨raw', ?_, hget'⟩
        rw [inFile_cons_self rfl, replaceRaws, List.foldlM_cons]
        exact bind_eq_ok.mpr ⟨raw₁, hraw₁, hrest⟩
      · rw [hget₀] at hget
        cases hget
    · rw [if_neg (Ne.symm heq)] at hsome hnone
      rw [inFile_cons_ne heq]
      exact ⟨hsome, hnone⟩

theorem exists_replaceFiles (hlocs : ∀ l ∈ locs, (files.get l.sourceFile).isSome)
    (h : ∀ sourceFile raw, files.get sourceFile = some raw →
      ∃ raw', replaceRaws next (inFile locs sourceFile) raw = .ok raw') :
    ∃ files', replaceFiles next locs files = .ok files' := by
  induction locs generalizing files with
  | nil => exact ⟨files, rfl⟩
  | cons l locs ih =>
    obtain ⟨hl, hlocs⟩ := List.forall_mem_cons.mp hlocs
    obtain ⟨raw, hraw⟩ := Option.isSome_iff_exists.mp hl
    obtain ⟨raw', hrun⟩ := h l.sourceFile raw hraw
    rw [inFile_cons_self rfl, replaceRaws, List.foldlM_cons] at hrun
    obtain ⟨raw₁, hstep, hrun⟩ := bind_eq_ok.mp hrun
    have hsome : ∀ l' ∈ locs, ((files.set l.sourceFile raw₁).get l'.sourceFile).isSome := by
      intro l' hl'
      rw [get_set]
      split_ifs
      · rfl
      · exact hlocs l' hl'
    obtain ⟨files', hfiles'⟩ := ih hsome fun sourceFile raw₂ hraw₂ => by
      rw [get_set] at hraw₂
      split_ifs at hraw₂ with heq
      · cases hraw₂
        exact ⟨raw', heq ▸ hrun⟩
      · obtain ⟨raw₃, hrun₃⟩ := h sourceFile raw₂ hraw₂
        rw [inFile_cons_ne (Ne.symm heq)] at hrun₃
        exact ⟨raw₃, hrun₃⟩
    refine ⟨files', ?_⟩
    rw [replaceFiles, List.foldlM_cons]
    exact bind_eq_ok.mpr ⟨_, replaceLocation_eq_ok.mpr ⟨raw, raw₁, hraw, hstep, rfl⟩, hfiles'⟩

end Loop

/-! ## What `--fix` is for -/

section Condition

variable (uni : Unicode)

def zeroCodes (files : Files) : List AssertLocation :=
  (parseSourceFiles uni files).filter fun l => uni.int l.code = 0

/-- The zero codes of a file in their order. -/
def zeroCodesIn (files : Files) (sourceFile : String) : List AssertLocation :=
  (inFile (zeroCodes uni files) sourceFile).mergeSort fun l l' => l.byteOffset ≤ l'.byteOffset

/-- A code that is put in place of another, character by character. -/
def unitEdit (new : AssertLocation → List Char) (l : AssertLocation) : Edit (List Char) :=
  (editOf new l).map fun c => [c]

/-- Each zero code has become its new code. The new codes differ from each other and from all codes
that were there, and outside of them no character has changed. -/
structure FixedBy (new : AssertLocation → List Char) (files files' : Files) : Prop where
  isCode : ∀ l ∈ zeroCodes uni files, new l ≠ [] ∧ ∀ c ∈ new l, uni.isDigit c
  injective : ∀ l ∈ zeroCodes uni files, ∀ l' ∈ zeroCodes uni files,
    uni.int (new l) = uni.int (new l') → l = l'
  fresh : ∀ l ∈ zeroCodes uni files, ∀ l' ∈ parseSourceFiles uni files,
    uni.int (new l) ≠ uni.int l'.code
  text : ∀ sourceFile raw, files.get sourceFile = some raw → ∃ raw', files'.get sourceFile = some raw' ∧
    units raw' = splice 0 ((zeroCodesIn uni files sourceFile).map (unitEdit new)) (units raw)
  noFile : ∀ sourceFile, files.get sourceFile = none → files'.get sourceFile = none

/-- The zero codes are fixed completely. -/
def Fixed (files files' : Files) : Prop := ∃ new, FixedBy uni new files files'

/-- There are codes, and only zero codes can be errors. -/
structure OnlyZeroErrors (files : Files) : Prop where
  ne_nil : parseSourceFiles uni files ≠ []
  distinct : ((parseSourceFiles uni files).filter fun l => uni.int l.code ≠ 0).Pairwise
    fun l l' => uni.int l.code ≠ uni.int l'.code
  le_maximumCode : ∀ l ∈ parseSourceFiles uni files, uni.int l.code ≤ maximumCode

/-- What the files have to be like for it. -/
structure FixCondition (files : Files) : Prop where
  two_le : 2 ≤ (parseSourceFiles uni files).length
  /-- A zero code is spelled `0`, or its spelling starts with `0` and occurs again. -/
  spelling : ∀ l ∈ zeroCodes uni files, l.code = ['0'] ∨
    2 ≤ (withCode (parseSourceFiles uni files) l.code).length ∧ l.code.head? = some '0'
  /-- The line boundaries in front of the code are fewer than the lines that end in newlines. -/
  lines : ∀ l ∈ zeroCodes uni files, ∀ raw, files.get l.sourceFile = some raw → '\r' ∉ raw ∧
    (raw.take l.byteOffset).countP isLineBoundary < (readlines raw).length
  /-- The zeros that stay behind the first one do not make two new codes equal. -/
  distinct : ∀ l ∈ zeroCodes uni files, ∀ l' ∈ zeroCodes uni files,
    (nextCode uni (parseSourceFiles uni files) + rank (zeroCodes uni files) l) * 10 ^ (l.code.length - 1) =
      (nextCode uni (parseSourceFiles uni files) + rank (zeroCodes uni files) l') * 10 ^ (l'.code.length - 1) →
    l = l'

end Condition

/-! ## Numbers -/

section Numbers

variable {uni : Unicode}

theorem isDigit_of_ascii {c : Char} (h : c.isDigit) : uni.digit? c = some (c.toNat - '0'.toNat) := by
  have hle : c.toNat ≤ '9'.toNat := (Char.isDigit_iff_toNat.mp h).2
  have hnine : '9'.toNat < 128 := by decide
  rw [uni.digit?_ascii c (hle.trans_lt hnine), if_pos h]

theorem int_toDigits (n : ℕ) : uni.int (Nat.toDigits 10 n) = n := by
  have hvalue : ∀ cs : List Char, (∀ c ∈ cs, c.isDigit) → ∀ m,
      cs.foldl (fun n c => 10 * n + (uni.digit? c).getD 0) m =
        cs.foldl (fun n c => 10 * n + (c.toNat - '0'.toNat)) m := by
    intro cs hcs
    induction cs with
    | nil => exact fun m => rfl
    | cons c cs ih =>
      intro m
      obtain ⟨hc, hcs⟩ := List.forall_mem_cons.mp hcs
      rw [List.foldl_cons, List.foldl_cons, isDigit_of_ascii hc, Option.getD_some, ih hcs]
  rw [Unicode.int, hvalue _ (fun c hc => Nat.isDigit_of_mem_toDigits (by decide) (by decide) hc),
    ← Nat.ofDigitChars_eq_foldl, Nat.ofDigitChars_ten_toDigits]

theorem int_append (s t : List Char) : uni.int (s ++ t) = uni.int s * 10 ^ t.length + uni.int t := by
  induction t using List.reverseRecOn with
  | nil => simp [Unicode.int]
  | append_singleton t c ih =>
    rw [← List.append_assoc, Unicode.int, List.foldl_concat, ← Unicode.int, ih, Unicode.int, Unicode.int,
      Unicode.int, List.foldl_concat, List.length_append, List.length_singleton, pow_succ]
    ring

/-- The zeros behind the first one multiply the new code. -/
theorem int_replacement {next : AssertLocation → ℕ} {l : AssertLocation} (h : uni.int l.code = 0) :
    uni.int (replacement next l) = next l * 10 ^ (l.code.length - 1) := by
  have htail : uni.int l.code.tail = 0 := by
    cases hcode : l.code with
    | nil => rfl
    | cons c cs =>
      rw [hcode, ← List.singleton_append, int_append] at h
      exact (Nat.add_eq_zero_iff.mp h).2
  rw [replacement, int_append, int_toDigits, htail, Nat.add_zero, List.length_tail]

end Numbers

/-! ## The locations in their orders -/

section Orders

variable {uni : Unicode} {files : Files} {sourceFile : String} {raw raw' : List Char} {l l' : AssertLocation}
  {next : AssertLocation → ℕ}

theorem mem_zeroCodes : l ∈ zeroCodes uni files ↔ l ∈ parseSourceFiles uni files ∧ uni.int l.code = 0 := by
  rw [zeroCodes, List.mem_filter, decide_eq_true_eq]

theorem mem_inFile {locs : List AssertLocation} :
    l ∈ inFile locs sourceFile ↔ l ∈ locs ∧ l.sourceFile = sourceFile := by
  rw [inFile, List.mem_filter, decide_eq_true_eq]

theorem mem_zeroCodesIn :
    l ∈ zeroCodesIn uni files sourceFile ↔ l ∈ zeroCodes uni files ∧ l.sourceFile = sourceFile := by
  rw [zeroCodesIn, List.mem_mergeSort, mem_inFile]

theorem mem_worklist : l ∈ worklist uni (readErrorCodes uni files).2 ↔ l ∈ zeroCodes uni files ∧
    (l.code = ['0'] ∨ 2 ≤ (withCode (parseSourceFiles uni files) l.code).length) := by
  rw [worklist, List.mem_reverse, List.mem_mergeSort, List.mem_dedup, zeroErrors, List.mem_filter,
    decide_eq_true_eq, mem_zeroCodes]
  constructor
  · rintro ⟨herror, hl⟩
    obtain ⟨hmem, hor⟩ := (mem_errors hl).mp herror
    exact ⟨⟨hmem, hl⟩, hor⟩
  · rintro ⟨⟨hmem, hl⟩, hor⟩
    exact ⟨(mem_errors hl).mpr ⟨hmem, hor⟩, hl⟩

theorem eq_of_key_eq (hl : l ∈ zeroCodes uni files) (hl' : l' ∈ zeroCodes uni files) (h : l.key = l'.key) :
    l = l' :=
  List.inj_on_of_nodup_map (nodup_place files) (mem_zeroCodes.mp hl).1 (mem_zeroCodes.mp hl').1
    (toLex.injective h)

variable (uni) in
/-- The last location comes first. -/
theorem pairwise_worklist (files : Files) :
    (worklist uni (readErrorCodes uni files).2).Pairwise fun l l' => l'.key < l.key := by
  have hmem : ∀ l ∈ (zeroErrors uni (readErrorCodes uni files).2).dedup, l ∈ zeroCodes uni files :=
    fun l hl => (mem_worklist.mp (List.mem_reverse.mpr (List.mem_mergeSort.mpr hl))).1
  rw [worklist, List.pairwise_reverse]
  exact pairwise_lt_mergeSort_key (List.nodup_dedup _)
    fun l hl l' hl' => eq_of_key_eq (hmem l hl) (hmem l' hl')

/-- In a file the offsets decide. -/
theorem key_lt_key (h : l.sourceFile = l'.sourceFile) : l.key < l'.key ↔ l.byteOffset < l'.byteOffset := by
  rw [AssertLocation.key, AssertLocation.key, Prod.Lex.toLex_lt_toLex]
  simp [AssertLocation.place, h]

theorem nodup_zeroCodes (files : Files) : (zeroCodes uni files).Nodup :=
  (List.Nodup.of_map _ (nodup_place files)).filter _

variable (uni) in
theorem pairwise_zeroCodesIn (files : Files) (sourceFile : String) :
    (zeroCodesIn uni files sourceFile).Pairwise fun l l' => l.byteOffset < l'.byteOffset := by
  refine pairwise_lt_mergeSort_key ((nodup_zeroCodes files).filter _) fun l hl l' hl' heq => ?_
  obtain ⟨hzero, hfile⟩ := mem_inFile.mp hl
  obtain ⟨hzero', hfile'⟩ := mem_inFile.mp hl'
  refine eq_of_key_eq hzero hzero' ?_
  rw [AssertLocation.key, AssertLocation.key, AssertLocation.place, AssertLocation.place, hfile, hfile', heq]

variable (uni) in
/-- The locations of a file, in the order in which they are replaced. -/
theorem pairwise_inFile_worklist (files : Files) (sourceFile : String) :
    (inFile (worklist uni (readErrorCodes uni files).2) sourceFile).Pairwise
      fun l l' => l'.byteOffset < l.byteOffset :=
  ((pairwise_worklist uni files).filter _).imp_of_mem fun hl hl' h =>
    (key_lt_key ((mem_inFile.mp hl').2.trans (mem_inFile.mp hl).2.symm)).mp h

theorem codeAt_of_mem_zeroCodes (hl : l ∈ zeroCodes uni files) (hget : files.get l.sourceFile = some raw) :
    CodeAt uni (readText raw) l.byteOffset l.code := by
  obtain ⟨raw', hget', h⟩ := codeAt_of_mem (mem_zeroCodes.mp hl).1
  rw [hget] at hget'
  cases hget'
  exact h

theorem reverse_inFile_worklist (files : Files) (sourceFile : String) :
    (inFile (worklist uni (readErrorCodes uni files).2) sourceFile).reverse =
      (zeroCodesIn uni files sourceFile).filter fun l => l ∈ worklist uni (readErrorCodes uni files).2 := by
  refine eq_of_pairwise_lt_key (List.pairwise_reverse.mpr (pairwise_inFile_worklist uni files sourceFile))
    ((pairwise_zeroCodesIn uni files sourceFile).filter _) fun l => ?_
  rw [List.mem_reverse, mem_inFile, List.mem_filter, decide_eq_true_eq, mem_zeroCodesIn, mem_worklist]
  tauto

theorem rank_eq (hmem : ∀ l ∈ zeroCodes uni files, l ∈ worklist uni (readErrorCodes uni files).2)
    (l : AssertLocation) :
    rank (worklist uni (readErrorCodes uni files).2) l = rank (zeroCodes uni files) l := by
  have hnodup : (worklist uni (readErrorCodes uni files).2).Nodup := by
    refine (pairwise_worklist uni files).imp ?_
    rintro l _ hlt rfl
    exact lt_irrefl _ hlt
  refine List.Perm.countP_eq _ ((List.perm_ext_iff_of_nodup hnodup (nodup_zeroCodes files)).mpr fun l => ?_)
  exact ⟨fun hl => (mem_worklist.mp hl).1, hmem l⟩

end Orders

/-! ## The texts -/

section Texts

variable {uni : Unicode} {files files' : Files} {sourceFile : String} {raw raw' : List Char}
  {l : AssertLocation} {new : AssertLocation → List Char} {next : AssertLocation → ℕ}

theorem isDigit_replacement (hl : l ∈ zeroCodes uni files) : ∀ c ∈ replacement next l, uni.isDigit c := by
  intro c hc
  obtain ⟨raw, hget, hcode⟩ := codeAt_of_mem (mem_zeroCodes.mp hl).1
  rw [replacement, List.mem_append] at hc
  obtain hc | hc := hc
  · rw [Unicode.isDigit, isDigit_of_ascii (Nat.isDigit_of_mem_toDigits (by decide) (by decide) hc)]
    rfl
  · exact hcode.isDigit c (List.mem_of_mem_tail hc)

theorem codeAt_of_mem_zeroCodesIn (hget : files.get sourceFile = some raw)
    (hl : l ∈ zeroCodesIn uni files sourceFile) : CodeAt uni (readText raw) l.byteOffset l.code := by
  obtain ⟨hzero, rfl⟩ := mem_zeroCodesIn.mp hl
  exact codeAt_of_mem_zeroCodes hzero hget

/-- A text without carriage returns is that of its file. -/
theorem codeAt_of_mem_inFile (hget : files.get sourceFile = some raw) (hr : '\r' ∉ raw)
    (hl : l ∈ inFile (worklist uni (readErrorCodes uni files).2) sourceFile) :
    CodeAt uni raw l.byteOffset l.code := by
  rw [← List.mem_reverse, reverse_inFile_worklist, List.mem_filter] at hl
  have hcode := codeAt_of_mem_zeroCodesIn hget hl.1
  rwa [readText_of_notMem hr] at hcode

/-- Between two zero codes of a file there is a character that is no digit. -/
theorem pairwise_offset_lt (hget : files.get sourceFile = some raw) :
    (zeroCodesIn uni files sourceFile).Pairwise fun l l' => l.byteOffset + l.code.length < l'.byteOffset :=
  (pairwise_zeroCodesIn uni files sourceFile).imp_of_mem fun hl hl' hlt =>
    (codeAt_of_mem_zeroCodesIn hget hl).offset_lt (codeAt_of_mem_zeroCodesIn hget hl') hlt

/-- The zero codes that are no errors stay as they are. -/
def codeAfter (uni : Unicode) (files : Files) (next : AssertLocation → ℕ) (l : AssertLocation) : List Char :=
  if l ∈ worklist uni (readErrorCodes uni files).2 then replacement next l else l.code

theorem isDigit_codeAfter (hl : l ∈ zeroCodes uni files) : ∀ c ∈ codeAfter uni files next l, uni.isDigit c := by
  unfold codeAfter
  split_ifs
  · exact isDigit_replacement hl
  · obtain ⟨raw, hget, hcode⟩ := codeAt_of_mem (mem_zeroCodes.mp hl).1
    exact hcode.isDigit

/-- **What becomes of a file**, if it has no carriage return or nothing to replace. -/
theorem units_replaceRaws (hget : files.get sourceFile = some raw)
    (h : replaceRaws next (inFile (worklist uni (readErrorCodes uni files).2) sourceFile) raw = .ok raw')
    (hr : inFile (worklist uni (readErrorCodes uni files).2) sourceFile = [] ∨ '\r' ∉ raw) :
    units raw' = splice 0 ((zeroCodesIn uni files sourceFile).map (unitEdit (codeAfter uni files next)))
      (units raw) := by
  set locs := inFile (worklist uni (readErrorCodes uni files).2) sourceFile with hlocs
  have hall : splice 0 (locs.reverse.map (unitEdit (codeAfter uni files next))) (units raw) =
      splice 0 ((zeroCodesIn uni files sourceFile).map (unitEdit (codeAfter uni files next))) (units raw) := by
    rw [hlocs, reverse_inFile_worklist]
    refine splice_filter (fun _ _ => Nat.zero_le _) ((pairwise_offset_lt hget).imp le_of_lt) fun l hl hq => ?_
    have hkept : codeAfter uni files next l = l.code := if_neg (of_decide_eq_false hq)
    exact (codeAt_of_mem_zeroCodesIn hget hl).units_drop_take.trans (congrArg (List.map _) hkept.symm)
  rw [← hall]
  obtain hnil | hr := hr
  · rw [hnil] at h ⊢
    cases h
    rfl
  · have hcodes : ∀ l ∈ locs, CodeAt uni raw l.byteOffset l.code :=
      fun l hl => codeAt_of_mem_inFile hget hr hl
    obtain ⟨-, rfl⟩ := (replaceRaws_eq_ok hr hcodes (pairwise_inFile_worklist uni files sourceFile)).mp h
    have hr' : '\r' ∉ splice 0 (locs.reverse.map (editOf (replacement next))) raw :=
      notMem_splice_editOf (fun l hl => hcodes l (List.mem_reverse.mp hl)) (by decide) (by decide) hr
    rw [units_of_notMem hr', units_of_notMem hr, ← splice_map, List.map_map]
    refine congrArg (splice 0 · _) (List.map_congr_left fun l hl => ?_)
    have hafter : codeAfter uni files next l = replacement next l :=
      if_pos (mem_inFile.mp (List.mem_reverse.mp hl)).1
    rw [Function.comp_apply, unitEdit, editOf, editOf, hafter]

/-- A code that only digits take the place of has no carriage return before or after. -/
theorem countP_splice_unitEdit (hget : files.get sourceFile = some raw)
    (hnew : ∀ l ∈ zeroCodesIn uni files sourceFile, ∀ c ∈ new l, uni.isDigit c) :
    (splice 0 ((zeroCodesIn uni files sourceFile).map (unitEdit new)) (units raw)).countP (fun u => '\r' ∈ u) =
      (units raw).countP fun u => '\r' ∈ u := by
  have hdigits : ∀ {cs : List Char}, (∀ c ∈ cs, uni.isDigit c) →
      (cs.map fun c => [c]).countP (fun u => '\r' ∈ u) = 0 := by
    intro cs hcs
    rw [List.countP_eq_zero]
    intro u hu
    obtain ⟨c, hc, rfl⟩ := List.mem_map.mp hu
    rw [decide_eq_true_eq, List.mem_singleton]
    rintro rfl
    have := hcs _ hc
    rw [(not_isDigit_newline uni).1] at this
    cases this
  refine countP_splice (fun _ _ => Nat.zero_le _) ?_ ?_ ?_
  · rw [List.pairwise_map]
    exact (pairwise_offset_lt hget).imp le_of_lt
  all_goals
    intro e he
    obtain ⟨l, hl, rfl⟩ := List.mem_map.mp he
  · exact hdigits (hnew l hl)
  · have hcode := codeAt_of_mem_zeroCodesIn hget hl
    refine (congrArg (List.countP _) hcode.units_drop_take).trans (hdigits hcode.isDigit)

/-- The codes can be read off the text. -/
theorem eq_of_splice_unitEdit {new' : AssertLocation → List Char} (hget : files.get sourceFile = some raw)
    (hnew : ∀ l ∈ zeroCodesIn uni files sourceFile, ∀ c ∈ new l, uni.isDigit c)
    (hnew' : ∀ l ∈ zeroCodesIn uni files sourceFile, ∀ c ∈ new' l, uni.isDigit c)
    (h : splice 0 ((zeroCodesIn uni files sourceFile).map (unitEdit new)) (units raw) =
      splice 0 ((zeroCodesIn uni files sourceFile).map (unitEdit new')) (units raw)) :
    ∀ l ∈ zeroCodesIn uni files sourceFile, new l = new' l := by
  have hall : ∀ {cs : List Char}, (∀ c ∈ cs, uni.isDigit c) →
      ∀ u ∈ cs.map fun c => [c], u.all uni.isDigit = true := by
    intro cs hcs u hu
    obtain ⟨c, hc, rfl⟩ := List.mem_map.mp hu
    rw [List.all_cons, List.all_nil, Bool.and_true]
    exact hcs c hc
  have hmap : ∀ l ∈ zeroCodesIn uni files sourceFile,
      ((new l).map fun c => [c]) = (new' l).map fun c => [c] := by
    refine new_eq_of_splice_eq (p := fun u => u.all uni.isDigit) (fun l hl => ?_) (pairwise_offset_lt hget)
      (fun l hl u hu => ?_) (fun l hl => hall (hnew l hl)) (fun l hl => hall (hnew' l hl)) h
    · have hcode := codeAt_of_mem_zeroCodesIn hget hl
      have hlength : (readText raw).length = (units raw).length := List.length_map _
      refine ⟨Nat.zero_le _, ?_, hcode.length_pos⟩
      rw [Nat.zero_add, ← hlength]
      exact hcode.add_length_le
    · exact (codeAt_of_mem_zeroCodesIn hget hl).head?_units hu
  exact fun l hl => List.map_injective_iff.mpr (fun c c' hc => (List.cons.inj hc).1) (hmap l hl)

end Texts

/-! ## When the zero codes are fixed -/

section Result

variable {uni : Unicode} {files files' : Files} {l l' : AssertLocation} {new : AssertLocation → List Char}

/-- The code that a zero code gets. -/
def nextCodeOf (uni : Unicode) (files : Files) (l : AssertLocation) : ℕ :=
  nextCode uni (parseSourceFiles uni files) + rank (worklist uni (readErrorCodes uni files).2) l

theorem fix_eq (files : Files) : fix uni files =
    if 2 ≤ (parseSourceFiles uni files).length then
      replaceFiles (nextCodeOf uni files) (worklist uni (readErrorCodes uni files).2) files
    else .error .typeError := by
  have hsteps : fix uni files = (getNextCode uni (readErrorCodes uni files).1 >>= fun nextCode =>
      replaceBadCodes uni files (readErrorCodes uni files).2 nextCode) := rfl
  rw [hsteps, fst_readErrorCodes, getNextCode_eq]
  split_ifs
  · have hloop := @replaceLoop_eq files (worklist uni (readErrorCodes uni files).2) []
    exact hloop (pairwise_worklist uni files)
  · rfl

/-- Zero codes that have become codes had no carriage return in their files. -/
theorem FixedBy.eq_codeAfter {next : AssertLocation → ℕ} (hfixed : FixedBy uni new files files')
    (h : replaceFiles next (worklist uni (readErrorCodes uni files).2) files = .ok files')
    {sourceFile : String} {raw : List Char} (hget : files.get sourceFile = some raw) :
    (inFile (worklist uni (readErrorCodes uni files).2) sourceFile = [] ∨ '\r' ∉ raw) ∧
      ∀ l ∈ zeroCodesIn uni files sourceFile, new l = codeAfter uni files next l := by
  obtain ⟨raw', hrun, hget'⟩ := (replaceFiles_file h).1 raw hget
  obtain ⟨_, htext', htext⟩ := hfixed.text sourceFile raw hget
  rw [hget'] at htext'
  cases htext'
  have hnew : ∀ l ∈ zeroCodesIn uni files sourceFile, ∀ c ∈ new l, uni.isDigit c :=
    fun l hl => (hfixed.isCode l (mem_zeroCodesIn.mp hl).1).2
  have hcount : raw'.count '\r' = raw.count '\r' := by
    rw [← countP_units, htext, countP_splice_unitEdit hget hnew, countP_units]
  have hr : inFile (worklist uni (readErrorCodes uni files).2) sourceFile = [] ∨ '\r' ∉ raw := by
    by_contra hor
    rw [not_or, not_not] at hor
    exact absurd hcount ((count_of_replaceRaws hrun).2 hor.1 hor.2).ne
  refine ⟨hr, eq_of_splice_unitEdit hget hnew (fun l hl => ?_) ?_⟩
  · exact isDigit_codeAfter (mem_zeroCodesIn.mp hl).1
  · rw [← htext, units_replaceRaws hget hrun hr]

theorem FixedBy.fixCondition (hfixed : FixedBy uni new files files') (h : fix uni files = .ok files') :
    FixCondition uni files := by
  rw [fix_eq] at h
  split_ifs at h with htwo
  have hafter : ∀ l ∈ zeroCodes uni files, new l = codeAfter uni files (nextCodeOf uni files) l := by
    intro l hl
    obtain ⟨raw, hget, -⟩ := codeAt_of_mem (mem_zeroCodes.mp hl).1
    exact (hfixed.eq_codeAfter h hget).2 l (mem_zeroCodesIn.mpr ⟨hl, rfl⟩)
  have hmem : ∀ l ∈ zeroCodes uni files, l ∈ worklist uni (readErrorCodes uni files).2 := by
    intro l hl
    by_contra hnot
    refine hfixed.fresh l hl l (mem_zeroCodes.mp hl).1 ?_
    rw [hafter l hl, codeAfter, if_neg hnot]
  have hnew : ∀ l ∈ zeroCodes uni files, new l = replacement (nextCodeOf uni files) l := by
    intro l hl
    rw [hafter l hl, codeAfter, if_pos (hmem l hl)]
  have hchecks : ∀ l ∈ zeroCodes uni files, ∀ raw, files.get l.sourceFile = some raw → '\r' ∉ raw ∧
      (raw.take l.byteOffset).countP isLineBoundary < (readlines raw).length ∧ l.code.head? = some '0' := by
    intro l hl raw hget
    have hlocs : l ∈ inFile (worklist uni (readErrorCodes uni files).2) l.sourceFile :=
      mem_inFile.mpr ⟨hmem l hl, rfl⟩
    have hr := (hfixed.eq_codeAfter h hget).1.resolve_left (List.ne_nil_of_mem hlocs)
    obtain ⟨raw', hrun, -⟩ := (replaceFiles_file h).1 raw hget
    exact ⟨hr, ((replaceRaws_eq_ok hr (fun l' hl' => codeAt_of_mem_inFile hget hr hl')
      (pairwise_inFile_worklist uni files l.sourceFile)).mp hrun).1 l hlocs⟩
  refine ⟨htwo, fun l hl => ?_, fun l hl raw hget => ?_, fun l hl l' hl' heq => ?_⟩
  · obtain ⟨raw, hget, -⟩ := codeAt_of_mem (mem_zeroCodes.mp hl).1
    exact (mem_worklist.mp (hmem l hl)).2.imp_right fun htwo => ⟨htwo, (hchecks l hl raw hget).2.2⟩
  · obtain ⟨hr, hlines, -⟩ := hchecks l hl raw hget
    exact ⟨hr, hlines⟩
  · refine hfixed.injective l hl l' hl' ?_
    rw [hnew l hl, hnew l' hl', int_replacement (mem_zeroCodes.mp hl).2, int_replacement (mem_zeroCodes.mp hl').2,
      nextCodeOf, nextCodeOf, rank_eq hmem, rank_eq hmem, heq]

theorem FixCondition.mem_worklist (h : FixCondition uni files) (hl : l ∈ zeroCodes uni files) :
    l ∈ worklist uni (readErrorCodes uni files).2 :=
  ErrorCodes.mem_worklist.mpr ⟨hl, (h.spelling l hl).imp_right And.left⟩

theorem FixCondition.head?_code (h : FixCondition uni files) (hl : l ∈ zeroCodes uni files) :
    l.code.head? = some '0' := by
  obtain hcode | ⟨-, hhead⟩ := h.spelling l hl
  · rw [hcode, List.head?_cons]
  · exact hhead

section File

variable {sourceFile : String} {raw : List Char}

theorem FixCondition.lines_of_mem (h : FixCondition uni files) (hget : files.get sourceFile = some raw)
    (hl : l ∈ inFile (worklist uni (readErrorCodes uni files).2) sourceFile) :
    l ∈ zeroCodes uni files ∧ '\r' ∉ raw ∧
      (raw.take l.byteOffset).countP isLineBoundary < (readlines raw).length := by
  obtain ⟨hlocs, rfl⟩ := mem_inFile.mp hl
  have hzero := (ErrorCodes.mem_worklist.mp hlocs).1
  exact ⟨hzero, h.lines l hzero raw hget⟩

theorem FixCondition.inFile_eq_nil_or (h : FixCondition uni files) (hget : files.get sourceFile = some raw) :
    inFile (worklist uni (readErrorCodes uni files).2) sourceFile = [] ∨ '\r' ∉ raw := by
  refine or_iff_not_imp_left.mpr fun hne => ?_
  obtain ⟨l, hl⟩ := List.exists_mem_of_ne_nil _ hne
  exact (h.lines_of_mem hget hl).2.1

theorem FixCondition.exists_replaceRaws (h : FixCondition uni files) (hget : files.get sourceFile = some raw)
    (next : AssertLocation → ℕ) : ∃ raw',
      replaceRaws next (inFile (worklist uni (readErrorCodes uni files).2) sourceFile) raw = .ok raw' := by
  obtain hnil | hr := h.inFile_eq_nil_or hget
  · rw [hnil]
    exact ⟨raw, rfl⟩
  · refine ⟨_, (replaceRaws_eq_ok hr (fun l hl => codeAt_of_mem_inFile hget hr hl)
      (pairwise_inFile_worklist uni files sourceFile)).mpr ⟨fun l hl => ?_, rfl⟩⟩
    obtain ⟨hzero, -, hlines⟩ := h.lines_of_mem hget hl
    exact ⟨hlines, h.head?_code hzero⟩

end File

theorem FixCondition.exists_fix (h : FixCondition uni files) : ∃ files', fix uni files = .ok files' := by
  have hfiles : ∀ l ∈ worklist uni (readErrorCodes uni files).2, (files.get l.sourceFile).isSome := by
    intro l hl
    obtain ⟨raw, hget, -⟩ := codeAt_of_mem (mem_zeroCodes.mp (ErrorCodes.mem_worklist.mp hl).1).1
    rw [hget]
    rfl
  rw [fix_eq, if_pos h.two_le]
  exact exists_replaceFiles hfiles fun _ _ hget => h.exists_replaceRaws hget _

theorem FixCondition.fixedBy (h : FixCondition uni files) (hfix : fix uni files = .ok files') :
    FixedBy uni (replacement (nextCodeOf uni files)) files files' := by
  rw [fix_eq, if_pos h.two_le] at hfix
  have hmem : ∀ l ∈ zeroCodes uni files, l ∈ worklist uni (readErrorCodes uni files).2 :=
    fun l hl => h.mem_worklist hl
  constructor
  case isCode => exact fun l hl => ⟨replacement_ne_nil, isDigit_replacement hl⟩
  case injective =>
    intro l hl l' hl' heq
    rw [int_replacement (mem_zeroCodes.mp hl).2, int_replacement (mem_zeroCodes.mp hl').2, nextCodeOf,
      nextCodeOf, rank_eq hmem, rank_eq hmem] at heq
    exact h.distinct l hl l' hl' heq
  case fresh =>
    intro l hl l' hl'
    have hlt : uni.int l'.code < nextCodeOf uni files l * 10 ^ (l.code.length - 1) :=
      calc uni.int l'.code < nextCode uni (parseSourceFiles uni files) := int_lt_nextCode hl'
        _ ≤ nextCodeOf uni files l := Nat.le_add_right _ _
        _ ≤ nextCodeOf uni files l * 10 ^ (l.code.length - 1) :=
          Nat.le_mul_of_pos_right _ (Nat.pow_pos (by decide))
    rw [int_replacement (mem_zeroCodes.mp hl).2]
    exact hlt.ne'
  case text =>
    intro sourceFile raw hget
    obtain ⟨raw', hrun, hget'⟩ := (replaceFiles_file hfix).1 raw hget
    refine ⟨raw', hget', ?_⟩
    rw [units_replaceRaws hget hrun (h.inFile_eq_nil_or hget)]
    refine congrArg (splice 0 · _) (List.map_congr_left fun l hl => ?_)
    have hafter : codeAfter uni files (nextCodeOf uni files) l = replacement (nextCodeOf uni files) l :=
      if_pos (hmem l (mem_zeroCodesIn.mp hl).1)
    rw [unitEdit, editOf, hafter, unitEdit, editOf]
  case noFile => exact fun sourceFile hget => (replaceFiles_file hfix).2 hget

variable (uni files) in
/-- **The sets of files whose zero codes are fixed**: the exact condition. -/
theorem fix_iff : (∃ files', fix uni files = .ok files' ∧ Fixed uni files files') ↔ FixCondition uni files := by
  constructor
  · rintro ⟨files', h, new, hfixed⟩
    exact hfixed.fixCondition h
  · intro h
    obtain ⟨files', hfix⟩ := h.exists_fix
    exact ⟨files', hfix, _, h.fixedBy hfix⟩

end Result

def singleCode : Files := Dict.ofPairs [("src/mongo/main.cpp", "uassert(0);".toList)]

/-- The next code after a single one cannot be computed. -/
theorem singleCode_not_fixed : OnlyZeroErrors .ascii singleCode ∧
    ¬∃ files', fix .ascii singleCode = .ok files' ∧ Fixed .ascii singleCode files' := by
  have hparse : parseSourceFiles .ascii singleCode =
      [⟨"src/mongo/main.cpp", 8, "uassert(0".toList, ['0']⟩] := by decide +kernel
  constructor
  · constructor
    case ne_nil =>
      rw [hparse]
      exact List.cons_ne_nil _ _
    case distinct =>
      rw [hparse]
      exact (List.pairwise_singleton _ _).filter _
    case le_maximumCode =>
      rw [hparse]
      exact List.forall_mem_singleton.mpr (Nat.zero_le _)
  · rintro ⟨files', hfix, -⟩
    rw [fix_eq, hparse] at hfix
    cases hfix

end MongoTests.ErrorCodes
