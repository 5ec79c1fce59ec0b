import Mathlib.Data.List.Induction
import MongoTests.ErrorCodes.Source

/-!
# Checking the codes

`read_error_codes` and `get_next_code`. What is printed is left out.

* `checkDups`: the callback, with the state that it closes over.
* `readErrorCodes`: the locations, and those that are errors; `getNextCode`.
* `Counted`: what is known of the state after some callbacks; `Counted.checkDups`.
* **`mem_errors`**: the zero codes that are errors.
-/

namespace MongoTests.ErrorCodes

open MongoTests.Lib Dict

/-- `MAXIMUM_CODE` -/
def maximumCode : ℕ := 51999

structure Checked where
  codes : List AssertLocation
  seen : Dict (List Char) AssertLocation
  errors : List AssertLocation
  dups : Dict (List Char) (List AssertLocation)
  skips : List AssertLocation

def Checked.start : Checked := ⟨[], .empty, [], .empty, []⟩

section Callback

variable (uni : Unicode)

/-- `check_dups` on the first occurrence of a code. -/
def checkFirst (s : Checked) (loc : AssertLocation) : Checked :=
  let s := { s with seen := s.seen.set loc.code loc }
  if maximumCode < uni.int loc.code then
    { s with skips := s.skips ++ [loc], errors := s.errors ++ [loc] }
  else s

/-- `check_dups` on a code that was seen first at `original`. -/
def checkAgain (s : Checked) (original loc : AssertLocation) : Checked :=
  let s :=
    if (s.dups.get loc.code).isNone then
      { s with dups := s.dups.set loc.code [original], errors := s.errors ++ [original] }
    else s
  { s with
    dups := s.dups.set loc.code ((s.dups.get loc.code).getD [] ++ [loc])
    errors := s.errors ++ [loc] }

def checkDups (s : Checked) (assertLoc : AssertLocation) : Checked :=
  let s := { s with codes := s.codes ++ [assertLoc] }
  match s.seen.get assertLoc.code with
  | none => checkFirst uni s assertLoc
  | some original => checkAgain s original assertLoc

def check (locations : List AssertLocation) : Checked := locations.foldl (checkDups uni) .start

/-- The locations and the errors. -/
def readErrorCodes (files : Dict String (List Char)) : List AssertLocation × List AssertLocation :=
  let s := check uni (parseSourceFiles uni files)
  (s.codes, match s.seen.get ['0'] with
    | some bad => s.errors ++ [bad]
    | none => s.errors)

inductive Raised where
  | typeError
  | indexError
  | assertionError
  | fileNotFoundError
  | unicodeDecodeError
  deriving DecidableEq

/-- `reduce` returns a single code as it is, a text, and raises without codes. -/
def getNextCode (codes : List AssertLocation) : Except Raised ℕ :=
  match codes with
  | loc :: loc' :: codes =>
    .ok ((codes.foldl (fun x y => max x (uni.int y.code)) (max (uni.int loc.code) (uni.int loc'.code))) + 1)
  | _ => .error .typeError

end Callback

/-- The locations with a code. -/
def withCode (locations : List AssertLocation) (code : List Char) : List AssertLocation :=
  locations.filter fun l => l.code = code

/-- The state after the callbacks for these locations. -/
structure Counted (uni : Unicode) (locations : List AssertLocation) (s : Checked) : Prop where
  codes : s.codes = locations
  seen : ∀ code, s.seen.get code = (withCode locations code).head?
  dups : ∀ code, (s.dups.get code).isSome ↔ 2 ≤ (withCode locations code).length
  errors : ∀ l, uni.int l.code = 0 →
    (l ∈ s.errors ↔ l ∈ locations ∧ 2 ≤ (withCode locations l.code).length)

section Checks

variable {uni : Unicode} {locations : List AssertLocation} {s : Checked} {l loc original : AssertLocation}

theorem mem_withCode {code : List Char} : l ∈ withCode locations code ↔ l ∈ locations ∧ l.code = code := by
  rw [withCode, List.mem_filter, decide_eq_true_eq]

theorem withCode_concat (code : List Char) : withCode (locations ++ [loc]) code =
    withCode locations code ++ if loc.code = code then [loc] else [] := by
  rw [withCode, List.filter_append, List.filter_singleton, withCode]
  by_cases hcode : loc.code = code <;> simp [hcode]

theorem withCode_concat_self :
    withCode (locations ++ [loc]) loc.code = withCode locations loc.code ++ [loc] := by
  rw [withCode_concat, if_pos rfl]

theorem withCode_concat_ne {code : List Char} (h : loc.code ≠ code) :
    withCode (locations ++ [loc]) code = withCode locations code := by
  rw [withCode_concat, if_neg h, List.append_nil]

theorem Counted.start : Counted uni [] .start where
  codes := rfl
  seen _ := rfl
  dups code := by simp [Checked.start, withCode]
  errors l _ := by simp [Checked.start]

theorem Counted.checkFirst (h : Counted uni locations s) (hfirst : s.seen.get loc.code = none) :
    Counted uni (locations ++ [loc]) (checkFirst uni { s with codes := s.codes ++ [loc] } loc) := by
  have hnil : withCode locations loc.code = [] := by
    rw [h.seen, List.head?_eq_none_iff] at hfirst
    exact hfirst
  have hcodes : s.codes ++ [loc] = locations ++ [loc] := by rw [h.codes]
  have hseen : ∀ code, (s.seen.set loc.code loc).get code = (withCode (locations ++ [loc]) code).head? := by
    intro code
    rw [get_set]
    split_ifs with hcode
    · rw [hcode, withCode_concat_self, hnil]
      rfl
    · rw [h.seen, withCode_concat_ne (Ne.symm hcode)]
  have hdups : ∀ code, (s.dups.get code).isSome ↔ 2 ≤ (withCode (locations ++ [loc]) code).length := by
    intro code
    rw [h.dups]
    by_cases hcode : loc.code = code
    · subst hcode
      rw [withCode_concat_self, hnil]
      simp
    · rw [withCode_concat_ne hcode]
  have herrors : ∀ l, uni.int l.code = 0 →
      (l ∈ s.errors ↔ l ∈ locations ++ [loc] ∧ 2 ≤ (withCode (locations ++ [loc]) l.code).length) := by
    intro l hl
    rw [h.errors l hl]
    by_cases hcode : loc.code = l.code
    · rw [← hcode, withCode_concat_self, hnil]
      simp
    · have hne : l ≠ loc := by
        rintro rfl
        exact hcode rfl
      rw [withCode_concat_ne hcode, List.mem_append, List.mem_singleton, or_iff_left hne]
  unfold ErrorCodes.checkFirst
  dsimp only
  split_ifs with hmax
  · refine ⟨hcodes, hseen, hdups, fun l hl => ?_⟩
    have hne : l ≠ loc := by
      rintro rfl
      rw [hl] at hmax
      exact absurd hmax (Nat.not_lt_zero _)
    rw [List.mem_append, List.mem_singleton, or_iff_left hne, herrors l hl]
  · exact ⟨hcodes, hseen, hdups, herrors⟩

theorem isSome_dups_checkAgain {code : List Char} :
    ((checkAgain s original loc).dups.get code).isSome ↔ code = loc.code ∨ (s.dups.get code).isSome := by
  unfold checkAgain
  dsimp only
  split_ifs with hnone
  all_goals
    rw [get_set]
    by_cases hcode : code = loc.code
    · simp [hcode]
    · simp [hcode, get_set]

theorem mem_errors_checkAgain : l ∈ (checkAgain s original loc).errors ↔
    l ∈ s.errors ∨ l = loc ∨ ((s.dups.get loc.code).isNone ∧ l = original) := by
  unfold checkAgain
  dsimp only
  split_ifs with hnone
  · simp only [hnone, true_and, List.mem_append, List.mem_singleton]
    tauto
  · rw [List.mem_append, List.mem_singleton]
    tauto

theorem codes_checkAgain : (checkAgain s original loc).codes = s.codes := by
  unfold checkAgain
  dsimp only
  split_ifs <;> rfl

theorem seen_checkAgain : (checkAgain s original loc).seen = s.seen := by
  unfold checkAgain
  dsimp only
  split_ifs <;> rfl

/-- The first duplicate of a code makes its original an error too. -/
theorem Counted.mem_errors_checkAgain (h : Counted uni locations s) {rest : List AssertLocation}
    (hcode : withCode locations loc.code = original :: rest) (hl : uni.int l.code = 0) :
    l ∈ (ErrorCodes.checkAgain { s with codes := s.codes ++ [loc] } original loc).errors ↔
      l ∈ locations ++ [loc] ∧ 2 ≤ (withCode (locations ++ [loc]) l.code).length := by
  rw [ErrorCodes.mem_errors_checkAgain]
  dsimp only
  rw [h.errors l hl, List.mem_append, List.mem_singleton]
  by_cases heq : loc.code = l.code
  · have hmem : l ∈ locations ↔ l = original ∨ l ∈ rest := by
      rw [← List.mem_cons, ← hcode, mem_withCode]
      exact (and_iff_left heq.symm).symm
    have hrest : (s.dups.get loc.code).isNone ↔ rest = [] := by
      rw [← Option.not_isSome, Bool.not_eq_true', ← Bool.not_eq_true, h.dups, hcode, List.length_cons]
      cases rest with
      | nil => simp
      | cons => simp
    rw [← heq, withCode_concat_self, List.length_append, List.length_singleton, hmem, hcode, hrest,
      List.length_cons]
    cases rest with
    | nil => simp [or_comm]
    | cons => simp
  · have hne : l ≠ loc := by
      rintro rfl
      exact heq rfl
    have hne' : l ≠ original := by
      rintro rfl
      have horiginal : l ∈ withCode locations loc.code := by
        rw [hcode]
        exact List.mem_cons_self
      exact heq (mem_withCode.mp horiginal).2.symm
    rw [withCode_concat_ne heq]
    simp only [hne, hne', and_false, or_false]

theorem Counted.checkAgain (h : Counted uni locations s) (hseen : s.seen.get loc.code = some original) :
    Counted uni (locations ++ [loc]) (checkAgain { s with codes := s.codes ++ [loc] } original loc) := by
  obtain ⟨rest, hcode⟩ : ∃ rest, withCode locations loc.code = original :: rest := by
    rw [h.seen] at hseen
    exact List.head?_eq_some_iff.mp hseen
  constructor
  case codes => rw [codes_checkAgain, h.codes]
  case seen =>
    intro code
    rw [seen_checkAgain, h.seen]
    by_cases heq : loc.code = code
    · subst heq
      rw [withCode_concat_self, hcode]
      rfl
    · rw [withCode_concat_ne heq]
  case dups =>
    intro code
    rw [isSome_dups_checkAgain]
    dsimp only
    rw [h.dups]
    by_cases heq : loc.code = code
    · subst heq
      rw [withCode_concat_self, hcode]
      simp
    · rw [withCode_concat_ne heq, or_iff_right (Ne.symm heq)]
  case errors => exact fun l hl => h.mem_errors_checkAgain hcode hl

variable (uni) in
theorem counted_check (locations : List AssertLocation) : Counted uni locations (check uni locations) := by
  induction locations using List.reverseRecOn with
  | nil => exact .start
  | append_singleton locations loc ih =>
    rw [check, List.foldl_append, List.foldl_cons, List.foldl_nil, ← check]
    cases hseen : (check uni locations).seen.get loc.code with
    | none =>
      have hstep : checkDups uni (check uni locations) loc = ErrorCodes.checkFirst uni
          { check uni locations with codes := (check uni locations).codes ++ [loc] } loc := by
        simp only [checkDups, hseen]
      rw [hstep]
      exact ih.checkFirst hseen
    | some original =>
      have hstep : checkDups uni (check uni locations) loc = ErrorCodes.checkAgain
          { check uni locations with codes := (check uni locations).codes ++ [loc] } original loc := by
        simp only [checkDups, hseen]
      rw [hstep]
      exact ih.checkAgain hseen

theorem fst_readErrorCodes (files : Dict String (List Char)) :
    (readErrorCodes uni files).1 = parseSourceFiles uni files := (counted_check uni _).codes

/-- **The zero codes that are errors**: those spelled `0`, and those with a spelling that occurs again. -/
theorem mem_errors {files : Dict String (List Char)} (hl : uni.int l.code = 0) :
    l ∈ (readErrorCodes uni files).2 ↔ l ∈ parseSourceFiles uni files ∧
      (l.code = ['0'] ∨ 2 ≤ (withCode (parseSourceFiles uni files) l.code).length) := by
  set locations := parseSourceFiles uni files with hlocations
  have h := counted_check uni locations
  have hseen := h.seen ['0']
  have hzero : l ∈ locations → l.code = ['0'] → l ∈ withCode locations ['0'] :=
    fun hmem hcode => mem_withCode.mpr ⟨hmem, hcode⟩
  rw [readErrorCodes, ← hlocations]
  dsimp only
  cases hget : (check uni locations).seen.get ['0'] with
  | none =>
    rw [hget, eq_comm, List.head?_eq_none_iff] at hseen
    dsimp only
    rw [h.errors l hl]
    refine and_congr_right fun hmem => ⟨.inr, fun hor => hor.resolve_left fun hcode => ?_⟩
    have := hzero hmem hcode
    rw [hseen] at this
    exact List.not_mem_nil this
  | some bad =>
    rw [hget] at hseen
    obtain ⟨rest, hrest⟩ := List.head?_eq_some_iff.mp hseen.symm
    dsimp only
    rw [List.mem_append, List.mem_singleton, h.errors l hl]
    constructor
    · rintro (⟨hmem, htwo⟩ | rfl)
      · exact ⟨hmem, .inr htwo⟩
      · have hbad : l ∈ withCode locations ['0'] := by
          rw [hrest]
          exact List.mem_cons_self
        exact ⟨(mem_withCode.mp hbad).1, .inl (mem_withCode.mp hbad).2⟩
    · rintro ⟨hmem, hcode | htwo⟩
      · have hfirst := hzero hmem hcode
        rw [hcode, hrest]
        rw [hrest] at hfirst
        obtain heq | hagain := List.mem_cons.mp hfirst
        · exact .inr heq
        · refine .inl ⟨hmem, ?_⟩
          have hpos := List.length_pos_of_mem hagain
          rw [List.length_cons]
          omega
      · exact .inl ⟨hmem, htwo⟩

/-! ## The next code -/

variable (uni) in
/-- The number after the highest code. -/
def nextCode (codes : List AssertLocation) : ℕ := (codes.map fun l => uni.int l.code).foldr max 0 + 1

theorem int_lt_nextCode {codes : List AssertLocation} (h : l ∈ codes) : uni.int l.code < nextCode uni codes := by
  rw [nextCode, Nat.lt_succ_iff]
  induction codes with
  | nil => exact absurd h List.not_mem_nil
  | cons loc codes ih =>
    rw [List.map_cons, List.foldr_cons]
    obtain rfl | h := List.mem_cons.mp h
    · exact Nat.le_max_left _ _
    · exact (ih h).trans (Nat.le_max_right _ _)

theorem foldl_max (f : AssertLocation → ℕ) (n : ℕ) (codes : List AssertLocation) :
    codes.foldl (fun x y => max x (f y)) n = max n ((codes.map f).foldr max 0) := by
  induction codes generalizing n with
  | nil => exact (Nat.max_eq_left (Nat.zero_le n)).symm
  | cons loc codes ih => rw [List.foldl_cons, ih, List.map_cons, List.foldr_cons, Nat.max_assoc]

/-- Only a single code has no successor: it is taken for a text. -/
theorem getNextCode_eq (codes : List AssertLocation) : getNextCode uni codes =
    if 2 ≤ codes.length then .ok (nextCode uni codes) else .error .typeError := by
  match codes with
  | [] => rfl
  | [_] => rfl
  | loc :: loc' :: codes =>
    rw [getNextCode, foldl_max fun l => uni.int l.code, if_pos (by simp), nextCode, List.map_cons,
      List.map_cons, List.foldr_cons, List.foldr_cons, Nat.max_assoc]

end Checks

end MongoTests.ErrorCodes
