import Mathlib.Data.List.Forall2
import MongoTests.Idl.BinderTotal
import MongoTests.Lib.SortByKey

/-!
# Enumerations of integers

The binder checks that the values of an enumeration differ as texts and fill a range as integers.
The generator writes the texts into a declaration in C++, and a deserializer that compares a number
with the enumerators of the smallest and the largest integer.

* `cppInt`: what a text is worth in the declaration.
* `genDeserializer`: the two enumerators; `DeserializerAccepts`: the numbers between them.
* `Sound`: the values are distinct and contiguous, and the numbers that are accepted are the values.
* **`enum_sound_iff`**: the enumerations for which this holds.
-/

namespace MongoTests.Idl

open MongoTests.Lib Report

/-! ## Integers in C++ -/

def isBlank (c : Char) : Bool :=
  c = ' ' || c = '\t' || c = '\n' || c = '\r' || c = Char.ofNat 11 || c = Char.ofNat 12

/-- Digits below the base, at least one. -/
def readDigits (base : ℕ) (cs : List Char) : Option ℕ :=
  if cs ≠ [] ∧ cs.all fun c => c.isDigit && c.toNat - '0'.toNat < base then
    some (cs.foldl (fun n c => base * n + (c.toNat - '0'.toNat)) 0)
  else none

/-- A literal that starts with `0` is octal. -/
def readLiteral : List Char → Option ℕ
  | '0' :: c :: cs => readDigits 8 (c :: cs)
  | cs => readDigits 10 cs

def readSigned : List Char → Option ℤ
  | '-' :: cs => (readLiteral cs).map fun n : ℕ => -(n : ℤ)
  | '+' :: cs => (readLiteral cs).map Nat.cast
  | cs => (readLiteral cs).map Nat.cast

/-- The value of a text as the initializer of an enumerator of `std::int32_t`, unless it does not
compile. -/
def cppInt (s : String) : Option ℤ :=
  (readSigned ((s.toList.dropWhile isBlank).reverse.dropWhile isBlank).reverse).filter isInt32

/-! ## The generator -/

def intKey (py : Python) (v : Ast.EnumValue) : Except Raised ℤ :=
  match py.int v.value with
  | .ok i => .ok i
  | .error _ => .error .valueError

/-- `min_value` and `max_value` of `gen_deserializer_definition`: the enumerators that it names. -/
def genDeserializer (py : Python) (b : Ast.Enum) : Except Raised (Ast.EnumValue × Ast.EnumValue) :=
  match b.values.mapM (intKey py) with
  | .error e => .error e
  | .ok keys =>
    let enumValues := (keys.zip b.values).mergeSort fun v w => v.1 ≤ w.1
    match enumValues.head?, enumValues.getLast? with
    | some first, some last => .ok (first.2, last.2)
    | _, _ => .error .indexError

/-- The deserializer compiles and returns a value for the number. `get_cpp_value_assignment` writes
the texts as they are. -/
def DeserializerAccepts (py : Python) (b : Ast.Enum) (n : ℤ) : Prop :=
  (∀ v ∈ b.values, (cppInt v.value).isSome) ∧ ∃ min max lo hi, genDeserializer py b = .ok (min, max) ∧
    cppInt min.value = some lo ∧ cppInt max.value = some hi ∧ lo ≤ n ∧ n ≤ hi

/-! ## What an enumeration should be -/

/-- The value of an enumerator, for the binder and in C++. -/
structure HasValue (py : Python) (v : Ast.EnumValue) (i : ℤ) : Prop where
  int : py.int v.value = .ok i
  cpp : cppInt v.value = some i

def Contiguous (is : List ℤ) : Prop := ∀ a ∈ is, ∀ b ∈ is, ∀ n, a ≤ n → n ≤ b → n ∈ is

/-- The values are distinct and contiguous, and a number is accepted when it is the value of one
enumerator. -/
def Sound (py : Python) (b : Ast.Enum) : Prop :=
  ∃ is, List.Forall₂ (HasValue py) b.values is ∧ is.Nodup ∧ Contiguous is ∧
    ∀ n, DeserializerAccepts py b n ↔ is.count n = 1

section Enums

variable {py : Python} {e : Enum} {b : Ast.Enum}

/-! ## The binder -/

theorem intValues_eq_ok {values : List EnumValue} {is : List ℤ} :
    intValues py values = .ok is ↔ List.Forall₂ (fun v i => py.int v.value = .ok i) values is := by
  induction values generalizing is with
  | nil => simp [intValues, eq_comm]
  | cons v values ih =>
    rw [intValues, List.forall₂_cons_left_iff]
    cases hv : py.int v.value with
    | error message => simp
    | ok i =>
      dsimp only
      cases hrest : intValues py values with
      | error message =>
        refine iff_of_false (by simp) ?_
        rintro ⟨j, js, -, hjs, -⟩
        rw [ih.mpr hjs] at hrest
        cases hrest
      | ok js =>
        constructor
        · rintro ⟨⟩
          exact ⟨i, js, rfl, ih.mp hrest, rfl⟩
        · rintro ⟨j, js', hj, hjs', rfl⟩
          cases hj
          rw [ih.mpr hjs'] at hrest
          cases hrest
          rfl

/-- What the binder has made sure of. -/
theorem contiguous_of_bindEnum (htype : e.type = some "int") (h : bindEnum py e = .ok (some b) []) :
    ∃ is, List.Forall₂ (fun v i => py.int v.value = .ok i) b.values is ∧ is ≠ [] ∧ Contiguous is := by
  unfold bindEnum at h
  split_ifs at h
  · cases h
  · split at h
    · cases h
    · rename_i values _
      obtain ⟨_, hvalid, h⟩ := bind_eq_quiet.mp h
      cases h
      obtain ⟨_, -, hvalid⟩ := bind_eq_quiet.mp hvalid
      rw [if_pos htype] at hvalid
      unfold validateEnumInt at hvalid
      split at hvalid
      · cases hvalid
      · cases hvalid
      · rename_i i is hints
        have hrange : (Int.range (is.foldl min i) (is.foldl max i + 1)).toFinset = (i :: is).toFinset := by
          by_contra hne
          rw [logIf, if_pos hne] at hvalid
          cases hvalid
        have hmem : ∀ n, n ∈ i :: is ↔ is.foldl min i ≤ n ∧ n < is.foldl max i + 1 := by
          intro n
          rw [← Int.mem_range_iff, ← List.mem_toFinset, ← hrange, List.mem_toFinset]
        refine ⟨i :: is, ?_, List.cons_ne_nil _ _, fun a ha c hc n han hnc => ?_⟩
        · rw [List.forall₂_map_left_iff]
          exact intValues_eq_ok.mp hints
        · rw [hmem] at ha hc ⊢
          omega

/-! ## The generated range -/

theorem mapM_intKey {values : List Ast.EnumValue} {is : List ℤ}
    (h : List.Forall₂ (fun v i => py.int v.value = .ok i) values is) :
    values.mapM (intKey py) = .ok is := by
  rw [mapM_eq_ok]
  induction h with
  | nil => rfl
  | cons hv _ ih => rw [List.map_cons, List.map_cons, ih, intKey, hv]

/-- The enumerators of the smallest and the largest integer. -/
theorem genDeserializer_eq {is : List ℤ} (hne : is ≠ [])
    (h : List.Forall₂ (fun v i => py.int v.value = .ok i) b.values is) :
    ∃ min max lo hi, genDeserializer py b = .ok (min, max) ∧
      (lo, min) ∈ is.zip b.values ∧ (hi, max) ∈ is.zip b.values ∧ ∀ i ∈ is, lo ≤ i ∧ i ≤ hi := by
  have hlength : is.length = b.values.length := h.length_eq.symm
  set sorted := (is.zip b.values).mergeSort fun v w => v.1 ≤ w.1 with hsorted
  have hmem : ∀ v, v ∈ sorted ↔ v ∈ is.zip b.values := fun v => List.mem_mergeSort
  have hpair : sorted.Pairwise fun v w => v.1 ≤ w.1 := pairwise_mergeSort_key Prod.fst (is.zip b.values)
  have hfst : ∀ i ∈ is, ∃ v ∈ sorted, v.1 = i := by
    intro i hi
    rw [← List.map_fst_zip hlength.le, List.mem_map] at hi
    obtain ⟨v, hv, rfl⟩ := hi
    exact ⟨v, (hmem v).mpr hv, rfl⟩
  have hsortedne : sorted ≠ [] := by
    obtain ⟨i, hi⟩ := List.exists_mem_of_ne_nil is hne
    obtain ⟨v, hv, -⟩ := hfst i hi
    exact List.ne_nil_of_mem hv
  refine ⟨(sorted.head hsortedne).2, (sorted.getLast hsortedne).2, (sorted.head hsortedne).1,
    (sorted.getLast hsortedne).1, ?_, (hmem _).mp (List.head_mem _),
    (hmem _).mp (List.getLast_mem _), fun i hi => ?_⟩
  · rw [genDeserializer, mapM_intKey h]
    dsimp only
    rw [← hsorted, List.head?_eq_some_head hsortedne, List.getLast?_eq_some_getLast hsortedne]
  · obtain ⟨v, hv, rfl⟩ := hfst i hi
    exact ⟨hpair.rel_head_of_rel_head_head hv le_rfl, hpair.rel_getLast_of_rel_getLast_getLast hv le_rfl⟩

/-- The values that C++ reads as the binder does. -/
theorem forall₂_hasValue {values : List Ast.EnumValue} {is : List ℤ} :
    List.Forall₂ (HasValue py) values is ↔
      (∀ v ∈ values, cppInt v.value = (py.int v.value).toOption) ∧
        List.Forall₂ (fun v i => py.int v.value = .ok i) values is := by
  rw [← List.forall₂_and_left]
  constructor
  · refine List.Forall₂.imp fun v i hv => ⟨?_, hv.int⟩
    rw [hv.int, hv.cpp, Except.toOption]
  · refine List.Forall₂.imp fun v i ⟨hcpp, hint⟩ => ⟨hint, ?_⟩
    rw [hcpp, hint, Except.toOption]

theorem deserializerAccepts_iff {is : List ℤ} (hne : is ≠ [])
    (h : List.Forall₂ (HasValue py) b.values is) (hcontiguous : Contiguous is) (n : ℤ) :
    DeserializerAccepts py b n ↔ n ∈ is := by
  obtain ⟨min, max, lo, hi, hgen, hmin, hmax, hbounds⟩ :=
    genDeserializer_eq hne (forall₂_hasValue.mp h).2
  have hvalue : ∀ i v, (i, v) ∈ is.zip b.values → HasValue py v i := fun i v => List.forall₂_zip h.flip
  have hlo := (hvalue lo min hmin).cpp
  have hhi := (hvalue hi max hmax).cpp
  constructor
  · rintro ⟨-, min', max', lo', hi', hgen', hlo', hhi', hlon, hnhi⟩
    rw [hgen] at hgen'
    cases hgen'
    rw [hlo] at hlo'
    rw [hhi] at hhi'
    cases hlo'
    cases hhi'
    exact hcontiguous lo (List.of_mem_zip hmin).1 hi (List.of_mem_zip hmax).1 n hlon hnhi
  · intro hn
    refine ⟨fun v hv => ?_, min, max, lo, hi, hgen, hlo, hhi, hbounds n hn⟩
    obtain ⟨i, hi⟩ : ∃ i, (i, v) ∈ is.zip b.values := by
      rw [← List.map_snd_zip h.length_eq.le, List.mem_map] at hv
      obtain ⟨⟨i, w⟩, hw, rfl⟩ := hv
      exact ⟨i, hw⟩
    rw [(hvalue i v hi).cpp, Option.isSome_some]

/-- **An enumeration without errors is sound if and only if** no two of its values are spellings of
one integer and C++ reads each of them as the same integer. -/
theorem enum_sound_iff (htype : e.type = some "int") (h : bindEnum py e = .ok (some b) []) :
    Sound py b ↔ (b.values.map fun v => py.int v.value).Nodup ∧
      ∀ v ∈ b.values, cppInt v.value = (py.int v.value).toOption := by
  have hmap : ∀ {is : List ℤ}, List.Forall₂ (fun v i => py.int v.value = .ok i) b.values is →
      (b.values.map fun v => py.int v.value) = is.map .ok := by
    intro is hints
    rw [← List.forall₂_eq_eq_eq, List.forall₂_map_left_iff, List.forall₂_map_right_iff]
    exact hints
  have hinj : Function.Injective (Except.ok : ℤ → Except String ℤ) := fun _ _ => Except.ok.inj
  constructor
  · rintro ⟨is, hvalues, hnodup, -, -⟩
    obtain ⟨hcpp, hints⟩ := forall₂_hasValue.mp hvalues
    rw [hmap hints]
    exact ⟨hnodup.map hinj, hcpp⟩
  · rintro ⟨hnodup, hcpp⟩
    obtain ⟨is, hints, hne, hcontiguous⟩ := contiguous_of_bindEnum htype h
    have hvalues := forall₂_hasValue.mpr ⟨hcpp, hints⟩
    rw [hmap hints, List.nodup_map_iff hinj] at hnodup
    refine ⟨is, hvalues, hnodup, hcontiguous, fun n => ?_⟩
    rw [deserializerAccepts_iff hne hvalues hcontiguous, hnodup.count]
    split_ifs <;> simp_all

end Enums

/-! ## An enumeration of two levels -/

def levels (low high : String) : Enum :=
  let loc : SourceLocation := ⟨"a.idl", 0, 0⟩
  { loc, name := "Level", type := some "int", values := some [⟨loc, "low", low⟩, ⟨loc, "high", high⟩] }

/-- What the binder makes of it. -/
def boundLevels (low high : String) : Ast.Enum :=
  let loc : SourceLocation := ⟨"a.idl", 0, 0⟩
  { loc, name := "Level", description := none, cppNamespace := none, type := some "int"
    values := [⟨loc, "low", low⟩, ⟨loc, "high", high⟩] }

theorem enum_sound_iff_levels :
    bindEnum asciiPython (levels "0" "1") = .ok (some (boundLevels "0" "1")) [] ∧
    Sound asciiPython (boundLevels "0" "1") :=
  have h : bindEnum asciiPython (levels "0" "1") = .ok (some (boundLevels "0" "1")) [] := by decide
  ⟨h, (enum_sound_iff rfl h).mpr ⟨List.pairwise_pair.mpr (by decide),
    List.forall_mem_cons.mpr ⟨by decide, List.forall_mem_singleton.mpr (by decide)⟩⟩⟩

/-- **Two spellings of one integer.** The texts `1` and `01` differ, and the range from one to one
has no gap. -/
theorem two_spellings_not_sound :
    bindEnum asciiPython (levels "1" "01") = .ok (some (boundLevels "1" "01")) [] ∧
    ¬Sound asciiPython (boundLevels "1" "01") := by
  refine ⟨by decide, ?_⟩
  rintro ⟨is, hvalues, hnodup, -, -⟩
  cases hvalues with
  | cons hlow hrest =>
    cases hrest with
    | cons hhigh _ =>
      have hsame : asciiPython.int "1" = asciiPython.int "01" := by decide
      have heq := (hlow.int.symm.trans hsame).trans hhigh.int
      cases heq
      exact (List.nodup_cons.mp hnodup).1 (List.mem_cons_self ..)

end MongoTests.Idl
