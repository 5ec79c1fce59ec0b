import MongoTests.Idl.BinderTotal

/-!
# Array types

The names that `resolve_field_type` reads as array types and the fields that `_bind_field` marks as
arrays, against the names of the form `array<T>`.

* `Nested`: a declared name in several `array<`, each of which is closed by any character.
* `resolveFieldType_ok_iff`: the names that resolve.
* `bindField_array`: the mark of a bound field.
* **`array_type_iff`**: where these are the declared names and the names `array<T>` of them.
-/

namespace MongoTests.Idl

open MongoTests.Lib Report

/-! ## Names -/

/-- `k` times `array<`, a text and what closes it. -/
def nest (k : ℕ) (inner closing : List Char) : List Char :=
  (List.replicate k "array<".toList).flatten ++ inner ++ closing

theorem nest_zero (inner : List Char) : nest 0 inner [] = inner := by
  rw [nest, List.append_nil]
  rfl

theorem nest_succ (k : ℕ) (inner closing : List Char) (c : Char) :
    nest (k + 1) inner (closing ++ [c]) = "array<".toList ++ nest k inner closing ++ [c] := by
  simp [nest, List.replicate_succ]

theorem arrayOf_toList (name : String) : (arrayOf name).toList = nest 1 name.toList ['>'] := by
  rw [arrayOf, String.toList_append, String.toList_append]
  rfl

/-- The name is a declared one inside `k` times `array<`. The characters that close it are
arbitrary, except that only the last one may be `>`. -/
structure Nested (t : SymbolTable) (name : String) (k : ℕ) (inner : String) (closing : List Char) :
    Prop where
  declared : inner ∈ t.names
  nonempty : inner = "" → k = 0
  closed : closing.length = k
  inside : ∀ c ∈ closing.dropLast, c ≠ '>'
  text : name.toList = nest k inner.toList closing

/-- The name is `array<T>` for a declared name `T`. -/
def IsArrayOf (t : SymbolTable) (name : String) : Prop := ∃ inner ∈ t.names, name = arrayOf inner

/-- No declared name starts like an array type. -/
def PlainNames (t : SymbolTable) : Prop := ∀ n ∈ t.names, startsWith n "array<" = false

section Names

variable {t : SymbolTable} {name : String}

theorem startsWith_iff {s start : String} :
    startsWith s start = true ↔ ∃ rest, s.toList = start.toList ++ rest := by
  rw [startsWith, List.isPrefixOf_iff_prefix]
  constructor
  · rintro ⟨rest, h⟩
    exact ⟨rest, h.symm⟩
  · rintro ⟨rest, h⟩
    exact ⟨rest, h.symm⟩

theorem endsWith_of_concat {s : String} {l : List Char} {c : Char} (h : s.toList = l ++ [c]) :
    endsWith s ">" = true ↔ c = '>' := by
  rw [endsWith, List.isSuffixOf_iff_suffix, h]
  constructor
  · rintro ⟨r, hr⟩
    exact (List.cons.inj (List.append_inj' hr rfl).2).1.symm
  · rintro rfl
    exact List.suffix_append _ _

/-- A text that opens like an array, without the opening and the last character. -/
theorem toList_stripArray {inner : List Char} {c : Char}
    (h : name.toList = "array<".toList ++ inner ++ [c]) : (stripArray name).toList = inner := by
  rw [stripArray, String.toList_ofList, h, List.append_assoc]
  have hdrop : ("array<".toList ++ (inner ++ [c])).drop 6 = inner ++ [c] := rfl
  rw [hdrop, List.dropLast_concat]

theorem eq_of_stripArray (hstart : startsWith name "array<" = true) (hne : stripArray name ≠ "") :
    ∃ c, name.toList = "array<".toList ++ (stripArray name).toList ++ [c] := by
  obtain ⟨rest, hrest⟩ := startsWith_iff.mp hstart
  rcases List.eq_nil_or_concat' rest with rfl | ⟨inner, c, rfl⟩
  · refine absurd ?_ hne
    rw [stripArray, hrest]
    rfl
  · rw [← List.append_assoc] at hrest
    exact ⟨c, by rw [toList_stripArray hrest]; exact hrest⟩

theorem Nested.startsWith {k : ℕ} {inner : String} {closing : List Char}
    (h : Nested t name (k + 1) inner closing) : startsWith name "array<" = true := by
  rw [startsWith_iff, h.text, nest, List.replicate_succ, List.flatten_cons]
  exact ⟨_, by rw [List.append_assoc, List.append_assoc]⟩

theorem Nested.of_mem (h : name ∈ t.names) : Nested t name 0 name [] :=
  ⟨h, fun _ => rfl, rfl, by simp, (nest_zero _).symm⟩

theorem Nested.eq_of_zero {inner : String} {closing : List Char}
    (h : Nested t name 0 inner closing) : name = inner := by
  have hnil := List.eq_nil_of_length_eq_zero h.closed
  have htext := h.text
  rw [hnil, nest_zero] at htext
  exact String.toList_inj.mp htext

/-- The last character goes with the first `array<`. -/
theorem Nested.exists_concat {k : ℕ} {inner : String} {closing : List Char}
    (h : Nested t name (k + 1) inner closing) :
    ∃ closing' c, closing = closing' ++ [c] ∧ (∀ d ∈ closing', d ≠ '>') ∧
      name.toList = "array<".toList ++ nest k inner.toList closing' ++ [c] := by
  rcases List.eq_nil_or_concat' closing with hnil | ⟨closing', c, rfl⟩
  · exact absurd h.closed (by rw [hnil]; simp)
  · have hopen := h.inside
    rw [List.dropLast_concat] at hopen
    exact ⟨closing', c, rfl, hopen, by rw [h.text, nest_succ]⟩

theorem Nested.strip {k : ℕ} {inner : String} {closing : List Char}
    (h : Nested t name (k + 1) inner closing) : Nested t (stripArray name) k inner closing.dropLast := by
  obtain ⟨closing', c, rfl, hopen, htext⟩ := h.exists_concat
  have hclosed := h.closed
  rw [List.length_append] at hclosed
  rw [List.dropLast_concat]
  exact ⟨h.declared, fun he => absurd (h.nonempty he) (Nat.succ_ne_zero k),
    Nat.succ_injective hclosed, fun d hd => hopen d (List.dropLast_subset _ hd),
    toList_stripArray htext⟩

/-- A name whose closing characters are not `>` does not look like an array type. -/
theorem Nested.not_array (ht : PlainNames t) {k : ℕ} {inner : String} {closing : List Char}
    (h : Nested t name k inner closing) (hopen : ∀ c ∈ closing, c ≠ '>') :
    ¬(MongoTests.Idl.startsWith name "array<" = true ∧ endsWith name ">" = true) := by
  rintro ⟨hstart, hend⟩
  cases k with
  | zero =>
    rw [h.eq_of_zero, ht inner h.declared] at hstart
    exact Bool.false_ne_true hstart
  | succ k =>
    obtain ⟨closing', c, rfl, -, htext⟩ := h.exists_concat
    exact hopen c (by simp) ((endsWith_of_concat htext).mp hend)

theorem Nested.ne_empty {k : ℕ} {inner : String} {closing : List Char}
    (h : Nested t name k inner closing) (hne : inner ≠ "") : name ≠ "" := by
  cases k with
  | zero => rwa [h.eq_of_zero]
  | succ k =>
    rintro rfl
    exact absurd h.startsWith (by decide)

/-- The array form of a nested name is recognised. -/
theorem Nested.parse (ht : PlainNames t) {k : ℕ} {inner : String} {closing : List Char}
    (h : Nested t name (k + 1) inner closing) :
    parseArrayType name = some (stripArray name) ∧ stripArray name ≠ "" := by
  refine ⟨?_, h.strip.ne_empty fun he => absurd (h.nonempty he) (Nat.succ_ne_zero k)⟩
  have hno := h.strip.not_array ht h.inside
  rw [← Bool.and_eq_true] at hno
  rw [parseArrayType, h.startsWith, if_neg (by simp), if_neg hno]

/-! ## Resolution -/

theorem nested_strip (hstart : startsWith name "array<" = true) (hnew : name ∉ t.names)
    {stripped : String} (hparse : parseArrayType name = some stripped) (hne : stripped ≠ "") :
    (∃ k inner closing, Nested t name k inner closing) ↔
      ∃ k inner closing, Nested t stripped k inner closing := by
  have hstrip : stripArray name = stripped ∧
      ¬(startsWith stripped "array<" = true ∧ endsWith stripped ">" = true) := by
    rw [parseArrayType, hstart] at hparse
    simp only [Bool.not_true, Bool.false_and, Bool.false_eq_true, if_false] at hparse
    split_ifs at hparse with hnested
    cases hparse
    exact ⟨rfl, by rwa [Bool.and_eq_true] at hnested⟩
  obtain ⟨rfl, hopen⟩ := hstrip
  constructor
  · rintro ⟨k, inner, closing, h⟩
    cases k with
    | zero => exact absurd (h.eq_of_zero ▸ h.declared) hnew
    | succ k => exact ⟨k, inner, _, h.strip⟩
  · rintro ⟨k, inner, closing, h⟩
    obtain ⟨c, htext⟩ := eq_of_stripArray hstart hne
    rw [h.text, ← nest_succ] at htext
    refine ⟨k + 1, inner, closing ++ [c], h.declared, fun he => absurd ?_ hne, ?_, ?_, htext⟩
    · obtain rfl := h.nonempty he
      rw [h.eq_of_zero, he]
    · rw [List.length_append, h.closed]
      rfl
    · rw [List.dropLast_concat]
      cases k with
      | zero =>
        rw [List.eq_nil_of_length_eq_zero h.closed]
        exact fun d hd => absurd hd List.not_mem_nil
      | succ k =>
        -- What is left opens like an array type, so that it does not end with `>`.
        obtain ⟨closing', d, rfl, hclosing, hstripped⟩ := h.exists_concat
        intro e he
        rcases List.mem_append.mp he with he | he
        · exact hclosing e he
        · rw [List.mem_singleton.mp he]
          exact fun hd => hopen ⟨h.startsWith, (endsWith_of_concat hstripped).mpr hd⟩

/-- **The names that resolve.** -/
theorem resolveFieldType_ok_iff (ht : PlainNames t) (loc : SourceLocation) (fieldName : String) :
    (∃ s, t.resolveFieldType loc fieldName name = .ok s) ↔
      ∃ k inner closing, Nested t name k inner closing := by
  induction hn : name.toList.length using Nat.strongRecOn generalizing name with
  | ind n ih =>
    rw [SymbolTable.resolveFieldType_eq]
    cases hfind : t.symbols.find? fun s => s.name = name with
    | some s =>
      have hname := List.find?_some hfind
      rw [decide_eq_true_iff] at hname
      have hmem : name ∈ t.names := hname ▸ List.mem_map_of_mem (List.mem_of_find?_eq_some hfind)
      exact iff_of_true ⟨s, rfl⟩ ⟨0, name, [], Nested.of_mem hmem⟩
    | none =>
      have hnew : name ∉ t.names := by
        intro hmem
        obtain ⟨s, hs, hname⟩ := List.mem_map.mp hmem
        exact List.find?_eq_none.mp hfind s hs (decide_eq_true hname)
      have hzero : ∀ {k inner closing}, Nested t name k inner closing → ∃ k', k = k' + 1 := by
        intro k inner closing h
        cases k with
        | zero => exact absurd (h.eq_of_zero ▸ h.declared) hnew
        | succ k => exact ⟨k, rfl⟩
      dsimp only
      split_ifs with hstart
      · cases hparse : (parseArrayType name).filter (· ≠ "") with
        | some stripped =>
          obtain ⟨hparse, hne⟩ := Option.filter_eq_some_iff.mp hparse
          have hlt := parseArrayType_length hstart hparse
          rw [nested_strip hstart hnew hparse (by simpa using hne)]
          exact ih _ (hn ▸ hlt) rfl
        | none =>
          refine iff_of_false (by simp) ?_
          rintro ⟨k, inner, closing, h⟩
          obtain ⟨k, rfl⟩ := hzero h
          obtain ⟨hsome, hne⟩ := h.parse ht
          rw [hsome, Option.filter_some_pos (by simpa using hne)] at hparse
          cases hparse
      · refine iff_of_false (by simp) ?_
        rintro ⟨k, inner, closing, h⟩
        obtain ⟨k, rfl⟩ := hzero h
        exact hstart h.startsWith

/-! ## The two forms -/

/-- The names that resolve against their form, or do not resolve in spite of it. -/
inductive Misspelt (t : SymbolTable) (name : String) : Prop
  | empty (h : "" ∈ t.names) (hname : name = arrayOf "")
  | closing {k : ℕ} {inner : String} {closing : List Char}
      (h : Nested t name (k + 1) inner closing) (hother : closing ≠ ['>'])

theorem nested_arrayOf {inner : String} (h : inner ∈ t.names) (hne : inner ≠ "") :
    Nested t (arrayOf inner) 1 inner ['>'] :=
  ⟨h, fun he => absurd he hne, rfl, by simp, arrayOf_toList inner⟩

theorem notMem_of_startsWith (ht : PlainNames t) (h : startsWith name "array<" = true) :
    name ∉ t.names := by
  intro hmem
  rw [ht name hmem] at h
  exact Bool.false_ne_true h

/-- Only `>` closes an array of a declared name. -/
theorem IsArrayOf.closing_eq (ht : PlainNames t) (harray : IsArrayOf t name) {k : ℕ}
    {inner : String} {closing : List Char} (h : Nested t name (k + 1) inner closing) :
    closing = ['>'] := by
  obtain ⟨declared, hdeclared, rfl⟩ := harray
  have hstrip := h.strip
  rw [stripArray_arrayOf] at hstrip
  cases k with
  | succ k => exact absurd hdeclared (notMem_of_startsWith ht hstrip.startsWith)
  | zero =>
    obtain ⟨closing', c, rfl, -, htext⟩ := h.exists_concat
    have hnil : closing' = [] := by simpa using hstrip.closed
    have harrayOf : (arrayOf declared).toList = "array<".toList ++ declared.toList ++ ['>'] := by
      rw [arrayOf, String.toList_append, String.toList_append]
      rfl
    have hend : c = '>' := (endsWith_of_concat htext).mp ((endsWith_of_concat harrayOf).mpr rfl)
    rw [hnil, hend]
    rfl

theorem nested_iff_form (name : String) (ht : PlainNames t) :
    ((∃ k inner closing, Nested t name k inner closing) ↔ name ∈ t.names ∨ IsArrayOf t name) ↔
      ¬Misspelt t name := by
  constructor
  · rintro hiff (⟨hempty, rfl⟩ | ⟨h, hother⟩)
    · obtain ⟨k, inner, closing, h⟩ := hiff.mpr (.inr ⟨"", hempty, rfl⟩)
      cases k with
      | zero =>
        exact notMem_of_startsWith ht (startsWith_arrayOf "") (h.eq_of_zero ▸ h.declared)
      | succ k => exact (h.parse ht).2 (stripArray_arrayOf "")
    · rcases hiff.mp ⟨_, _, _, h⟩ with hmem | harray
      · exact notMem_of_startsWith ht h.startsWith hmem
      · exact hother (harray.closing_eq ht h)
  · intro hspelt
    constructor
    · rintro ⟨k, inner, closing, h⟩
      cases k with
      | zero => exact .inl (h.eq_of_zero ▸ h.declared)
      | succ k =>
        have hclosing : closing = ['>'] := by
          by_contra hother
          exact hspelt (.closing h hother)
        subst hclosing
        obtain rfl : k = 0 := (Nat.succ_injective h.closed).symm
        refine .inr ⟨inner, h.declared, String.toList_inj.mp ?_⟩
        rw [h.text, arrayOf_toList]
    · rintro (hmem | ⟨inner, hinner, rfl⟩)
      · exact ⟨0, name, [], Nested.of_mem hmem⟩
      · refine ⟨1, inner, ['>'], nested_arrayOf hinner fun he => hspelt ?_⟩
        subst he
        exact .empty hinner rfl

end Names

/-! ## Fields -/

/-- A declared name that `parse_array_type` takes for that of an array: it ends with `>`, and is
longer than `array<` and this character. -/
structure TakenForArray (t : SymbolTable) (type : String) : Prop where
  declared : type ∈ t.names
  ending : endsWith type ">" = true
  rest : stripArray type ≠ ""
  inside : ¬(startsWith (stripArray type) "array<" = true ∧ endsWith (stripArray type) ">" = true)

section Fields

variable {py : Python} {spec : IDLSpec} {field : Field} {f g : Ast.Field} {ws : List ParserError}

theorem isArrayType_of_declared {t : SymbolTable} (ht : PlainNames t) {type : String}
    (h : type ∈ t.names) : isArrayType type = true ↔ TakenForArray t type := by
  rw [isArrayType, parseArrayType, ht type h]
  cases hend : endsWith type ">" with
  | false => exact iff_of_false (by simp [truthy]) fun hn => Bool.false_ne_true (hend ▸ hn.ending)
  | true =>
    simp only [Bool.not_false, Bool.not_true, Bool.and_false, Bool.false_eq_true, if_false]
    split_ifs with hnested
    · exact iff_of_false (by simp [truthy]) fun hn => hn.inside (by simpa using hnested)
    · constructor
      · intro htruthy
        exact ⟨h, hend, by simpa [truthy] using htruthy, by simpa using hnested⟩
      · exact fun hn => by simpa [truthy] using hn.rest

theorem array_of_kept (h : g.kept = f.kept) : g.array = f.array := congrArg (fun kept => kept.2.1) h

/-- **The mark of a bound field.** -/
theorem bindField_array {type : String} (htype : field.type = some type)
    (h : bindField py spec field = .ok (some f) ws) :
    f.array = (!field.ignore && isArrayType type) ∧ (field.ignore = false →
      ∃ s, spec.symbols.resolveFieldType field.loc field.name type = .ok s) := by
  obtain ⟨_, _, _, -, h, -⟩ := bind_eq_ok.mp h
  split_ifs at h with hignore
  · obtain ⟨_, _, _, -, h, -⟩ := bind_eq_ok.mp h
    obtain ⟨_, _, _, -, h, -⟩ := bind_eq_ok.mp h
    cases h
    rw [hignore]
    exact ⟨rfl, fun hc => Bool.noConfusion hc⟩
  · rw [htype] at h
    dsimp only at h
    cases hresolve : spec.symbols.resolveFieldType field.loc field.name type with
    | error e =>
      rw [hresolve] at h
      cases h
    | ok symbol =>
      rw [hresolve] at h
      dsimp only at h
      refine ⟨?_, fun _ => ⟨symbol, rfl⟩⟩
      rw [Bool.not_eq_true] at hignore
      rw [hignore, Bool.not_false, Bool.true_and]
      by_cases hcommand : ∃ c, symbol = .command c
      · obtain ⟨c, rfl⟩ := hcommand
        cases h
      · rw [bindResolvedField_eq (not_exists.mp hcommand)] at h
        split_ifs at h with harray hdoc
        · obtain ⟨_, _, _, -, h, -⟩ := bind_eq_ok.mp h
          exact (array_of_kept (bindTyped_kept h)).trans harray.symm
        · cases h
        · rw [Bool.not_eq_true] at harray
          exact (array_of_kept (bindTyped_kept h)).trans harray.symm

/-- A name that resolves and is not declared is an array type for the binder. -/
theorem isArrayType_of_nested {t : SymbolTable} (ht : PlainNames t) {type : String} {k : ℕ}
    {inner : String} {closing : List Char} (h : Nested t type (k + 1) inner closing) :
    isArrayType type = true := by
  obtain ⟨hparse, hne⟩ := h.parse ht
  rw [isArrayType, hparse]
  simpa [truthy] using hne

/-- The mark of a field against the form of its type. -/
theorem bindField_array_iff (ht : PlainNames spec.symbols) {type : String}
    (htype : field.type = some type) (h : bindField py spec field = .ok (some f) ws) :
    ((f.array = true ↔ IsArrayOf spec.symbols type) ↔
      if field.ignore then ¬IsArrayOf spec.symbols type
      else ¬Misspelt spec.symbols type ∧ ¬TakenForArray spec.symbols type) := by
  obtain ⟨harray, hresolves⟩ := bindField_array htype h
  rw [harray]
  cases hignore : field.ignore with
  | true => simp
  | false =>
    rw [Bool.not_false, Bool.true_and, if_neg Bool.false_ne_true]
    have hnested := (resolveFieldType_ok_iff ht field.loc field.name).mp (hresolves hignore)
    have hform := nested_iff_form type ht
    obtain ⟨k, inner, closing, hn⟩ := hnested
    cases k with
    | zero =>
      have hdeclared : type ∈ spec.symbols.names := hn.eq_of_zero ▸ hn.declared
      have hno : ¬IsArrayOf spec.symbols type := by
        rintro ⟨inner, -, rfl⟩
        exact notMem_of_startsWith ht (startsWith_arrayOf inner) hdeclared
      have hspelt := hform.mp (iff_of_true ⟨_, _, _, hn⟩ (.inl hdeclared))
      rw [isArrayType_of_declared ht hdeclared]
      tauto
    | succ k =>
      have hnew := notMem_of_startsWith ht hn.startsWith
      have htaken : ¬TakenForArray spec.symbols type := fun htaken => hnew htaken.declared
      rw [← hform, isArrayType_of_nested ht hn]
      have hsome : ∃ k inner closing, Nested spec.symbols type k inner closing := ⟨_, _, _, hn⟩
      rw [iff_true_left rfl, iff_true_left hsome, or_iff_right hnew, and_iff_left htaken]

end Fields

/-- **Array types.** A name resolves if and only if it is declared or the array of a declared name,
for exactly the names that are not misspelt, and a bound field is marked accordingly, unless its
type is misspelt or a declared name that looks like an array type, or the field is ignored. -/
theorem array_type_iff (py : Python) {spec : IDLSpec} (ht : PlainNames spec.symbols) :
    (∀ loc fieldName name,
      ((∃ s, spec.symbols.resolveFieldType loc fieldName name = .ok s) ↔
        name ∈ spec.symbols.names ∨ IsArrayOf spec.symbols name) ↔ ¬Misspelt spec.symbols name) ∧
    ∀ field type f ws, field.type = some type → bindField py spec field = .ok (some f) ws →
      ((f.array = true ↔ IsArrayOf spec.symbols type) ↔
        if field.ignore then ¬IsArrayOf spec.symbols type
        else ¬Misspelt spec.symbols type ∧ ¬TakenForArray spec.symbols type) := by
  refine ⟨fun loc fieldName name => ?_, fun field type f ws htype h => bindField_array_iff ht htype h⟩
  rw [resolveFieldType_ok_iff ht]
  exact nested_iff_form name ht

/-! ## One declared name -/

def intSymbols : SymbolTable := { types := [{ loc := ⟨"a.idl", 0, 0⟩, name := "int" }] }

theorem array_type_int :
    (∀ loc fieldName name,
      ((∃ s, intSymbols.resolveFieldType loc fieldName name = .ok s) ↔
        name ∈ intSymbols.names ∨ IsArrayOf intSymbols name) ↔ ¬Misspelt intSymbols name) ∧
    ∀ field type f ws, field.type = some type →
      bindField asciiPython { symbols := intSymbols } field = .ok (some f) ws →
      ((f.array = true ↔ IsArrayOf intSymbols type) ↔
        if field.ignore then ¬IsArrayOf intSymbols type
        else ¬Misspelt intSymbols type ∧ ¬TakenForArray intSymbols type) :=
  @array_type_iff asciiPython { symbols := intSymbols } (by unfold PlainNames; decide)

/-- Any character closes an array type. -/
theorem array_closed_by_mark :
    PlainNames intSymbols ∧
      ¬((∃ s, intSymbols.resolveFieldType ⟨"a.idl", 1, 0⟩ "f" "array<int!" = .ok s) ↔
        "array<int!" ∈ intSymbols.names ∨ IsArrayOf intSymbols "array<int!") := by
  refine ⟨by unfold PlainNames; decide, fun hiff => ?_⟩
  rcases hiff.mp ⟨_, rfl⟩ with hmem | ⟨inner, hinner, heq⟩
  · exact absurd hmem (by decide)
  · obtain rfl : inner = "int" := List.mem_singleton.mp hinner
    exact absurd heq (by decide)

end MongoTests.Idl
