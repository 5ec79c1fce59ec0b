import Mathlib.Data.List.Nodup
import Mathlib.Data.List.Perm.Basic
import MongoTests.Idl.Syntax

/-!
# The symbol table

`SymbolTable` of `syntax.py`: four lists of symbols that share one namespace.

* `add`: `add_command`, `add_enum`, `add_struct` and `add_type`; `addImported`:
  `add_imported_symbol_table`.
* `resolveFieldType`, `parseArrayType`: the symbol that a type name stands for.
* `addAll_spec`: what a sequence of symbols leaves in the table, with the errors.
* `resolveFieldType_eq`: the recursion of the source.
* **`symbolTable_spec`**: the tables that sequences of calls build.
-/

namespace MongoTests.Idl

/-! ## Tables -/

inductive Symbol
  | command (c : Command)
  | enum (e : Enum)
  | struct (s : Struct)
  | type (t : IdlType)
  deriving DecidableEq

namespace Symbol

def name : Symbol → String
  | .command c => c.name
  | .enum e => e.name
  | .struct s => s.name
  | .type t => t.name

def loc : Symbol → SourceLocation
  | .command c => c.loc
  | .enum e => e.loc
  | .struct s => s.loc
  | .type t => t.loc

/-- The name of the class in error messages. -/
def className : Symbol → String
  | .command _ => "command"
  | .enum _ => "enum"
  | .struct _ => "struct"
  | .type _ => "type"

/-- The symbol as `add_imported_symbol_table` leaves it. Types have no such mark. -/
def markImported : Symbol → Symbol
  | .command c => .command { c with imported := true }
  | .enum e => .enum { e with imported := true }
  | .struct s => .struct { s with imported := true }
  | .type t => .type t

@[simp] theorem name_markImported (s : Symbol) : s.markImported.name = s.name := by
  cases s <;> rfl

end Symbol

structure SymbolTable where
  commands : List Command := []
  enums : List Enum := []
  structs : List Struct := []
  types : List IdlType := []
  deriving DecidableEq

namespace SymbolTable

/-- The symbols in the order in which `_is_duplicate` and `_resolve_field_type` look at them. -/
def symbols (t : SymbolTable) : List Symbol :=
  t.commands.map .command ++ (t.enums.map .enum ++ (t.structs.map .struct ++ t.types.map .type))

def names (t : SymbolTable) : List String := t.symbols.map Symbol.name

def duplicateSymbolError (s original : Symbol) : ParserError where
  errorId := "ID0002"
  msg := s.className ++ " '" ++ s.name ++ "' is a duplicate symbol of an existing " ++
    original.className
  loc := s.loc

/-- `_is_duplicate`, with the error that it reports. -/
def isDuplicate (t : SymbolTable) (s : Symbol) : Option ParserError :=
  (t.symbols.find? fun item => item.name = s.name).map (duplicateSymbolError s)

/-- Append a symbol to the list of its kind. -/
def append (t : SymbolTable) : Symbol → SymbolTable
  | .command c => { t with commands := t.commands ++ [c] }
  | .enum e => { t with enums := t.enums ++ [e] }
  | .struct s => { t with structs := t.structs ++ [s] }
  | .type i => { t with types := t.types ++ [i] }

/-- `add_command`, `add_enum`, `add_struct` and `add_type`. -/
def add (t : SymbolTable) (s : Symbol) : SymbolTable × List ParserError :=
  match t.isDuplicate s with
  | some e => (t, [e])
  | none => (t.append s, [])

/-- Add the symbols one after the other. -/
def addAll (t : SymbolTable) : List Symbol → SymbolTable × List ParserError
  | [] => (t, [])
  | s :: rest =>
    let added := t.add s
    let all := addAll added.1 rest
    (all.1, added.2 ++ all.2)

/-- The symbols of an imported table in the order in which they are merged. -/
def importedSymbols (t : SymbolTable) : List Symbol :=
  (t.commands.map Symbol.command ++ (t.structs.map Symbol.struct ++
    (t.enums.map Symbol.enum ++ t.types.map Symbol.type))).map Symbol.markImported

def addImported (t imported : SymbolTable) : SymbolTable × List ParserError :=
  t.addAll imported.importedSymbols

end SymbolTable

/-! ## Type names -/

def startsWith (s start : String) : Bool := start.toList.isPrefixOf s.toList

def endsWith (s ending : String) : Bool := ending.toList.isSuffixOf s.toList

/-- `name[6:][:-1]`. -/
def stripArray (name : String) : String := String.ofList (name.toList.drop 6).dropLast

def parseArrayType (name : String) : Option String :=
  if !startsWith name "array<" && !endsWith name ">" then none
  else if startsWith (stripArray name) "array<" && endsWith (stripArray name) ">" then none
  else some (stripArray name)

theorem length_stripArray_lt {name : String} (h : startsWith name "array<" = true) :
    (stripArray name).toList.length < name.toList.length := by
  have hlen : 6 ≤ name.toList.length := by
    have h6 : "array<".toList.length = 6 := rfl
    rw [← h6]
    exact (List.isPrefixOf_iff_prefix.mp h).length_le
  rw [stripArray, String.toList_ofList, List.length_dropLast, List.length_drop]
  omega

def badArrayTypeNameError (loc : SourceLocation) (fieldName typeName : String) : ParserError where
  errorId := "ID0023"
  msg := "'" ++ typeName ++ "' is not a valid array type for field '" ++ fieldName ++
    "'. A valid array type is in the form 'array<type_name>'."
  loc := loc

def unknownTypeError (loc : SourceLocation) (fieldName typeName : String) : ParserError where
  errorId := "ID0006"
  msg := "'" ++ typeName ++ "' is an unknown type for field '" ++ fieldName ++ "'"
  loc := loc

namespace SymbolTable

/-- `_resolve_field_type`. Each `array<` makes the name shorter, so its length bounds the depth; at
depth `0` the name is empty. -/
def resolveFrom (t : SymbolTable) (loc : SourceLocation) (fieldName : String) :
    ℕ → String → Except ParserError Symbol
  | 0, typeName =>
    match t.symbols.find? fun s => s.name = typeName with
    | some s => .ok s
    | none => .error (unknownTypeError loc fieldName typeName)
  | depth + 1, typeName =>
    match t.symbols.find? fun s => s.name = typeName with
    | some s => .ok s
    | none =>
      if startsWith typeName "array<" then
        match (parseArrayType typeName).filter (· ≠ "") with
        | none => .error (badArrayTypeNameError loc fieldName typeName)
        | some arrayTypeName => t.resolveFrom loc fieldName depth arrayTypeName
      else .error (unknownTypeError loc fieldName typeName)

/-- `resolve_field_type`: the symbol, or the error about the name. -/
def resolveFieldType (t : SymbolTable) (loc : SourceLocation) (fieldName typeName : String) :
    Except ParserError Symbol :=
  t.resolveFrom loc fieldName typeName.toList.length typeName

end SymbolTable

/-! ## What a sequence of calls builds -/

namespace SymbolTable

variable {t : SymbolTable} {s : Symbol} {l : List Symbol}

theorem symbols_append (t : SymbolTable) (s : Symbol) :
    (t.append s).symbols.Perm (s :: t.symbols) := by
  cases s with
  | command c =>
    simp only [append, symbols, List.map_append, List.map_cons, List.map_nil, List.append_assoc]
    exact List.perm_middle
  | enum e =>
    simp only [append, symbols, List.map_append, List.map_cons, List.map_nil, List.append_assoc]
    exact (List.Perm.append_left _ List.perm_middle).trans List.perm_middle
  | struct s =>
    simp only [append, symbols, List.map_append, List.map_cons, List.map_nil, List.append_assoc]
    exact (List.Perm.append_left _ ((List.Perm.append_left _ List.perm_middle).trans
      List.perm_middle)).trans List.perm_middle
  | type i =>
    simp only [append, symbols, List.map_append, List.map_cons, List.map_nil, ← List.append_assoc]
    exact List.perm_append_singleton _ _

theorem names_append (t : SymbolTable) (s : Symbol) : (t.append s).names.Perm (s.name :: t.names) :=
  (symbols_append t s).map Symbol.name

theorem isDuplicate_eq_none : t.isDuplicate s = none ↔ s.name ∉ t.names := by
  simp [isDuplicate, names]

theorem add_of_notMem (h : s.name ∉ t.names) : t.add s = (t.append s, []) := by
  rw [add, isDuplicate_eq_none.mpr h]

theorem add_of_mem (h : s.name ∈ t.names) : ∃ e, t.add s = (t, [e]) := by
  cases hd : t.isDuplicate s with
  | none => exact absurd h (isDuplicate_eq_none.mp hd)
  | some e => exact ⟨e, by rw [add, hd]⟩

theorem addAll_append (t : SymbolTable) (l₁ l₂ : List Symbol) :
    t.addAll (l₁ ++ l₂) =
      (((t.addAll l₁).1.addAll l₂).1, (t.addAll l₁).2 ++ ((t.addAll l₁).1.addAll l₂).2) := by
  induction l₁ generalizing t with
  | nil => rfl
  | cons s l₁ ih =>
    simp only [List.cons_append, addAll]
    rw [ih, List.append_assoc]

/-- Some symbol of the list carries a name that is taken when its turn comes. -/
def Taken (t : SymbolTable) (l : List Symbol) : Prop :=
  ∃ l₁ s l₂, l = l₁ ++ s :: l₂ ∧ s.name ∈ t.names ++ l₁.map Symbol.name

theorem taken_cons_of_mem (h : s.name ∈ t.names) : Taken t (s :: l) :=
  ⟨[], s, l, rfl, List.mem_append_left _ h⟩

theorem taken_cons_of_notMem (h : s.name ∉ t.names) :
    Taken t (s :: l) ↔ Taken (t.append s) l := by
  have hmem : ∀ (n : String) (l₁ : List Symbol),
      n ∈ (t.append s).names ++ l₁.map Symbol.name ↔
        n ∈ t.names ++ (s :: l₁).map Symbol.name := by
    intro n l₁
    rw [List.mem_append, (names_append t s).mem_iff, List.mem_append, List.map_cons,
      List.mem_cons, List.mem_cons, or_left_comm, or_assoc]
  constructor
  · rintro ⟨l₁, s', l₂, hl, hs'⟩
    cases l₁ with
    | nil =>
      cases hl
      exact absurd (by simpa using hs') h
    | cons s₁ l₁ =>
      obtain ⟨rfl, rfl⟩ := List.cons.inj hl
      exact ⟨l₁, s', l₂, rfl, (hmem _ _).mpr hs'⟩
  · rintro ⟨l₁, s', l₂, rfl, hs'⟩
    exact ⟨s :: l₁, s', l₂, rfl, (hmem _ _).mp hs'⟩

theorem not_taken (hl : (l.map Symbol.name).Nodup)
    (hdisjoint : t.names.Disjoint (l.map Symbol.name)) : ¬ Taken t l := by
  rintro ⟨l₁, s, l₂, rfl, hs⟩
  obtain hs | hs := List.mem_append.mp hs
  · exact hdisjoint hs (List.mem_map_of_mem (List.mem_append_right _ List.mem_cons_self))
  · rw [List.map_append, List.map_cons] at hl
    exact (List.disjoint_of_nodup_append hl) hs List.mem_cons_self

/-- An imported table has the names of the table. -/
theorem names_importedSymbols (t : SymbolTable) :
    (t.importedSymbols.map Symbol.name).Perm t.names := by
  have hname : Symbol.name ∘ Symbol.markImported = Symbol.name :=
    funext fun s => s.name_markImported
  rw [importedSymbols, List.map_map, hname, names, symbols]
  refine List.Perm.map _ (List.Perm.append_left _ ?_)
  rw [← List.append_assoc, ← List.append_assoc]
  exact List.Perm.append_right _ List.perm_append_comm

/-- **What a sequence of symbols leaves in the table.** The names stay distinct, an error is
reported exactly when a name is taken, and without errors all symbols are in the table. -/
theorem addAll_spec (ht : t.names.Nodup) (l : List Symbol) :
    (t.addAll l).1.names.Nodup ∧ ((t.addAll l).2 ≠ [] ↔ Taken t l) ∧
      ((t.addAll l).2 = [] → (t.addAll l).1.symbols.Perm (t.symbols ++ l)) := by
  induction l generalizing t with
  | nil =>
    refine ⟨ht, ⟨fun h => absurd rfl h, ?_⟩, fun _ => by rw [List.append_nil]; exact .refl _⟩
    rintro ⟨l₁, s, l₂, hl, -⟩
    exact absurd hl.symm (List.append_ne_nil_of_right_ne_nil _ (List.cons_ne_nil _ _))
  | cons s l ih =>
    by_cases hs : s.name ∈ t.names
    · obtain ⟨e, he⟩ := add_of_mem hs
      simp only [addAll, he]
      refine ⟨(ih ht).1, ⟨fun _ => taken_cons_of_mem hs, fun _ => List.cons_ne_nil _ _⟩, ?_⟩
      intro h
      cases h
    · have hnodup : (t.append s).names.Nodup :=
        (names_append t s).nodup_iff.mpr (List.nodup_cons.mpr ⟨hs, ht⟩)
      obtain ⟨h₁, h₂, h₃⟩ := ih hnodup
      simp only [addAll, add_of_notMem hs, List.nil_append]
      refine ⟨h₁, h₂.trans (taken_cons_of_notMem hs).symm, fun h => (h₃ h).trans ?_⟩
      exact ((symbols_append t s).append_right l).trans List.perm_middle.symm

/-! ## Resolution -/

/-- The names of a table tell its symbols apart. -/
theorem find_eq_some (ht : t.names.Nodup) (hs : s ∈ t.symbols) :
    (t.symbols.find? fun s' => s'.name = s.name) = some s := by
  cases hf : t.symbols.find? fun s' => s'.name = s.name with
  | none =>
    have hne := List.find?_eq_none.mp hf s hs
    simp at hne
  | some s' =>
    have hname := List.find?_some hf
    rw [decide_eq_true_iff] at hname
    rw [List.inj_on_of_nodup_map ht (List.mem_of_find?_eq_some hf) hs hname]

theorem resolveFrom_of_mem (ht : t.names.Nodup) (hs : s ∈ t.symbols) (loc : SourceLocation)
    (fieldName : String) (depth : ℕ) : t.resolveFrom loc fieldName depth s.name = .ok s := by
  cases depth <;> rw [resolveFrom, find_eq_some ht hs]

end SymbolTable

theorem parseArrayType_length {name a : String} (h : startsWith name "array<" = true)
    (ha : parseArrayType name = some a) : a.toList.length < name.toList.length := by
  have hlt := length_stripArray_lt h
  unfold parseArrayType at ha
  split_ifs at ha
  cases ha
  exact hlt

namespace SymbolTable

/-- A depth of the length of the name is as good as any larger one. -/
theorem resolveFrom_depth (t : SymbolTable) (loc : SourceLocation) (fieldName : String)
    {d d' : ℕ} {n : String} (hd : n.toList.length ≤ d) (hd' : n.toList.length ≤ d') :
    t.resolveFrom loc fieldName d n = t.resolveFrom loc fieldName d' n := by
  have hshort : ∀ {m : String}, m.toList.length ≤ 0 → startsWith m "array<" = false := by
    intro m hm
    rw [startsWith, List.length_eq_zero_iff.mp (Nat.le_zero.mp hm)]
    rfl
  induction d generalizing d' n with
  | zero =>
    cases d' with
    | zero => rfl
    | succ d' => rw [resolveFrom, resolveFrom, hshort hd, if_neg Bool.false_ne_true]
  | succ d ih =>
    cases d' with
    | zero => rw [resolveFrom, resolveFrom, hshort hd', if_neg Bool.false_ne_true]
    | succ d' =>
      rw [resolveFrom, resolveFrom]
      split
      · rfl
      · split_ifs with hs
        · split
          · rfl
          · rename_i a ha
            have hlt := parseArrayType_length hs (Option.filter_eq_some_iff.mp ha).1
            exact ih (by omega) (by omega)
        · rfl

/-- The recursion of `_resolve_field_type`. -/
theorem resolveFieldType_eq (t : SymbolTable) (loc : SourceLocation) (fieldName typeName : String) :
    t.resolveFieldType loc fieldName typeName =
      match t.symbols.find? fun s => s.name = typeName with
      | some s => .ok s
      | none =>
        if startsWith typeName "array<" then
          match (parseArrayType typeName).filter (· ≠ "") with
          | none => .error (badArrayTypeNameError loc fieldName typeName)
          | some arrayTypeName => t.resolveFieldType loc fieldName arrayTypeName
        else .error (unknownTypeError loc fieldName typeName) := by
  rw [resolveFieldType, resolveFrom_depth t loc fieldName (Nat.le_refl _) (Nat.le_succ _),
    resolveFrom]
  split
  · rfl
  · split_ifs with hs
    · split
      · rfl
      · rename_i a ha
        have hlt := parseArrayType_length hs (Option.filter_eq_some_iff.mp ha).1
        exact resolveFrom_depth t loc fieldName (Nat.le_of_lt hlt) (Nat.le_refl _)
    · rfl

end SymbolTable

/-- The name of an array type. -/
def arrayOf (name : String) : String := "array<" ++ name ++ ">"

theorem stripArray_arrayOf (name : String) : stripArray (arrayOf name) = name := by
  rw [stripArray, arrayOf, String.toList_append, String.toList_append]
  have h : ("array<".toList ++ name.toList ++ ">".toList).drop 6 = name.toList ++ ['>'] := rfl
  rw [h, List.dropLast_concat, String.ofList_toList]

theorem startsWith_arrayOf (name : String) : startsWith (arrayOf name) "array<" = true := by
  rw [startsWith, List.isPrefixOf_iff_prefix, arrayOf, String.toList_append, String.toList_append,
    List.append_assoc]
  exact List.prefix_append _ _

theorem parseArrayType_arrayOf (name : String) : parseArrayType (arrayOf name) =
    if startsWith name "array<" && endsWith name ">" then none else some name := by
  rw [parseArrayType, startsWith_arrayOf, stripArray_arrayOf]
  rfl

namespace SymbolTable

variable {t : SymbolTable} {s : Symbol}

theorem resolveFieldType_arrayOf (ht : t.names.Nodup) (hs : s ∈ t.symbols)
    (hdecl : arrayOf s.name ∉ t.names) (loc : SourceLocation) (fieldName : String) :
    t.resolveFieldType loc fieldName (arrayOf s.name) =
      if s.name = "" ∨ (startsWith s.name "array<" && endsWith s.name ">") = true then
        .error (badArrayTypeNameError loc fieldName (arrayOf s.name))
      else .ok s := by
  have hlen : ∃ n, (arrayOf s.name).toList.length = n + 1 := by
    rw [arrayOf, String.toList_append, List.length_append]
    exact ⟨_, rfl⟩
  obtain ⟨n, hn⟩ := hlen
  have hfind : (t.symbols.find? fun s' => s'.name = arrayOf s.name) = none := by
    rw [List.find?_eq_none]
    intro s' hs' h
    exact hdecl (List.mem_map.mpr ⟨s', hs', of_decide_eq_true h⟩)
  rw [resolveFieldType, hn, resolveFrom, hfind]
  dsimp only
  rw [if_pos (startsWith_arrayOf _), parseArrayType_arrayOf]
  by_cases harr : (startsWith s.name "array<" && endsWith s.name ">") = true
  · rw [if_pos harr, if_pos (.inr harr)]
    rfl
  · by_cases hempty : s.name = ""
    · rw [if_neg harr, if_pos (.inl hempty), hempty]
      rfl
    · rw [if_neg harr, if_neg (not_or.mpr ⟨hempty, harr⟩), Option.filter_some_pos]
      · exact resolveFrom_of_mem ht hs loc fieldName n
      · simpa using hempty

end SymbolTable

/-! ## Calls -/

/-- A call of a method that adds symbols to a table. -/
inductive Call
  | add (s : Symbol)
  | addImported (imported : SymbolTable)

namespace Call

/-- The symbols that a call adds, in its order. -/
def symbols : Call → List Symbol
  | .add s => [s]
  | .addImported imported => imported.importedSymbols

def run (t : SymbolTable) : Call → SymbolTable × List ParserError
  | .add s => t.add s
  | .addImported imported => t.addImported imported

/-- A sequence of calls. -/
def runAll (t : SymbolTable) : List Call → SymbolTable × List ParserError
  | [] => (t, [])
  | c :: rest =>
    let first := c.run t
    let all := runAll first.1 rest
    (all.1, first.2 ++ all.2)

theorem run_eq_addAll (t : SymbolTable) (c : Call) : c.run t = t.addAll c.symbols := by
  cases c with
  | add s => simp [run, symbols, SymbolTable.addAll]
  | addImported imported => rfl

theorem runAll_eq_addAll (t : SymbolTable) (calls : List Call) :
    runAll t calls = t.addAll (calls.flatMap symbols) := by
  induction calls generalizing t with
  | nil => rfl
  | cons c calls ih => rw [runAll, List.flatMap_cons, SymbolTable.addAll_append, run_eq_addAll, ih]

end Call

/-- **The symbol table.** For every sequence of calls: at every point, also between the symbols of
one import, the names are distinct across the four kinds; an error is reported exactly when a symbol
is added under a name that is taken. Without an error the table holds the symbols that were added,
each of their names resolves to its symbol, and so does the name of its array, unless that is itself
the name of a symbol, or the name is empty or that of an array. -/
theorem symbolTable_spec (calls : List Call) :
    (∀ l, l <+: calls.flatMap Call.symbols → (SymbolTable.addAll {} l).1.names.Nodup) ∧
    Call.runAll {} calls = SymbolTable.addAll {} (calls.flatMap Call.symbols) ∧
    ((Call.runAll {} calls).2 ≠ [] ↔ ∃ l₁ s l₂,
      calls.flatMap Call.symbols = l₁ ++ s :: l₂ ∧ s.name ∈ l₁.map Symbol.name) ∧
    ((Call.runAll {} calls).2 = [] →
      (Call.runAll {} calls).1.symbols.Perm (calls.flatMap Call.symbols) ∧
      ∀ s ∈ calls.flatMap Call.symbols, ∀ loc fieldName,
        (Call.runAll {} calls).1.resolveFieldType loc fieldName s.name = .ok s ∧
        ((∀ s' ∈ calls.flatMap Call.symbols, s'.name ≠ arrayOf s.name) →
          (Call.runAll {} calls).1.resolveFieldType loc fieldName (arrayOf s.name) =
            if s.name = "" ∨ (startsWith s.name "array<" && endsWith s.name ">") = true then
              .error (badArrayTypeNameError loc fieldName (arrayOf s.name))
            else .ok s)) := by
  have hempty : (SymbolTable.names {}).Nodup := List.nodup_nil
  have hrun := Call.runAll_eq_addAll {} calls
  obtain ⟨hnodup, htaken, hsymbols⟩ :=
    SymbolTable.addAll_spec hempty (calls.flatMap Call.symbols)
  rw [hrun]
  refine ⟨fun l _ => (SymbolTable.addAll_spec hempty l).1, rfl, htaken, fun h => ?_⟩
  have hperm := hsymbols h
  refine ⟨hperm, fun s hs loc fieldName => ?_⟩
  have hs' := hperm.mem_iff.mpr hs
  refine ⟨SymbolTable.resolveFrom_of_mem hnodup hs' loc fieldName _, fun hdecl => ?_⟩
  refine SymbolTable.resolveFieldType_arrayOf hnodup hs' (fun hmem => ?_) loc fieldName
  obtain ⟨s₁, hs₁, hname⟩ := List.mem_map.mp hmem
  exact hdecl s₁ (hperm.mem_iff.mp hs₁) hname

/-- A type that is itself called an array is declared, but there are no arrays of it. -/
theorem nested_array_unresolved :
    let loc : SourceLocation := ⟨"a.idl", 0, 0⟩
    let calls := [Call.add (.type { loc, name := "array<string>" })]
    (Call.runAll {} calls).2 = [] ∧
    (Call.runAll {} calls).1.resolveFieldType loc "f" (arrayOf "array<string>") =
      .error (badArrayTypeNameError loc "f" "array<array<string>>") := by
  decide

end MongoTests.Idl
