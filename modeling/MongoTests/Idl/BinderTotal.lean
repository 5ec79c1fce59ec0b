import MongoTests.Idl.BinderField
import MongoTests.Idl.Import

/-!
# Binding and its exceptions

* `Struct.takenNames`: the names of the fields that are bound before a chained struct.
* `raises_bindStructCommon`, `raises_bindCommand`, `raises_bindEnum`: when these raise; server
  parameters and configuration options never do.
* `hasFields_of_bindStructCommon`, `hasFields_of_bindCommand`: without errors, no field is missing.
* **`bind_total_iff`**: on which documents of the parser the binder has a result.
-/

namespace MongoTests.Idl

open MongoTests.Lib Report

/-! ## The names of the fields of a struct -/

/-- The names of some bound fields. -/
def HasNames (fields : List Ast.Field) (names : Set String) : Prop :=
  ∀ n, n ∈ fields.map (·.name) ↔ n ∈ names

/-- The name that a chained type takes. -/
def Chained.typeNames (spec : IDLSpec) (loc : SourceLocation) (c : Chained) : Set String :=
  {n | ∃ t, spec.symbols.resolveFieldType loc c.name c.name = .ok (.type t) ∧
    t.bsonSerializationType = some ["chain"] ∧ t.name = n}

/-- The names that a struct takes where it is chained. -/
def Struct.chainedNames (py : Python) (spec : IDLSpec) (s : Struct) : Set String :=
  {n | n = s.name ∨ ∃ f ∈ s.fields.getD [], f.Binds py spec ∧ f.name = n}

/-- The names that are taken after a chained struct. It adds none when its own name is taken. -/
def takeStruct (py : Python) (spec : IDLSpec) (loc : SourceLocation) (names : Set String)
    (c : Chained) : Set String :=
  names ∪ {n | ∃ s, spec.symbols.resolveFieldType loc c.name c.name = .ok (.struct s) ∧
    s.name ∉ names ∧ n ∈ s.chainedNames py spec}

/-- The names that are taken after the chained types of a struct and some of its chained structs. -/
def Struct.takenNames (py : Python) (spec : IDLSpec) (struct : Struct) (chained : List Chained) :
    Set String :=
  chained.foldl (takeStruct py spec struct.loc)
    {n | ∃ c ∈ struct.chainedTypes.getD [], n ∈ c.typeNames spec struct.loc}

section Names

variable {py : Python} {spec : IDLSpec} {fields fields' : List Ast.Field} {names : Set String}
  {ws : List ParserError}

theorem isDuplicateField_eq_none {container : String} {f : Ast.Field} :
    isDuplicateField container fields f = none ↔ f.name ∉ fields.map (·.name) := by
  rw [isDuplicateField, Option.map_eq_none_iff, List.getLast?_eq_none_iff, List.filter_eq_nil_iff]
  simp

theorem HasNames.append (h : HasNames fields names) (f : Ast.Field) :
    HasNames (fields ++ [f]) (names ∪ {f.name}) := by
  intro n
  rw [List.map_append, List.mem_append, h n, Set.mem_union, List.map_singleton,
    List.mem_singleton, Set.mem_singleton_iff]

/-- A name that is taken adds nothing. -/
theorem HasNames.union_of_mem (h : HasNames fields names) {n : String}
    (hn : n ∈ fields.map (·.name)) : HasNames fields (names ∪ {n}) := by
  rw [Set.union_eq_left.mpr (Set.singleton_subset_iff.mpr ((h n).mp hn))]
  exact h

theorem appendField_names (h : HasNames fields names) {container : String} {f : Ast.Field}
    (hrun : appendField container fields f = .ok fields' ws) :
    HasNames fields' (names ∪ {f.name}) := by
  unfold appendField at hrun
  split at hrun
  · rename_i e he
    cases hrun
    refine h.union_of_mem ?_
    by_contra hn
    rw [isDuplicateField_eq_none.mpr hn] at he
    cases he
  · cases hrun
    exact h.append f

theorem not_raises_appendField (container : String) (f : Ast.Field) :
    ¬ Raises (appendField container fields f) := by
  unfold appendField
  split <;> simp [raises_bind]

/-- The names after a loop that adds the names of its items. -/
theorem foldl_union {α : Type} (g : α → Set String) (l : List α) (names : Set String) :
    l.foldl (fun names a => names ∪ g a) names = names ∪ {n | ∃ a ∈ l, n ∈ g a} := by
  induction l generalizing names with
  | nil => simp
  | cons a l ih =>
    rw [List.foldl_cons, ih, Set.union_assoc]
    congr 1
    ext n
    simp

/-! ## Chained types -/

/-- A chained type raises when it is a type without BSON types. -/
def Chained.Raising (spec : IDLSpec) (loc : SourceLocation) (c : Chained) : Prop :=
  ∃ t, spec.symbols.resolveFieldType loc c.name c.name = .ok (.type t) ∧
    t.bsonSerializationType = some []

theorem raises_addChainedType (hc : Complete spec) (struct : Struct) (c : Chained) :
    Raises (addChainedType spec struct fields c) ↔ c.Raising spec struct.loc := by
  unfold addChainedType
  refine (raises_bind_left fun o => ?_).trans ?_
  · cases o with
    | none => exact not_raises_pure _
    | some f => exact not_raises_appendField _ _
  unfold bindChainedType Chained.Raising
  cases hresolve : spec.symbols.resolveFieldType struct.loc c.name c.name with
  | error e => simp [raises_bind]
  | ok symbol =>
    cases symbol with
    | command _ => simp [raises_bind]
    | enum _ => simp [raises_bind]
    | struct _ => simp [raises_bind]
    | type t =>
      obtain ⟨bsonTypes, hbson⟩ := Option.isSome_iff_exists.mp
        (hc.type_mem (SymbolTable.mem_of_resolveFieldType hresolve)).2
      simp only [hbson, Except.ok.injEq, Symbol.type.injEq, exists_eq_left', Option.some.injEq]
      split_ifs with hchain
      · simp [hchain]
      · cases bsonTypes with
        | nil => simp
        | cons bsonType rest => simp [raises_bind]

theorem bindChainedType_names {loc : SourceLocation} {c : Chained} {o : Option Ast.Field}
    (h : bindChainedType spec loc c = .ok o ws) :
    c.typeNames spec loc = {n | ∃ f ∈ o, f.name = n} := by
  have hnone : (∀ t, spec.symbols.resolveFieldType loc c.name c.name = .ok (.type t) →
      t.bsonSerializationType ≠ some ["chain"]) → o = none →
      c.typeNames spec loc = {n | ∃ f ∈ o, f.name = n} := by
    rintro hchain rfl
    ext n
    simp only [Chained.typeNames, Set.mem_ofPred_eq, Option.not_mem_none, false_and, exists_false,
      iff_false]
    rintro ⟨t, ht, hbson, -⟩
    exact hchain t ht hbson
  unfold bindChainedType at h
  split at h
  · rename_i e hresolve
    refine hnone (fun t ht => ?_) ?_
    · rw [hresolve] at ht
      cases ht
    · cases h
      rfl
  · rename_i t hresolve
    split at h
    · cases h
    · rename_i bsonTypes hbson
      split_ifs at h with hchain
      · cases h
        ext n
        simp [Chained.typeNames, hresolve, hbson, hchain]
      · refine hnone (fun t' ht' => ?_) ?_
        · rw [hresolve] at ht'
          cases ht'
          rw [hbson]
          simpa using hchain
        · split at h <;> cases h
          rfl
  · rename_i symbol htype hresolve
    refine hnone (fun t ht => ?_) ?_
    · exact absurd (Except.ok.inj (hresolve.symm.trans ht)) (htype t)
    · cases h
      rfl

theorem addChainedType_names (h : HasNames fields names) {struct : Struct} {c : Chained}
    (hrun : addChainedType spec struct fields c = .ok fields' ws) :
    HasNames fields' (names ∪ c.typeNames spec struct.loc) := by
  obtain ⟨o, ws₁, ws₂, hbind, hrun, -⟩ := bind_eq_ok.mp hrun
  rw [bindChainedType_names hbind]
  cases o with
  | none =>
    cases hrun
    simpa using h
  | some f =>
    have hsingle : {n | ∃ f' ∈ some f, f'.name = n} = {f.name} := by
      ext n
      simp [eq_comm]
    rw [hsingle]
    exact appendField_names h hrun

/-! ## Chained structs -/

/-- The name that a field takes when it is bound. -/
def Field.boundNames (py : Python) (spec : IDLSpec) (f : Field) : Set String :=
  {n | f.Binds py spec ∧ f.name = n}

theorem mergeField_names (h : HasNames fields names) {struct s : Struct} {c : Chained}
    {field : Field} (hrun : mergeField py spec struct s c fields field = .ok fields' ws) :
    HasNames fields' (names ∪ field.boundNames py spec) := by
  obtain ⟨o, ws₁, ws₂, hbind, hrun, -⟩ := bind_eq_ok.mp hrun
  obtain ⟨hbinds, -, hname⟩ := bindField_eq_ok hbind
  cases o with
  | none =>
    have hempty : field.boundNames py spec = ∅ := by
      ext n
      simp [Field.boundNames, ← hbinds]
    cases hrun
    rwa [hempty, Set.union_empty]
  | some f =>
    have hsingle : field.boundNames py spec = {f.name} := by
      ext n
      simp [Field.boundNames, ← hbinds, hname f rfl, eq_comm]
    rw [hsingle]
    dsimp only at hrun
    split at hrun
    · rename_i e he
      cases hrun
      refine h.union_of_mem ?_
      by_contra hn
      rw [isDuplicateField_eq_none.mpr hn] at he
      cases he
    · cases hrun
      split_ifs
      · exact h.append { f with chainedStructField := some s.name }
      · exact h.append { f with ignore := true }

theorem raises_mergeField (hc : Complete spec) {struct s : Struct} {c : Chained} {field : Field}
    (htype : field.type.isSome) :
    Raises (mergeField py spec struct s c fields field) ↔ field.Raising spec := by
  refine (raises_bind_left fun o => ?_).trans (raises_bindField hc htype)
  cases o with
  | none => exact not_raises_pure _
  | some f =>
    dsimp only
    split <;> simp [raises_bind]

theorem mergeStruct_names (h : HasNames fields names) {struct s : Struct} {c : Chained}
    (hrun : mergeStruct py spec struct s c fields = .ok fields' ws) :
    HasNames fields' (names ∪ {n | s.name ∉ names ∧ n ∈ s.chainedNames py spec}) := by
  unfold mergeStruct at hrun
  dsimp only at hrun
  split at hrun
  · rename_i e he
    have hmem : s.name ∈ names := by
      rw [← h s.name]
      by_contra hn
      rw [isDuplicateField_eq_none.mpr hn] at he
      cases he
    have hempty : {n | s.name ∉ names ∧ n ∈ s.chainedNames py spec} = ∅ := by
      ext n
      simp [hmem]
    cases hrun
    rwa [hempty, Set.union_empty]
  · rename_i hnone
    have hmem : s.name ∉ names := by
      rw [← h s.name]
      exact isDuplicateField_eq_none.mp hnone
    have hstep : ∀ fields names field fields' ws, HasNames fields names →
        mergeField py spec struct s c fields field = .ok fields' ws →
        HasNames fields' (names ∪ field.boundNames py spec) :=
      fun _ _ _ _ _ h hrun => mergeField_names h hrun
    have hnames := abs_of_foldlM hstep (h.append (chainedStructField struct s c)) hrun
    rw [foldl_union] at hnames
    intro n
    rw [hnames n]
    simp only [Set.mem_union, Set.mem_singleton_iff, Set.mem_ofPred_eq, Struct.chainedNames,
      Field.boundNames, chainedStructField, hmem, not_false_eq_true, true_and, or_assoc]

theorem raises_mergeStruct (hc : Complete spec) (h : HasNames fields names) {struct s : Struct}
    {c : Chained} (hs : s.Typed) :
    Raises (mergeStruct py spec struct s c fields) ↔
      s.name ∉ names ∧ ∃ f ∈ s.fields.getD [], f.Raising spec := by
  unfold mergeStruct
  dsimp only
  split
  · rename_i e he
    have hmem : s.name ∈ names := by
      rw [← h s.name]
      by_contra hn
      rw [isDuplicateField_eq_none.mpr hn] at he
      cases he
    simp [raises_bind, hmem]
  · rename_i hnone
    have hmem : s.name ∉ names := by
      rw [← h s.name]
      exact isDuplicateField_eq_none.mp hnone
    have hfields : ∀ f ∈ s.fields.getD [], ∀ fields,
        Raises (mergeField py spec struct s c fields f) ↔ f.Raising spec :=
      fun f hf _ => raises_mergeField hc (hs f hf)
    rw [raises_foldlM hfields]
    simp [hmem]

/-- The fields of a complete struct have types. -/
theorem Complete.struct_mem (hc : Complete spec) {s : Struct}
    (hs : Symbol.struct s ∈ spec.symbols.symbols) : s.Typed :=
  hc.structs s (by simpa [SymbolTable.symbols] using hs)

/-- A chained struct raises where one of its fields does, unless its name is taken. -/
theorem raises_bindChainedStruct (hc : Complete spec) (h : HasNames fields names) (struct : Struct)
    (c : Chained) :
    Raises (bindChainedStruct py spec struct fields c) ↔
      ∃ s, spec.symbols.resolveFieldType struct.loc c.name c.name = .ok (.struct s) ∧
        s.name ∉ names ∧ ∃ f ∈ s.fields.getD [], f.Raising spec := by
  unfold bindChainedStruct
  cases hresolve : spec.symbols.resolveFieldType struct.loc c.name c.name with
  | error e => simp [raises_bind]
  | ok symbol =>
    cases symbol with
    | command _ => simp [raises_bind]
    | enum _ => simp [raises_bind]
    | type _ => simp [raises_bind]
    | struct s =>
      have hs := hc.struct_mem (SymbolTable.mem_of_resolveFieldType hresolve)
      dsimp only
      rw [raises_bind_right (not_raises_logIf _ _) fun _ =>
        raises_bind_right (not_raises_logIf _ _) fun _ => raises_mergeStruct hc h hs]
      simp

theorem bindChainedStruct_names (h : HasNames fields names) {struct : Struct} {c : Chained}
    (hrun : bindChainedStruct py spec struct fields c = .ok fields' ws) :
    HasNames fields' (takeStruct py spec struct.loc names c) := by
  have hnone : (∀ s, spec.symbols.resolveFieldType struct.loc c.name c.name ≠ .ok (.struct s)) →
      fields' = fields → HasNames fields' (takeStruct py spec struct.loc names c) := by
    rintro hresolve rfl
    have hempty : takeStruct py spec struct.loc names c = names := by
      ext n
      simp [takeStruct, hresolve]
    rwa [hempty]
  unfold bindChainedStruct at hrun
  split at hrun
  · rename_i e hresolve
    refine hnone (fun s hs => ?_) ?_
    · rw [hresolve] at hs
      cases hs
    · cases hrun
      rfl
  · rename_i s hresolve
    obtain ⟨_, _, _, -, hrun, -⟩ := bind_eq_ok.mp hrun
    obtain ⟨_, _, _, -, hrun, -⟩ := bind_eq_ok.mp hrun
    have hnames := mergeStruct_names h hrun
    have htake : takeStruct py spec struct.loc names c =
        names ∪ {n | s.name ∉ names ∧ n ∈ s.chainedNames py spec} := by
      ext n
      simp [takeStruct, hresolve]
    rwa [htake]
  · rename_i symbol hstruct hresolve
    refine hnone (fun s hs => ?_) ?_
    · exact absurd (Except.ok.inj (hresolve.symm.trans hs)) (hstruct s)
    · cases hrun
      rfl

/-! ## Structs -/

/-- **When a struct raises**: a chained type has no BSON types, or a field is of an enumeration
without type information. The fields are its own and those of the chained structs whose names are
not taken. -/
def Struct.Raising (py : Python) (spec : IDLSpec) (struct : Struct) : Prop :=
  (∃ c ∈ struct.chainedTypes.getD [], c.Raising spec struct.loc) ∨
  (∃ pre c post, struct.chainedStructs.getD [] = pre ++ c :: post ∧
    ∃ s, spec.symbols.resolveFieldType struct.loc c.name c.name = .ok (.struct s) ∧
      s.name ∉ struct.takenNames py spec pre ∧ ∃ f ∈ s.fields.getD [], f.Raising spec) ∨
  ∃ f ∈ struct.fields.getD [], f.Raising spec

theorem raises_addOwnField (hc : Complete spec) {isCommand : Bool} {struct : Struct} {field : Field}
    (htype : field.type.isSome) :
    Raises (addOwnField py spec isCommand struct fields field) ↔ field.Raising spec := by
  refine (raises_bind_left fun o => ?_).trans (raises_bindField hc htype)
  cases o with
  | none => exact not_raises_pure _
  | some f =>
    exact not_raises_bind (not_raises_logIf _ _) fun _ =>
      not_raises_bind (not_raises_logIf _ _) fun _ => not_raises_appendField _ _

/-- The names after the loop over the chained types. -/
theorem chainedTypes_names (py : Python) {struct : Struct}
    (hrun : (struct.chainedTypes.getD []).foldlM (addChainedType spec struct) [] = .ok fields ws) :
    HasNames fields (struct.takenNames py spec []) := by
  have hstep : ∀ fields names c fields' ws, HasNames fields names →
      addChainedType spec struct fields c = .ok fields' ws →
      HasNames fields' (names ∪ c.typeNames spec struct.loc) :=
    fun _ _ _ _ _ h hrun => addChainedType_names h hrun
  have hempty : HasNames [] ∅ := fun n => by simp
  have hnames := abs_of_foldlM hstep hempty hrun
  rw [foldl_union, Set.empty_union] at hnames
  exact hnames

/-- The loop over the chained structs, from these names. -/
theorem raises_chainedStructs (hc : Complete spec) {struct : Struct}
    (h : HasNames fields (struct.takenNames py spec [])) :
    Raises ((struct.chainedStructs.getD []).foldlM (bindChainedStruct py spec struct) fields) ↔
      ∃ pre c post, struct.chainedStructs.getD [] = pre ++ c :: post ∧
        ∃ s, spec.symbols.resolveFieldType struct.loc c.name c.name = .ok (.struct s) ∧
          s.name ∉ struct.takenNames py spec pre ∧ ∃ f ∈ s.fields.getD [], f.Raising spec := by
  have hraises : ∀ fields names c, HasNames fields names →
      (Raises (bindChainedStruct py spec struct fields c) ↔
        ∃ s, spec.symbols.resolveFieldType struct.loc c.name c.name = .ok (.struct s) ∧
          s.name ∉ names ∧ ∃ f ∈ s.fields.getD [], f.Raising spec) :=
    fun _ _ c h => raises_bindChainedStruct hc h struct c
  have hstep : ∀ fields names c fields' ws, HasNames fields names →
      bindChainedStruct py spec struct fields c = .ok fields' ws →
      HasNames fields' (takeStruct py spec struct.loc names c) :=
    fun _ _ _ _ _ h hrun => bindChainedStruct_names h hrun
  exact raises_foldlM_abs hraises hstep h

theorem raises_bindStructCommon (hc : Complete spec) {isCommand : Bool} {struct : Struct}
    (hs : struct.Typed) :
    Raises (bindStructCommon py spec isCommand struct) ↔ struct.Raising py spec := by
  have hfields : ∀ f ∈ struct.fields.getD [], ∀ fields,
      Raises (addOwnField py spec isCommand struct fields f) ↔ f.Raising spec :=
    fun f hf _ => raises_addOwnField hc (hs f hf)
  have htypes : ∀ c ∈ struct.chainedTypes.getD [], ∀ fields,
      Raises (addChainedType spec struct fields c) ↔ c.Raising spec struct.loc :=
    fun c _ _ => raises_addChainedType hc struct c
  unfold bindStructCommon Struct.Raising
  rw [raises_bind_right (not_raises_logIf _ _) fun _ => Iff.rfl,
    raises_bind_right (not_raises_logIf _ _) fun _ => Iff.rfl, ← raises_foldlM htypes []]
  refine raises_bind_iff_of_ok fun fields ws hrun => ?_
  rw [← raises_chainedStructs hc (chainedTypes_names py hrun)]
  refine raises_bind_iff fun fields => ?_
  rw [← raises_foldlM hfields fields]
  exact raises_bind_left fun fields => not_raises_bind (not_raises_of _) fun _ => not_raises_pure _

/-! ## Structs without errors -/

/-- The bound struct has a field for each field of the struct. -/
def Ast.Struct.HasFields (b : Ast.Struct) (struct : Idl.Struct) : Prop :=
  ∀ f ∈ struct.fields.getD [], f.name ∈ b.fields.map (·.name)

theorem addOwnField_eq_quiet {isCommand : Bool} {struct : Struct} {field : Field}
    (h : addOwnField py spec isCommand struct fields field = .ok fields' []) :
    ∃ f, f.name = field.name ∧ fields' = fields ++ [f] := by
  obtain ⟨o, ho, h⟩ := bind_eq_quiet.mp h
  obtain ⟨-, hquiet, hname⟩ := bindField_eq_ok ho
  obtain ⟨f, rfl⟩ := Option.isSome_iff_exists.mp (hquiet rfl)
  obtain ⟨-, -, h⟩ := bind_eq_quiet.mp h
  obtain ⟨-, -, h⟩ := bind_eq_quiet.mp h
  unfold appendField at h
  split at h
  · cases h
  · cases h
    exact ⟨f, hname f rfl, rfl⟩

/-- The loop over the fields adds all of them. -/
theorem ownFields_eq_quiet {isCommand : Bool} {struct : Struct} {l : List Field}
    (h : l.foldlM (addOwnField py spec isCommand struct) fields = .ok fields' []) :
    fields'.map (·.name) = fields.map (·.name) ++ l.map (·.name) := by
  induction l generalizing fields with
  | nil =>
    cases h
    simp
  | cons field l ih =>
    rw [List.foldlM_cons] at h
    obtain ⟨fields₁, hfield, h⟩ := bind_eq_quiet.mp h
    obtain ⟨f, hname, rfl⟩ := addOwnField_eq_quiet hfield
    rw [ih h]
    simp [hname]

theorem names_orderFields (struct : Struct) (fields : List Ast.Field) :
    (orderFields struct fields).1.map (·.name) = fields.map (·.name) := by
  unfold orderFields
  split_ifs
  · exact List.ext_getElem (by simp) (by simp)
  · rfl
  · rfl

theorem hasFields_of_bindStructCommon {isCommand : Bool} {struct : Struct} {b : Ast.Struct}
    (h : bindStructCommon py spec isCommand struct = .ok b []) : b.HasFields struct := by
  obtain ⟨-, -, h⟩ := bind_eq_quiet.mp h
  obtain ⟨-, -, h⟩ := bind_eq_quiet.mp h
  obtain ⟨fields₁, -, h⟩ := bind_eq_quiet.mp h
  obtain ⟨fields₂, -, h⟩ := bind_eq_quiet.mp h
  obtain ⟨fields₃, hown, h⟩ := bind_eq_quiet.mp h
  obtain ⟨fields₄, horder, h⟩ := bind_eq_quiet.mp h
  cases h
  have hordered : fields₄ = (orderFields struct fields₃).1 := by
    rw [of] at horder
    exact (Report.ok.inj horder).1.symm
  intro f hf
  rw [hordered, names_orderFields, ownFields_eq_quiet hown]
  exact List.mem_append_right _ (List.mem_map_of_mem hf)

end Names

/-! ## Commands -/

/-- A command with its hidden field. -/
def Command.withDb (c : Command) : Struct :=
  { c.toStruct with fields := some (c.fields.getD [] ++ [dbField c]) }

/-- **When a command raises**: as a struct with the field `$db`, or its type is an enumeration. -/
def Command.Raising (py : Python) (spec : IDLSpec) (c : Command) : Prop :=
  c.withDb.Raising py spec ∨ ∃ type e, c.type = some type ∧ type ≠ "" ∧
    spec.symbols.resolveFieldType c.loc c.name type = .ok (.enum e)

section Commands

variable {py : Python} {spec : IDLSpec}

theorem raises_bindCommandType (hc : Complete spec) (c : Command) (type : String) :
    Raises (bindCommandType py spec c type) ↔
      ∃ e, spec.symbols.resolveFieldType c.loc c.name type = .ok (.enum e) := by
  unfold bindCommandType
  rw [raises_bind_right (not_raises_logIf _ _) fun _ => Iff.rfl]
  cases hresolve : spec.symbols.resolveFieldType c.loc c.name type with
  | error e => simp [raises_bind]
  | ok symbol =>
    cases symbol with
    | command _ => simp [raises_bind]
    | enum _ => simp
    | struct _ => simp [raises_bind]
    | type t =>
      obtain ⟨hcpp, hbson⟩ := hc.type_mem (SymbolTable.mem_of_resolveFieldType hresolve)
      simp only [Except.ok.injEq, reduceCtorEq, exists_false, iff_false]
      refine not_raises_bind (not_raises_validateTypeProperties hbson hcpp) fun _ =>
        not_raises_bind ?_ fun _ => not_raises_pure _
      simp [validateFieldProperties, raises_bind]

theorem raises_bindCommandField (hc : Complete spec) (c : Command) :
    Raises (bindCommandField py spec c) ↔ ∃ type e, c.type = some type ∧ type ≠ "" ∧
      spec.symbols.resolveFieldType c.loc c.name type = .ok (.enum e) := by
  unfold bindCommandField
  cases htype : c.type with
  | none => simp
  | some type =>
    by_cases hempty : type = ""
    · rw [Option.filter_some_neg (by simp [hempty])]
      simp [hempty]
    · rw [Option.filter_some_pos (by simp [hempty])]
      simp [hempty, raises_bindCommandType hc]

theorem raises_bindCommand (hc : Complete spec) {c : Command}
    (h : c.toStruct.Typed ∧ c.fields.isSome) :
    Raises (bindCommand py spec c) ↔ c.Raising py spec := by
  obtain ⟨fields, hfields⟩ := Option.isSome_iff_exists.mp h.2
  have hinject : injectHiddenCommandFields c = pure { c with toStruct := c.withDb } := by
    rw [injectHiddenCommandFields, hfields, Command.withDb, hfields]
    rfl
  have htyped : c.withDb.Typed := by
    refine forall_mem_append_singleton h.1 ?_
    rfl
  unfold bindCommand Command.Raising
  rw [hinject, Report.pure_bind, ← raises_bindStructCommon hc htyped]
  refine raises_bind_iff fun struct => ?_
  refine (raises_bind_left fun o => ?_).trans
    (raises_bindCommandField hc { c with toStruct := c.withDb })
  exact not_raises_bind (not_raises_logIf _ _) fun _ => not_raises_pure _

/-- A type that is refused is reported. -/
theorem isSome_of_bindCommandType {c : Command} {type : String} {o : Option Ast.Field}
    (h : bindCommandType py spec c type = .ok o []) : o.isSome := by
  obtain ⟨-, -, h⟩ := bind_eq_quiet.mp h
  split at h
  · cases h
  · cases h
  · cases h
  · obtain ⟨-, -, h⟩ := bind_eq_quiet.mp h
    cases h
    rfl
  · obtain ⟨-, -, h⟩ := bind_eq_quiet.mp h
    obtain ⟨-, -, h⟩ := bind_eq_quiet.mp h
    cases h
    rfl

/-- The bound command has a field for each field of the command, `$db` included, and for its type if
it has one. -/
def Ast.Command.HasFields (b : Ast.Command) (c : Idl.Command) : Prop :=
  b.toStruct.HasFields c.withDb ∧ (truthy c.type = true → b.commandField.isSome)

theorem hasFields_of_bindCommand {c : Command} {b : Ast.Command}
    (h : bindCommand py spec c = .ok b []) : b.HasFields c := by
  obtain ⟨c', hinject, h⟩ := bind_eq_quiet.mp h
  obtain ⟨struct, hstruct, h⟩ := bind_eq_quiet.mp h
  obtain ⟨o, ho, h⟩ := bind_eq_quiet.mp h
  obtain ⟨-, -, h⟩ := bind_eq_quiet.mp h
  cases h
  have hc' : c' = { c with toStruct := c.withDb } := by
    unfold injectHiddenCommandFields at hinject
    split at hinject
    · cases hinject
    · rename_i fields hfields
      cases hinject
      rw [Command.withDb, hfields]
      rfl
  subst hc'
  refine ⟨hasFields_of_bindStructCommon hstruct, fun htype => ?_⟩
  unfold bindCommandField at ho
  cases hc : c.type with
  | none => simp [hc, truthy] at htype
  | some type =>
    have hne : type ≠ "" := by simpa [hc, truthy] using htype
    rw [hc, Option.filter_some_pos (by simpa using hne)] at ho
    exact isSome_of_bindCommandType ho

end Commands

/-! ## Enumerations -/

section Enums

variable {py : Python} {e : Enum}

theorem intValues_eq_nil {values : List EnumValue} : intValues py values = .ok [] ↔ values = [] := by
  cases values with
  | nil => simp [intValues]
  | cons v rest =>
    simp only [intValues, reduceCtorEq, iff_false]
    split
    · simp
    · split <;> simp

theorem raises_validateEnumInt (values : List EnumValue) :
    Raises (validateEnumInt py e values) ↔ values = [] := by
  rw [← @intValues_eq_nil py]
  unfold validateEnumInt
  split
  · rename_i h
    simp [h]
  · rename_i h
    simp [h]
  · rename_i h
    simp [h]

theorem raises_validateEnumValues (values : List EnumValue) :
    Raises (validateEnumValues py e values) ↔ e.type = some "int" ∧ values = [] := by
  unfold validateEnumValues
  rw [raises_bind_right (not_raises_logIf _ _) fun _ => Iff.rfl]
  split_ifs with htype
  · simp [raises_validateEnumInt, htype]
  · simp [htype]

/-- **When an enumeration raises**: it is one of integers, and it has no values. -/
theorem raises_bindEnum (hvalues : e.values.isSome) :
    Raises (bindEnum py e) ↔ e.type = some "int" ∧ e.values = some [] := by
  obtain ⟨values, hvalues⟩ := Option.isSome_iff_exists.mp hvalues
  unfold bindEnum
  split_ifs with hinfo
  · have hint := (enumTypeInfo_eq_none.mp (Option.isNone_iff_eq_none.mp hinfo)).1
    simp [raises_bind, hint]
  · rw [hvalues]
    refine (raises_bind_left fun _ => not_raises_pure _).trans ?_
    simp [raises_validateEnumValues]

/-- An enumeration that is refused is reported. -/
theorem isSome_of_bindEnum {o : Option Ast.Enum} (h : bindEnum py e = .ok o []) : o.isSome := by
  unfold bindEnum at h
  split_ifs at h
  · cases h
  · split at h
    · cases h
    · obtain ⟨_, -, h⟩ := bind_eq_quiet.mp h
      cases h
      rfl

end Enums

/-! ## Server parameters and configuration options -/

section Options

variable {py : Python}

/-- A validator that can refuse what it belongs to. -/
theorem not_raises_bindValidator_then {α : Type} (v : Validator)
    {g : Option Ast.Validator → Pass (Option α)} (hg : ∀ o, ¬ Raises (g o)) :
    ¬ Raises (bindValidator py v >>= g) :=
  not_raises_bind (accepts_bindValidator py v).not_raises hg

theorem not_raises_bindServerParameterValidator (node : Ast.ServerParameter) (p : ServerParameter) :
    ¬ Raises (bindServerParameterValidator py node p) := by
  unfold bindServerParameterValidator
  split
  · exact not_raises_pure _
  · refine not_raises_bindValidator_then _ fun o => ?_
    cases o <;> exact not_raises_pure _

theorem not_raises_bindServerParameter {p : ServerParameter} (h : p.setAt.isSome) :
    ¬ Raises (bindServerParameter py p) := by
  obtain ⟨setAt, hsetAt⟩ := Option.isSome_iff_exists.mp h
  have hset : ¬ Raises (bindServerParameterSetAt py p) := by
    unfold bindServerParameterSetAt
    rw [hsetAt]
    dsimp only
    split <;> simp [raises_bind]
  refine not_raises_bind hset fun o => ?_
  cases o with
  | none => exact not_raises_pure _
  | some setAt =>
    dsimp only
    split
    · unfold bindServerParameterClass
      dsimp only
      split
      · simp [raises_bind]
      · split
        · exact not_raises_pure _
        · split_ifs <;> simp [raises_bind]
    · split_ifs
      · unfold bindServerParameterWithStorage
        dsimp only
        split_ifs
        · simp [raises_bind]
        · split
          · exact not_raises_bindServerParameterValidator _ _
          · split
            · exact not_raises_pure _
            · exact not_raises_bindServerParameterValidator _ _
      · simp [raises_bind]

theorem splitChars_ne_nil (separator : List Char) (skip : ℕ) (part cs : List Char) :
    splitChars separator skip part cs ≠ [] := by
  induction cs generalizing skip part with
  | nil => cases skip <;> simp [splitChars]
  | cons c cs ih =>
    cases skip with
    | zero =>
      rw [splitChars]
      split_ifs
      · exact List.cons_ne_nil _ _
      · exact ih _ _
    | succ skip => exact ih skip part

/-- A text has at least one part, so that the two ends of a range exist. -/
theorem not_raises_bindPositional (o : ConfigOption) (shortName : Option String) :
    ¬ Raises (bindPositional py o shortName) := by
  unfold bindPositional
  split
  · exact not_raises_pure _
  · rename_i positional _
    split_ifs with hshort
    · simp [raises_bind]
    · have hparts : splitText positional "-" ≠ [] := by
        simpa [splitText] using splitChars_ne_nil _ _ _ _
      dsimp only
      split
      · refine not_raises_bind (not_raises_logIf _ _) fun _ => ?_
        split <;> simp [raises_bind]
      · rename_i hshape
        exfalso
        cases hsplit : splitText positional "-" with
        | nil => exact hparts hsplit
        | cons first rest =>
          cases rest with
          | nil => exact hshape first first [] (by rw [hsplit]; rfl)
          | cons last rest => exact hshape first last rest (by rw [hsplit]; simp)

theorem not_raises_bindConfigOption (globals : Option Global) {o : ConfigOption}
    (h : o.description.isSome) : ¬ Raises (bindConfigOption py globals o) := by
  obtain ⟨description, hdescription⟩ := Option.isSome_iff_exists.mp h
  unfold bindConfigOption
  split
  · simp [raises_bind]
  · split
    · simp [raises_bind]
    · split
      · simp [raises_bind]
      · unfold bindConfigValues
        rw [hdescription]
        dsimp only
        split
        · simp [raises_bind]
        · split
          · simp [raises_bind]
          · refine not_raises_bind (not_raises_bindPositional _ _) fun range => ?_
            cases range with
            | none => exact not_raises_pure _
            | some range =>
              dsimp only
              unfold bindConfigValidator
              split
              · exact not_raises_pure _
              · refine not_raises_bindValidator_then _ fun o => ?_
                cases o <;> exact not_raises_pure _

end Options

/-! ## Documents -/

section Each

variable {α β : Type} {f : α → Pass β} {items : List α}

theorem raises_bindEach {R : α → Prop} (h : ∀ a ∈ items, Raises (f a) ↔ R a) :
    Raises (bindEach f items) ↔ ∃ a ∈ items, R a :=
  raises_foldlM (fun a ha _ => (raises_bind_left fun _ => not_raises_pure _).trans (h a ha)) []

/-- The items are bound one by one. -/
theorem bindEach_eq_quiet {bound : List β} (h : bindEach f items = .ok bound []) :
    List.Forall₂ (fun a b => f a = .ok b []) items bound := by
  have hloop : ∀ (items : List α) (start bound : List β),
      items.foldlM (fun bound item => do
        let b ← f item
        pure (bound ++ [b])) start = .ok bound [] →
      ∃ rest, bound = start ++ rest ∧ List.Forall₂ (fun a b => f a = .ok b []) items rest := by
    intro items
    induction items with
    | nil =>
      intro start bound h
      cases h
      exact ⟨[], (List.append_nil _).symm, .nil⟩
    | cons a items ih =>
      intro start bound h
      rw [List.foldlM_cons] at h
      obtain ⟨mid, hmid, h⟩ := bind_eq_quiet.mp h
      obtain ⟨b, hb, hmid⟩ := bind_eq_quiet.mp hmid
      cases hmid
      obtain ⟨rest, rfl, hrest⟩ := ih _ _ h
      exact ⟨b :: rest, by rw [List.append_assoc]; rfl, .cons hb hrest⟩
  obtain ⟨rest, rfl, hrest⟩ := hloop items [] bound h
  exact hrest

end Each

/-- **When the binder raises.** An enumeration of integers has no values, or a command or a struct
raises. Symbols of imported files are not bound. -/
def Unbindable (py : Python) (spec : IDLSpec) : Prop :=
  (∃ e ∈ spec.symbols.enums, e.imported = false ∧ e.type = some "int" ∧ e.values = some []) ∨
  (∃ c ∈ spec.symbols.commands, c.imported = false ∧ c.Raising py spec) ∨
  ∃ s ∈ spec.symbols.structs, s.imported = false ∧ s.Raising py spec

/-- A bound document without `None`: the enumerations are bound, and the commands and structs have
all their fields. -/
structure IDLAST.Filled (spec : IDLSpec) (bound : IDLAST) : Prop where
  enums : List.Forall₂ (fun _ b => b.isSome)
    (spec.symbols.enums.filter (!·.imported)) bound.enums
  commands : List.Forall₂ (fun c b => Ast.Command.HasFields b c)
    (spec.symbols.commands.filter (!·.imported)) bound.commands
  structs : List.Forall₂ (fun s b => Ast.Struct.HasFields b s)
    (spec.symbols.structs.filter (!·.imported)) bound.structs

/-- What `bind` promises: a bound document and no errors, or some errors. -/
def IDLBoundSpec.Valid (spec : IDLSpec) (res : IDLBoundSpec) : Prop :=
  (∃ bound, res = ⟨some bound, none⟩ ∧ bound.Filled spec) ∨
  ∃ errors, errors ≠ [] ∧ res = ⟨none, some errors⟩

section Documents

variable {py : Python} {spec : IDLSpec}

theorem not_raises_validateTypes (hc : Complete spec) : ¬ Raises (validateTypes py spec) := by
  have htype : ∀ t ∈ spec.symbols.types, ∀ u : Unit, Raises (validateType py t) ↔ False := by
    intro t ht _
    obtain ⟨hcpp, hbson⟩ := hc.types t ht
    rw [iff_false]
    exact not_raises_bind (not_raises_logIf _ _) fun _ => not_raises_validateTypeProperties hbson hcpp
  unfold validateTypes
  rw [raises_foldlM htype]
  simp

/-- The symbols of the document itself. -/
theorem raises_bindEach_own {α β : Type} {f : α → Pass β} {items : List α} {imported : α → Bool}
    {R : α → Prop} (h : ∀ a ∈ items, Raises (f a) ↔ R a) :
    Raises (bindEach f (items.filter (!imported ·))) ↔
      ∃ a ∈ items, imported a = false ∧ R a := by
  rw [raises_bindEach fun a ha => h a (List.mem_of_mem_filter ha)]
  simp only [List.mem_filter, Bool.not_eq_true', and_assoc]

theorem raises_bindSpec (hc : Complete spec) : Raises (bindSpec py spec) ↔ Unbindable py spec := by
  have henums : ∀ e ∈ spec.symbols.enums, Raises (bindEnum py e) ↔ e.type = some "int" ∧
      e.values = some [] := fun e he => raises_bindEnum (hc.enums e he).2
  have hcommands : ∀ c ∈ spec.symbols.commands, Raises (bindCommand py spec c) ↔ c.Raising py spec :=
    fun c hmem => raises_bindCommand hc (hc.commands c hmem)
  have hstructs : ∀ s ∈ spec.symbols.structs, Raises (bindStruct py spec s) ↔ s.Raising py spec :=
    fun s hs => raises_bindStructCommon hc (hc.structs s hs)
  have hparameters : ¬ Raises (bindEach (bindServerParameter py) spec.serverParameters) := by
    rw [raises_bindEach fun p hp =>
      iff_false_intro (not_raises_bindServerParameter (hc.serverParameters p hp))]
    simp
  have hconfigs : ¬ Raises (bindEach (bindConfigOption py spec.globals) spec.configs) := by
    rw [raises_bindEach fun o ho =>
      iff_false_intro (not_raises_bindConfigOption spec.globals (hc.configs o ho))]
    simp
  unfold bindSpec Unbindable
  refine raises_bind_right (not_raises_validateTypes hc) fun _ => ?_
  rw [← raises_bindEach_own henums, ← raises_bindEach_own hcommands, ← raises_bindEach_own hstructs]
  refine raises_bind_iff fun _ => raises_bind_iff fun _ => raises_bind_left fun _ => ?_
  exact not_raises_bind hparameters fun _ => not_raises_bind hconfigs fun _ => not_raises_pure _

/-- A document that is bound without errors has no `None`. -/
theorem filled_of_bindSpec {bound : IDLAST} (h : bindSpec py spec = .ok bound []) :
    bound.Filled spec := by
  obtain ⟨-, -, h⟩ := bind_eq_quiet.mp h
  obtain ⟨enums, henums, h⟩ := bind_eq_quiet.mp h
  obtain ⟨commands, hcommands, h⟩ := bind_eq_quiet.mp h
  obtain ⟨structs, hstructs, h⟩ := bind_eq_quiet.mp h
  obtain ⟨parameters, -, h⟩ := bind_eq_quiet.mp h
  obtain ⟨configs, -, h⟩ := bind_eq_quiet.mp h
  cases h
  refine ⟨?_, ?_, ?_⟩
  · exact (bindEach_eq_quiet henums).imp fun e b h => isSome_of_bindEnum h
  · exact (bindEach_eq_quiet hcommands).imp fun c b h => hasFields_of_bindCommand h
  · exact (bindEach_eq_quiet hstructs).imp fun s b h => hasFields_of_bindStructCommon h

/-- **Binding is total** on the documents that `parse` returns without errors, except for those that
are unbindable: the result is a bound document without `None`, or there are errors. -/
theorem bind_total_iff (py : Python) {r : Resolver} {inputFileName : String} {fuel : ℕ}
    {stream : Except Raised (Option Node)} {parsed : List String} {spec : IDLSpec}
    (h : parse r inputFileName fuel stream = some (parsed, .ok ⟨some spec, none⟩)) :
    (∃ res, bind py spec = .ok res ∧ res.Valid spec) ↔ ¬ Unbindable py spec := by
  rw [← raises_bindSpec (complete_of_parse h)]
  unfold bind
  constructor
  · rintro ⟨res, hbind, -⟩ ⟨e, he⟩
    rw [he] at hbind
    cases hbind
  · intro hraises
    obtain ⟨bound, errors, hspec⟩ := not_raises_iff.mp hraises
    rw [hspec]
    cases errors with
    | nil => exact ⟨_, rfl, .inl ⟨bound, rfl, filled_of_bindSpec hspec⟩⟩
    | cons e errors => exact ⟨_, rfl, .inr ⟨e :: errors, List.cons_ne_nil _ _, rfl⟩⟩

end Documents

/-! ## The type of a command -/

/-- Python on texts of decimal digits and of ASCII letters. -/
def asciiPython : Python where
  int s :=
    if s ≠ "" ∧ s.toList.all Char.isDigit then
      .ok (s.toList.foldl (fun n c => 10 * n + (c.toNat - '0'.toNat)) 0 : ℕ)
    else .error ("invalid literal for int() with base 10: '" ++ s ++ "'")
  float _ := none
  upper s := String.ofList (s.toList.map Char.toUpper)
  lower s := String.ofList (s.toList.map Char.toLower)
  isalpha s := s ≠ "" ∧ s.toList.all Char.isAlpha
  isWord c := c.isAlphanum || c = '_'

/-- There are no files but the document itself. -/
def noFiles : Resolver where
  resolve _ _ := .ok none
  openFile _ := .error .osError
  int := asciiPython.int

/-- A document with an enumeration, the type `string` and a command of the given type. -/
def commandDocument (type : String) : Node :=
  let m : Mark := ⟨0, 0⟩
  let text (name value : String) : Key × Node := (⟨m, name⟩, .scalar m value)
  let nested (name : String) (entries : List (Key × Node)) : Key × Node :=
    (⟨m, name⟩, .mapping m entries)
  .mapping m [
    nested "types" [nested "string" [
      text "description" "a string",
      text "cpp_type" "std::string",
      text "bson_serialization_type" "string",
      text "deserializer" "mongo::BSONElement::str"]],
    nested "enums" [nested "Level" [
      text "description" "levels",
      text "type" "int",
      nested "values" [text "low" "0"]]],
    nested "commands" [nested "setLevel" [
      text "description" "set it",
      text "namespace" "type",
      text "type" type]]]

/-- What the parser makes of it. -/
def commandSpec (type : String) : IDLSpec :=
  let loc : SourceLocation := ⟨"a.idl", 0, 0⟩
  { symbols := {
      types := [{
        loc, name := "string", description := some "a string", cppType := some "std::string"
        bsonSerializationType := some ["string"]
        deserializer := some "mongo::BSONElement::str" }]
      enums := [{
        loc, name := "Level", description := some "levels", type := some "int"
        values := some [⟨loc, "low", "0"⟩] }]
      commands := [{
        loc, name := "setLevel", description := some "set it", fields := some []
        commandNamespace := some "type", type := some type }] } }

/-- A command that takes a string is bound. -/
theorem bind_total_command :
    parse noFiles "a.idl" 1 (.ok (some (commandDocument "string"))) =
      some ([], .ok ⟨some (commandSpec "string"), none⟩) ∧
    ∃ res, bind asciiPython (commandSpec "string") = .ok res ∧ res.Valid (commandSpec "string") := by
  have hparse : parse noFiles "a.idl" 1 (.ok (some (commandDocument "string"))) =
      some ([], .ok ⟨some (commandSpec "string"), none⟩) := by decide
  have hresolve : ∀ loc fieldName e,
      (commandSpec "string").symbols.resolveFieldType loc fieldName "string" ≠ .ok (.enum e) := by
    intro loc fieldName e h
    cases h
  refine ⟨hparse, (bind_total_iff asciiPython hparse).mpr ?_⟩
  rintro (⟨e, he, -, -, hvalues⟩ | ⟨c, hc, -, hstruct | ⟨type, e, htype, -, he⟩⟩ | ⟨s, hs, -⟩)
  · rw [List.mem_singleton.mp he] at hvalues
    cases hvalues
  · rw [List.mem_singleton.mp hc] at hstruct
    obtain ⟨_, hmem, -⟩ | ⟨pre, _, post, happend, -⟩ | ⟨f, hf, e, ⟨-, type, htype, he, -⟩, -⟩ := hstruct
    · exact absurd hmem List.not_mem_nil
    · exact absurd happend (by simp [Command.withDb])
    · rw [List.mem_singleton.mp hf] at htype he
      cases htype
      exact hresolve _ _ e he
  · rw [List.mem_singleton.mp hc] at htype he
    cases htype
    exact hresolve _ _ e he
  · exact absurd hs List.not_mem_nil

/-- **An enumeration as the type of a command.** The document parses without errors, and the
assertion of `_bind_command_type` fails. -/
theorem enum_command_raises :
    parse noFiles "a.idl" 1 (.ok (some (commandDocument "Level"))) =
      some ([], .ok ⟨some (commandSpec "Level"), none⟩) ∧
    bind asciiPython (commandSpec "Level") = .error .assertionError := by
  decide

end MongoTests.Idl
