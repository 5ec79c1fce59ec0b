import MongoTests.Idl.Binder
import MongoTests.Idl.ParserComplete

/-!
# Binding a field

What the binder does with the types, validators and fields of a complete document.

* `not_raises_validateTypeProperties`: the checks of a type.
* `Accepts`: computations that have a result or report an error; `accepts_bindValidator`.
* `raises_bindField`, `bindField_eq_ok`: when a field raises, and when it is bound.
-/

namespace MongoTests.Idl

open MongoTests.Lib Report

/-! ## Types -/

section Types

variable {py : Python} {p : TypeProperties} {kind : String}

theorem not_raises_validateSingleBsonType (bsonType : String) :
    ¬ Raises (validateSingleBsonType p kind bsonType) := by
  unfold validateSingleBsonType
  split_ifs <;> simp [raises_bind]

/-- The assertion about the BSON type holds: the type was looked up before. -/
theorem not_raises_validateBsonTypes (bsonTypes : List String) :
    ¬ Raises (validateBsonTypes p kind bsonTypes) := by
  induction bsonTypes with
  | nil => exact not_raises_pure _
  | cons bsonType rest ih =>
    unfold validateBsonTypes
    split_ifs with hany hvalid
    · simp [raises_bind]
    · simp [raises_bind]
    · simp [raises_bind]
    · have hscalar : ¬ Raises (isScalarBsonType bsonType) := by
        unfold isScalarBsonType
        simp only [Bool.not_eq_true', Bool.not_eq_false] at hvalid
        simp [raises_bind, hvalid]
      refine not_raises_bind hscalar fun b => ?_
      cases b with
      | true => exact ih
      | false => simp [raises_bind]

theorem not_raises_validateBsonTypesList (bsonTypes : List String) :
    ¬ Raises (validateBsonTypesList p kind bsonTypes) := by
  unfold validateBsonTypesList
  split
  · exact not_raises_validateSingleBsonType _
  · exact not_raises_validateBsonTypes _

theorem not_raises_validateSerializers (bsonTypes : List String) :
    ¬ Raises (validateSerializers p kind bsonTypes) := by
  unfold validateSerializers
  dsimp only
  split <;> simp [raises_bind, validateChainTypeProperties]

theorem not_raises_validateCppType (h : p.cppType.isSome) :
    ¬ Raises (validateCppType py p kind) := by
  obtain ⟨cppType, hcpp⟩ := Option.isSome_iff_exists.mp h
  unfold validateCppType
  rw [hcpp]
  dsimp only
  refine not_raises_bind (not_raises_logIf _ _) fun _ =>
    not_raises_bind (not_raises_logIf _ _) fun _ => ?_
  split_ifs <;> simp

/-- The checks of a type raise nothing when it has the attributes that the parser requires. -/
theorem not_raises_validateTypeProperties (hbson : p.bsonSerializationType.isSome)
    (hcpp : p.cppType.isSome) : ¬ Raises (validateTypeProperties py p kind) := by
  obtain ⟨bsonTypes, hbsonTypes⟩ := Option.isSome_iff_exists.mp hbson
  unfold validateTypeProperties
  rw [hbsonTypes]
  refine not_raises_bind (not_raises_validateBsonTypesList _) fun b => ?_
  cases b with
  | true =>
    exact not_raises_bind (not_raises_validateSerializers _) fun _ => not_raises_validateCppType hcpp
  | false => exact not_raises_pure _

end Types

/-! ## Validators -/

/-- The bounds of a validator that are given. -/
def Validator.bounds (v : Validator) : List Expression := [v.gt, v.lt, v.gte, v.lte].filterMap id

/-- All bounds are numbers or C++ expressions. -/
def Validator.Numeric (py : Python) (v : Validator) : Prop :=
  ∀ e ∈ v.bounds, (bindExpression py e false).isSome

/-- The computation ends, and it has a result exactly when `P` holds. Otherwise it reports an
error. -/
def Accepts {α : Type} (m : Pass (Option α)) (P : Prop) : Prop :=
  ∃ o ws, m = .ok o ws ∧ (o.isSome ↔ P) ∧ (ws = [] → o.isSome)

section Accepts

variable {α β : Type} {P Q : Prop} {m : Pass (Option α)}

theorem Accepts.not_raises (h : Accepts m P) : ¬ Raises m := by
  obtain ⟨o, ws, rfl, -, -⟩ := h
  exact not_raises_iff.mpr ⟨o, ws, rfl⟩

/-- A computation that goes on only with a result. -/
theorem Accepts.and {g : Option α → Pass (Option β)} (hm : Accepts m P) (hnone : g none = pure none)
    (hsome : ∀ a, Accepts (g (some a)) Q) : Accepts (m >>= g) (P ∧ Q) := by
  obtain ⟨o, ws, rfl, ho, hquiet⟩ := hm
  cases o with
  | none =>
    refine ⟨none, ws ++ [], ?_, by simp [← ho], by simpa using hquiet⟩
    rw [bind_ok, hnone]
    rfl
  | some a =>
    obtain ⟨o', ws', hg, ho', hquiet'⟩ := hsome a
    refine ⟨o', ws ++ ws', ?_, by simp [← ho, ho'], fun h => ?_⟩
    · rw [bind_ok, hg]
    · exact hquiet' (List.append_eq_nil_iff.mp h).2

theorem Accepts.pure_some (a : α) : Accepts (pure (some a) : Pass (Option α)) True :=
  ⟨some a, [], rfl, by simp, fun _ => rfl⟩

theorem Accepts.congr (h : Accepts m P) (hPQ : P ↔ Q) : Accepts m Q := by
  obtain ⟨o, ws, hm, ho, hquiet⟩ := h
  exact ⟨o, ws, hm, ho.trans hPQ, hquiet⟩

end Accepts

section Validators

variable (py : Python)

/-- A bound is refused when it is not numeric. -/
theorem accepts_bindPredicate (loc : SourceLocation) (pred : String) (src : Option Expression) :
    Accepts (bindPredicate py loc pred src) (∀ e ∈ src, (bindExpression py e false).isSome) := by
  unfold bindPredicate
  cases src with
  | none => exact (Accepts.pure_some none).congr (by simp)
  | some src =>
    dsimp only
    cases h : bindExpression py src false with
    | none => exact ⟨none, [valueNotNumericError loc pred src.loc], rfl, by simp [h], by simp⟩
    | some dest => exact (Accepts.pure_some (some dest)).congr (by simp [h])

theorem accepts_bindValidator (v : Validator) : Accepts (bindValidator py v) (v.Numeric py) := by
  have h : Accepts (bindValidator py v) ((∀ e ∈ v.gt, (bindExpression py e false).isSome) ∧
      (∀ e ∈ v.lt, (bindExpression py e false).isSome) ∧
      (∀ e ∈ v.gte, (bindExpression py e false).isSome) ∧
      (∀ e ∈ v.lte, (bindExpression py e false).isSome) ∧ True) := by
    refine (accepts_bindPredicate py _ _ _).and rfl fun gt => ?_
    refine (accepts_bindPredicate py _ _ _).and rfl fun lt => ?_
    refine (accepts_bindPredicate py _ _ _).and rfl fun gte => ?_
    refine (accepts_bindPredicate py _ _ _).and rfl fun lte => ?_
    exact .pure_some _
  refine h.congr ?_
  simp only [Validator.Numeric, Validator.bounds, List.mem_filterMap, List.mem_cons,
    List.not_mem_nil, or_false, id, Option.mem_def, and_true]
  constructor
  · rintro ⟨hgt, hlt, hgte, hlte⟩ e ⟨src, rfl | rfl | rfl | rfl, he⟩
    · exact hgt e he
    · exact hlt e he
    · exact hgte e he
    · exact hlte e he
  · intro h
    exact ⟨fun e he => h e ⟨_, .inl rfl, he⟩, fun e he => h e ⟨_, .inr (.inl rfl), he⟩,
      fun e he => h e ⟨_, .inr (.inr (.inl rfl)), he⟩,
      fun e he => h e ⟨_, .inr (.inr (.inr rfl)), he⟩⟩

end Validators

/-! ## Fields -/

/-- The symbol of a type name is in the table. -/
theorem SymbolTable.mem_of_resolveFieldType {t : SymbolTable} {loc : SourceLocation}
    {fieldName typeName : String} {symbol : Symbol}
    (h : t.resolveFieldType loc fieldName typeName = .ok symbol) : symbol ∈ t.symbols := by
  rw [SymbolTable.resolveFieldType] at h
  generalize typeName.toList.length = depth at h
  induction depth generalizing typeName with
  | zero =>
    rw [SymbolTable.resolveFrom] at h
    split at h
    · rename_i s hs
      cases h
      exact List.mem_of_find?_eq_some hs
    · cases h
  | succ depth ih =>
    rw [SymbolTable.resolveFrom] at h
    split at h
    · rename_i s hs
      cases h
      exact List.mem_of_find?_eq_some hs
    · split_ifs at h
      split at h
      · cases h
      · exact ih h

/-- The field takes its type from a symbol: it is not ignored, its type resolves to something that
is not a command, and it is an array if it is to support document sequences. -/
def Field.Resolves (spec : IDLSpec) (field : Field) (symbol : Symbol) : Prop :=
  field.ignore = false ∧ ∃ type, field.type = some type ∧
    spec.symbols.resolveFieldType field.loc field.name type = .ok symbol ∧
    (∀ c, symbol ≠ .command c) ∧ (isArrayType type = true ∨ field.supportsDocSequence = false)

/-- An enumeration of neither integers nor strings. -/
def Enum.Unsupported (e : Enum) : Prop := e.type ≠ some "int" ∧ e.type ≠ some "string"

/-- The type of the field is an enumeration that has no type information. -/
def Field.Raising (spec : IDLSpec) (field : Field) : Prop :=
  ∃ e, field.Resolves spec (.enum e) ∧ e.Unsupported

/-- The field is bound. -/
def Field.Binds (py : Python) (spec : IDLSpec) (field : Field) : Prop :=
  field.ignore = true ∨
    (∃ symbol, field.Resolves spec symbol) ∧ ∀ v ∈ field.validator, v.Numeric py

section Fields

variable {py : Python} {spec : IDLSpec} {field : Field}

theorem enumTypeInfo_eq_none {e : Enum} : enumTypeInfo py e = none ↔ e.Unsupported := by
  unfold enumTypeInfo Enum.Unsupported
  dsimp only
  split
  · rename_i h
    simp [h]
  · rename_i h
    simp [h]
  · rename_i hint hstring
    exact iff_of_true rfl ⟨hint, hstring⟩

theorem accepts_bindFieldValidator (f : Ast.Field) :
    Accepts (bindFieldValidator py field f) (∀ v ∈ field.validator, v.Numeric py) := by
  unfold bindFieldValidator
  cases field.validator with
  | none => exact (Accepts.pure_some f).congr (by simp)
  | some v =>
    have h : Accepts (bindFieldValidator py { field with validator := some v } f)
        (v.Numeric py ∧ True) :=
      (accepts_bindValidator py v).and rfl fun validator => .pure_some _
    exact h.congr (by simp)

theorem not_raises_validateDocSequenceField {f : Ast.Field}
    (h : f.array = true ∨ f.supportsDocSequence = false) :
    ¬ Raises (validateDocSequenceField f) := by
  unfold validateDocSequenceField
  split_ifs with hdoc
  · have harray : f.array = true := h.resolve_right (by simp [hdoc])
    simp [raises_bind, harray]
  · exact not_raises_pure _

/-- A complete type has the attributes that the checks read. -/
theorem Complete.type_mem (hc : Complete spec) {t : IdlType}
    (ht : Symbol.type t ∈ spec.symbols.symbols) :
    t.cppType.isSome ∧ t.bsonSerializationType.isSome :=
  hc.types t (by simpa [SymbolTable.symbols] using ht)

/-- The type of a field raises when it is an enumeration without type information. -/
theorem raises_bindFieldType (hc : Complete spec) {symbol : Symbol} {f : Ast.Field}
    (hsymbol : symbol ∈ spec.symbols.symbols)
    (hf : f.array = true ∨ f.supportsDocSequence = false) :
    Raises (bindFieldType py field f symbol) ↔ ∃ e, symbol = .enum e ∧ e.Unsupported := by
  cases symbol with
  | command c => simp [bindFieldType, raises_bind]
  | struct s => simp [bindFieldType, raises_bind]
  | enum e =>
    simp only [bindFieldType, Symbol.enum.injEq, exists_eq_left']
    rw [← @enumTypeInfo_eq_none py e]
    cases enumTypeInfo py e <;> simp
  | type t =>
    obtain ⟨hcpp, hbson⟩ := hc.type_mem hsymbol
    simp only [reduceCtorEq, false_and, exists_false, iff_false]
    refine not_raises_bind (not_raises_validateTypeProperties ?_ ?_) fun _ =>
      not_raises_bind ?_ fun _ => not_raises_bind (not_raises_validateDocSequenceField ?_) fun _ =>
        not_raises_pure _
    · split_ifs <;> exact hbson
    · split_ifs <;> exact hcpp
    · simp [validateFieldProperties, raises_bind]
    · split_ifs <;> exact hf

/-- What neither the type nor the validator of a field changes. -/
def Ast.Field.kept (f : Ast.Field) : String × Bool × Bool × Bool × Option String × ℤ :=
  (f.name, f.array, f.ignore, f.chained, f.chainedStructField, f.comparisonOrder)

theorem bindFieldType_kept {symbol : Symbol} {f f' : Ast.Field} {ws : List ParserError}
    (h : bindFieldType py field f symbol = .ok f' ws) : f'.kept = f.kept := by
  cases symbol with
  | command c =>
    obtain ⟨_, _, _, -, h, -⟩ := bind_eq_ok.mp h
    cases h
    rfl
  | struct s =>
    obtain ⟨_, _, _, -, h, -⟩ := bind_eq_ok.mp h
    cases h
    rfl
  | enum e =>
    simp only [bindFieldType] at h
    split at h
    · cases h
    · cases h
      rfl
  | type t =>
    obtain ⟨_, _, _, -, h, -⟩ := bind_eq_ok.mp h
    obtain ⟨_, _, _, -, h, -⟩ := bind_eq_ok.mp h
    obtain ⟨_, _, _, -, h, -⟩ := bind_eq_ok.mp h
    cases h
    split_ifs <;> rfl

theorem bindFieldValidator_kept {f f' : Ast.Field} {ws : List ParserError}
    (h : bindFieldValidator py field f = .ok (some f') ws) : f'.kept = f.kept := by
  unfold bindFieldValidator at h
  split at h
  · cases h
    rfl
  · obtain ⟨_, _, _, -, h, -⟩ := bind_eq_ok.mp h
    split at h
    · cases h
    · cases h
      rfl

theorem bindTyped_kept {symbol : Symbol} {f f' : Ast.Field} {ws : List ParserError} (h : (do
      let f ← bindFieldType py field f symbol
      bindFieldValidator py field f) = .ok (some f') ws) : f'.kept = f.kept := by
  obtain ⟨_, _, _, htyped, hvalid, -⟩ := bind_eq_ok.mp h
  rw [bindFieldValidator_kept hvalid, bindFieldType_kept htyped]

/-- The result of a field that takes its type from a symbol. -/
theorem bindFieldType_then {symbol : Symbol} {f : Ast.Field} {o : Option Ast.Field}
    {ws : List ParserError}
    (h : (do
      let f ← bindFieldType py field f symbol
      bindFieldValidator py field f) = .ok o ws) (hname : f.name = field.name) :
    (o.isSome ↔ ∀ v ∈ field.validator, v.Numeric py) ∧ (ws = [] → o.isSome) ∧
      ∀ g ∈ o, g.name = field.name := by
  have hkept : ∀ g ∈ o, g.name = field.name := by
    rintro g rfl
    rw [← hname]
    exact congrArg Prod.fst (bindTyped_kept h)
  obtain ⟨f', ws₁, ws₂, hf, hv, rfl⟩ := bind_eq_ok.mp h
  obtain ⟨o', ws', hv', ho, hquiet⟩ := @accepts_bindFieldValidator py field f'
  rw [hv'] at hv
  cases hv
  exact ⟨ho, fun h => hquiet (List.append_eq_nil_iff.mp h).2, hkept⟩

/-- What `bindResolvedField` does with a symbol that is not a command. -/
theorem bindResolvedField_eq {type : String} {symbol : Symbol} (h : ∀ c, symbol ≠ .command c) :
    bindResolvedField py field type symbol =
      (if isArrayType type then do
        validateArrayType symbol field
        let f ← bindFieldType py field { field.start with array := true } symbol
        bindFieldValidator py field f
      else if field.supportsDocSequence then do
        log (badNonArrayAsDocSequenceError symbol.loc field.name symbol.name)
        pure none
      else do
        let f ← bindFieldType py field field.start symbol
        bindFieldValidator py field f) := by
  cases symbol with
  | command c => exact absurd rfl (h c)
  | _ => rfl

theorem raises_bindResolvedField (hc : Complete spec) {type : String} {symbol : Symbol}
    (hsymbol : symbol ∈ spec.symbols.symbols) :
    Raises (bindResolvedField py field type symbol) ↔
      (isArrayType type = true ∨ field.supportsDocSequence = false) ∧
        ∃ e, symbol = .enum e ∧ e.Unsupported := by
  have hvalidator : ∀ f, ¬ Raises (bindFieldValidator py field f) :=
    fun f => (accepts_bindFieldValidator f).not_raises
  by_cases hcommand : ∃ c, symbol = .command c
  · obtain ⟨c, rfl⟩ := hcommand
    simp [bindResolvedField, raises_bind]
  · rw [bindResolvedField_eq (not_exists.mp hcommand)]
    split_ifs with harray hdoc
    · rw [raises_bind_right (by simp [validateArrayType, raises_bind]) fun _ =>
        (raises_bind_left hvalidator).trans (raises_bindFieldType hc hsymbol (.inl rfl))]
      simp [harray]
    · simp [raises_bind, harray, hdoc]
    · have hnodoc : field.supportsDocSequence = false := by simpa using hdoc
      rw [raises_bind_left hvalidator, raises_bindFieldType hc hsymbol (.inr hnodoc)]
      simp [hnodoc]

/-- **When a field raises.** -/
theorem raises_bindField (hc : Complete spec) (htype : field.type.isSome) :
    Raises (bindField py spec field) ↔ field.Raising spec := by
  obtain ⟨type, htype⟩ := Option.isSome_iff_exists.mp htype
  unfold bindField
  rw [raises_bind_right (not_raises_logIf _ _) fun _ => Iff.rfl]
  split_ifs with hignore
  · simp [raises_bind, Field.Raising, Field.Resolves, hignore]
  · rw [htype]
    dsimp only
    cases hresolve : spec.symbols.resolveFieldType field.loc field.name type with
    | error e => simp [raises_bind, Field.Raising, Field.Resolves, htype, hresolve]
    | ok symbol =>
      rw [raises_bindResolvedField hc (SymbolTable.mem_of_resolveFieldType hresolve)]
      constructor
      · rintro ⟨harray, e, rfl, he⟩
        exact ⟨e, ⟨by simpa using hignore, type, htype, hresolve, by simp, harray⟩, he⟩
      · rintro ⟨e, ⟨-, type', htype', hresolve', -, harray⟩, he⟩
        rw [htype] at htype'
        cases htype'
        rw [hresolve] at hresolve'
        cases hresolve'
        exact ⟨harray, e, rfl, he⟩

/-- **When a field is bound**, under its own name. A field that is refused is reported. -/
theorem bindField_eq_ok {o : Option Ast.Field} {ws : List ParserError}
    (h : bindField py spec field = .ok o ws) :
    (o.isSome ↔ field.Binds py spec) ∧ (ws = [] → o.isSome) ∧ ∀ f ∈ o, f.name = field.name := by
  obtain ⟨_, ws₁, ws₂, -, h, hws⟩ := bind_eq_ok.mp h
  rw [hws, List.append_eq_nil_iff]
  unfold Field.Binds
  split_ifs at h with hignore
  · obtain ⟨_, _, _, -, h, -⟩ := bind_eq_ok.mp h
    obtain ⟨_, _, _, -, h, -⟩ := bind_eq_ok.mp h
    cases h
    refine ⟨by simp [hignore], fun _ => rfl, ?_⟩
    rintro f ⟨⟩
    rfl
  · split at h
    · cases h
    · rename_i type htype
      split at h
      · rename_i e hresolve
        cases h
        simp [Field.Resolves, hignore, htype, hresolve]
      · rename_i symbol hresolve
        by_cases hcommand : ∃ c, symbol = .command c
        · obtain ⟨c, rfl⟩ := hcommand
          cases h
          simp [Field.Resolves, hignore, htype, hresolve]
        · rw [bindResolvedField_eq (not_exists.mp hcommand)] at h
          split_ifs at h with harray hdoc
          · obtain ⟨_, _, _, -, h, hws'⟩ := bind_eq_ok.mp h
            rw [hws', List.append_eq_nil_iff]
            obtain ⟨ho, hquiet, hname⟩ := bindFieldType_then h rfl
            refine ⟨ho.trans ?_, fun hnil => hquiet hnil.2.2, hname⟩
            simp [Field.Resolves, hignore, htype, hresolve, harray, not_exists.mp hcommand]
          · cases h
            simp [Field.Resolves, hignore, htype, hresolve, harray, hdoc]
          · obtain ⟨ho, hquiet, hname⟩ := bindFieldType_then h rfl
            refine ⟨ho.trans ?_, fun hnil => hquiet hnil.2, hname⟩
            simp [Field.Resolves, hignore, htype, hresolve, hdoc, not_exists.mp hcommand]

end Fields

end MongoTests.Idl
