import Mathlib.Data.Finset.Dedup
import Mathlib.Data.Int.Range
import MongoTests.Idl.Errors

/-!
# Binding a document

`bind` of `binder.py`: the symbols of a parsed document are checked and become a tree without
references to other symbols, or a collection of errors.

* `TypeProperties`, `validateTypeProperties`: the checks that types and bound fields share.
* `bindExpression`, `bindValidator`; `bindField`, `bindChainedType`, `bindChainedStruct`.
* `bindStructCommon`, `bindCommand`, `bindEnum`, `bindServerParameter`, `bindConfigOption`; `bind`.
-/

namespace MongoTests.Idl

open MongoTests.Lib Report

/-! ## Types -/

/-- The attributes that types and bound fields have in common. -/
structure TypeProperties where
  loc : SourceLocation
  name : String
  cppType : Option String
  bsonSerializationType : Option (List String)
  bindataSubtype : Option String
  serializer : Option String
  deserializer : Option String
  default : Option String

def IdlType.properties (t : IdlType) : TypeProperties where
  loc := t.loc
  name := t.name
  cppType := t.cppType
  bsonSerializationType := t.bsonSerializationType
  bindataSubtype := t.bindataSubtype
  serializer := t.serializer
  deserializer := t.deserializer
  default := t.default

def Ast.Field.properties (f : Ast.Field) : TypeProperties where
  loc := f.loc
  name := f.name
  cppType := f.cppType
  bsonSerializationType := f.bsonSerializationType
  bindataSubtype := f.bindataSubtype
  serializer := f.serializer
  deserializer := f.deserializer
  default := f.default

section Types

variable (py : Python) (p : TypeProperties) (kind : String)

def validateSingleBsonType (bsonType : String) : Pass Bool :=
  if bsonType ∈ ["any", "chain"] then pure true
  else if !isValidBsonType bsonType then do
    log (badBsonTypeError p.loc kind p.name bsonType)
    pure false
  else if bsonType = "bindata" then do
    let subtype := p.bindataSubtype.getD "<unknown>"
    logIf (isValidBindataSubtype subtype = false)
      (badBsonBindataSubtypeValueError p.loc kind p.name subtype)
    pure true
  else do
    logIf p.bindataSubtype.isSome (badBsonBindataSubtypeError p.loc kind p.name bsonType)
    pure true

/-- `is_scalar_bson_type`, with its assertion. -/
def isScalarBsonType (name : String) : Pass Bool := do
  require (isValidBsonType name) .assertionError
  pure ((bsonTypeInformation.lookup name).getD false)

/-- The loop of `_validate_bson_types_list`. -/
def validateBsonTypes : List String → Pass Bool
  | [] => pure true
  | bsonType :: rest =>
    if bsonType ∈ ["any", "chain"] then do
      log (badAnyTypeUseError p.loc kind p.name bsonType)
      pure false
    else if !isValidBsonType bsonType then do
      log (badBsonTypeError p.loc kind p.name bsonType)
      pure false
    -- Binary data cannot be mixed into a list of types.
    else if bsonType = "bindata" then do
      log (badBsonTypeError p.loc kind p.name bsonType)
      pure false
    else do
      if ← isScalarBsonType bsonType then validateBsonTypes rest
      else do
        log (badBsonScalarTypeError p.loc kind p.name bsonType)
        pure false

def validateBsonTypesList (bsonTypes : List String) : Pass Bool :=
  match bsonTypes with
  | [bsonType] => validateSingleBsonType p kind bsonType
  | _ => validateBsonTypes p kind bsonTypes

def validateChainTypeProperties (bsonTypes : List String) : Pass Unit := do
  require (bsonTypes = ["chain"]) .assertionError
  logIf p.deserializer.isNone (missingAstRequiredFieldError p.loc kind p.name "deserializer")
  logIf p.serializer.isNone (missingAstRequiredFieldError p.loc kind p.name "serializer")

/-- The serializers that a type needs, by its BSON types. -/
def validateSerializers (bsonTypes : List String) : Pass Unit :=
  let missingDeserializer := missingAstRequiredFieldError p.loc kind p.name "deserializer"
  match bsonTypes with
  | ["any"] | ["string"] => logIf p.deserializer.isNone missingDeserializer
  | ["chain"] => validateChainTypeProperties p kind bsonTypes
  | ["object"] => pure ()
  | ["bindata"] => logIf (truthy p.default) (bindataNoDefaultError p.loc kind p.name)
  | [bsonType] => do
    let notSupported := notCustomScalarSerializationNotSupportedError p.loc kind p.name bsonType
    logIf p.deserializer.isNone missingDeserializer
    logIf (p.deserializer.any fun d => !containsText d "BSONElement") notSupported
    logIf p.serializer.isSome notSupported
  | _ => logIf p.deserializer.isNone missingDeserializer

def validateCppType : Pass Unit :=
  match p.cppType with
  | none => raise .typeError
  | some cppType => do
    let badNumeric := badCppNumericTypeUseError p.loc kind p.name cppType
    logIf (containsText cppType "StringData") (noStringDataError p.loc kind p.name)
    logIf (cppType ∈ ["char", "wchar_t", "char16_t", "char32_t", "float"]) badNumeric
    if ["signed", "unsigned", "int", "long", "short"].any (searchWord py · cppType) then
      log badNumeric
    else if cppType ∈ ["std::int32_t", "std::int64_t", "std::uint32_t", "std::uint64_t"] ∨
        removeSpaces cppType = "std::array<std::uint8_t,16>" ∨
        cppType = "std::vector<std::uint8_t>" then
      pure ()
    else
      logIf (["int8_t", "int16_t", "int32_t", "int64_t", "uint8_t", "uint16_t", "uint32_t",
        "uint64_t"].any (containsText cppType ·)) badNumeric

def validateTypeProperties : Pass Unit :=
  match p.bsonSerializationType with
  | none => raise .typeError
  | some bsonTypes => do
    if ← validateBsonTypesList p kind bsonTypes then do
      validateSerializers p kind bsonTypes
      validateCppType py p kind
    else pure ()

end Types

def validateType (py : Python) (t : IdlType) : Pass Unit := do
  logIf (startsWith t.name "array<") (arrayNotValidError t.loc "type" t.name)
  validateTypeProperties py t.properties "type"

def validateTypes (py : Python) (spec : IDLSpec) : Pass Unit :=
  spec.symbols.types.foldlM (fun _ t => validateType py t) ()

/-! ## Expressions and validators -/

/-- Put a backslash before each occurrence of a character. -/
def escapeChar (s : String) (c : Char) : String :=
  String.ofList (s.toList.flatMap fun d => if d = c then ['\\', d] else [d])

/-- The integers that a C++ literal can be. -/
def isInt32 (i : Int) : Bool := -0x80000000 ≤ i && i ≤ 0x7FFFFFFF

def bindExpression (py : Python) (expr : Expression) (allowLiteralString : Bool) :
    Option Ast.Expression :=
  match expr.literal with
  | none => some {
      loc := expr.loc
      expr := expr.expr
      validateConstexpr := expr.isConstexpr
      exported := expr.isConstexpr }
  | some literal =>
    let node (text : String) : Ast.Expression :=
      { loc := expr.loc, expr := some text, validateConstexpr := false, exported := true }
    if literal = "true" ∨ literal = "false" then some (node literal)
    else
      match (py.int literal).toOption.filter isInt32 with
      | some i => some (node (toString i))
      | none =>
        match py.float literal with
        | some float => some (node float)
        | none =>
          if allowLiteralString then
            some (node ("\"" ++ ['\\', '"', '\''].foldl escapeChar literal ++ "\""))
          else none

section Validators

variable (py : Python)

/-- One predicate of a validator. Without a result the validator is refused. -/
def bindPredicate (loc : SourceLocation) (pred : String) (src : Option Expression) :
    Pass (Option (Option Ast.Expression)) :=
  match src with
  | none => pure (some none)
  | some src =>
    match bindExpression py src false with
    | some dest => pure (some (some dest))
    | none => do
      log (valueNotNumericError loc pred src.loc)
      pure none

def bindValidator (v : Validator) : Pass (Option Ast.Validator) := do
  match ← bindPredicate py v.loc "gt" v.gt with
  | none => pure none
  | some gt =>
    match ← bindPredicate py v.loc "lt" v.lt with
    | none => pure none
    | some lt =>
      match ← bindPredicate py v.loc "gte" v.gte with
      | none => pure none
      | some gte =>
        match ← bindPredicate py v.loc "lte" v.lte with
        | none => pure none
        | some lte => pure (some { loc := v.loc, gt, lt, gte, lte, callback := v.callback })

end Validators

def bindCondition (condition : Option Condition) : Option Ast.Condition :=
  condition.map fun c => ⟨c.loc, c.expr, c.constexpr, c.preprocessor⟩

/-! ## Fields -/

def normalizeMethodName (cppTypeName : String) (cppMethodName : Option String) : Option String :=
  cppMethodName.map fun method =>
    let typeName := (splitText cppTypeName "::").getLastD ""
    if method = "" ∨ startsWith method "::" ∨ startsWith method cppTypeName then method
    else if startsWith method typeName then
      String.intercalate "::" (splitText cppTypeName "::").dropLast ++ "::" ++ method
    else method

/-- `cpp_name` of a struct, by default its name. -/
def Struct.boundCppName (s : Struct) : String := (s.cppName.filter (· ≠ "")).getD s.name

/-- Whether `parse_array_type` has a result that counts as true. -/
def isArrayType (type : String) : Bool := truthy (parseArrayType type)

/-- The default of a symbol that is a type. -/
def Symbol.default : Symbol → Option String
  | .type t => t.default
  | _ => none

def Symbol.isEnum : Symbol → Bool
  | .enum _ => true
  | _ => false

def validateArrayType (symbol : Symbol) (field : Field) : Pass Unit := do
  logIf symbol.isEnum (arrayEnumError field.loc field.name)
  logIf (truthy field.default || truthy symbol.default) (arrayNoDefaultError field.loc field.name)

def validateFieldProperties (f : Ast.Field) : Pass Unit := do
  logIf (truthy f.default && f.optional) (badFieldDefaultAndOptionalError f.loc f.name)
  logIf (f.bsonSerializationType = some ["chain"]) (badArrayOfChainError f.loc f.name)

def validateDocSequenceField (f : Ast.Field) : Pass Unit :=
  if f.supportsDocSequence then do
    require (f.array = true) .assertionError
    logIf (f.bsonSerializationType ≠ some ["object"]) (badNonObjectAsDocSequenceError f.loc f.name)
  else pure ()

/-- The attributes of a type that a field of the type takes over. -/
def Ast.Field.ofType (f : Ast.Field) (t : IdlType) : Ast.Field :=
  let cppType := t.cppType.getD ""
  { f with
    cppType := t.cppType
    bsonSerializationType := t.bsonSerializationType
    bindataSubtype := t.bindataSubtype
    serializer := normalizeMethodName cppType t.serializer
    deserializer := normalizeMethodName cppType t.deserializer
    default := t.default }

def Ast.Field.ofStruct (f : Ast.Field) (s : Idl.Struct) : Ast.Field :=
  { f with
    structType := some (qualifyCppName s.cppNamespace s.boundCppName)
    bsonSerializationType := some ["object"] }

section Fields

variable (py : Python)

/-- A field of the type that was found. -/
def bindFieldType (field : Field) (f : Ast.Field) (symbol : Symbol) : Pass Ast.Field :=
  let ofStruct (s : Struct) : Pass Ast.Field := do
    logIf field.default.isSome (structFieldMustBeEmptyError field.loc field.name "default")
    pure (f.ofStruct s)
  match symbol with
  | .struct s => ofStruct s
  | .command c => ofStruct c.toStruct
  | .enum e =>
    match enumTypeInfo py e with
    | none => raise .attributeError
    | some info => pure { f with
        enumType := true
        default := field.default
        cppType := some info.cppTypeName
        bsonSerializationType := some info.bsonTypes
        serializer := some info.serializerName
        deserializer := some info.deserializerName }
  | .type t => do
    let f := f.ofType t
    let f := if truthy field.default then { f with default := field.default } else f
    validateTypeProperties py f.properties "field"
    validateFieldProperties f
    validateDocSequenceField f
    pure f

/-- The validator of a field, which can refuse it. -/
def bindFieldValidator (field : Field) (f : Ast.Field) : Pass (Option Ast.Field) :=
  match field.validator with
  | none => pure (some f)
  | some v => do
    match ← bindValidator py v with
    | none => pure none
    | some validator => pure (some { f with validator := some validator })

/-- A field as `_bind_field` starts it. -/
def Field.start (field : Field) : Ast.Field where
  loc := field.loc
  name := field.name
  description := field.description
  optional := field.optional
  supportsDocSequence := field.supportsDocSequence
  serializeOpMsgRequestOnly := field.serializeOpMsgRequestOnly
  constructed := field.constructed
  comparisonOrder := field.comparisonOrder
  nonConstGetter := field.nonConstGetter
  cppName := some ((field.cppName.filter (· ≠ "")).getD field.name)

/-- The part of `_bind_field` for a field that is not ignored. -/
def bindResolvedField (field : Field) (type : String) (symbol : Symbol) : Pass (Option Ast.Field) :=
  match symbol with
  | .command _ => do
    log (badCommandAsFieldError field.loc type)
    pure none
  | symbol =>
    if isArrayType type then do
      validateArrayType symbol field
      let f ← bindFieldType py field { field.start with array := true } symbol
      bindFieldValidator py field f
    -- Only arrays can be document sequences.
    else if field.supportsDocSequence then do
      log (badNonArrayAsDocSequenceError symbol.loc field.name symbol.name)
      pure none
    else do
      let f ← bindFieldType py field field.start symbol
      bindFieldValidator py field f

def bindField (spec : IDLSpec) (field : Field) : Pass (Option Ast.Field) := do
  logIf (startsWith field.name "array<") (arrayNotValidError field.loc "field" field.name)
  if field.ignore then do
    logIf field.optional (ignoredFieldMustBeEmptyError field.loc field.name "optional")
    logIf field.default.isSome (ignoredFieldMustBeEmptyError field.loc field.name "default")
    pure (some { field.start with ignore := true })
  else
    match field.type with
    | none => raise .attributeError
    | some type =>
      match spec.symbols.resolveFieldType field.loc field.name type with
      | .error e => do
        log e
        pure none
      | .ok symbol => bindResolvedField py field type symbol

end Fields

/-! ## Structs -/

/-- `_is_duplicate_field`, with the error that it reports. -/
def isDuplicateField (container : String) (fields : List Ast.Field) (f : Ast.Field) :
    Option ParserError :=
  (fields.filter (·.name = f.name)).getLast?.map fun duplicate =>
    duplicateFieldError f.loc container f.name duplicate.loc

/-- Append a field unless its name is taken. -/
def appendField (container : String) (fields : List Ast.Field) (f : Ast.Field) :
    Pass (List Ast.Field) :=
  match isDuplicateField container fields f with
  | some e => do
    log e
    pure fields
  | none => pure (fields ++ [f])

/-- `_bind_chained_type`, at the location of the struct. -/
def bindChainedType (spec : IDLSpec) (loc : SourceLocation) (chained : Chained) :
    Pass (Option Ast.Field) :=
  match spec.symbols.resolveFieldType loc chained.name chained.name with
  | .error e => do
    log e
    pure none
  | .ok (.type t) =>
    match t.bsonSerializationType with
    | none => raise .typeError
    | some bsonTypes =>
      if bsonTypes = ["chain"] then
        pure (some {
          loc
          name := t.name
          cppName := chained.cppName
          description := t.description
          chained := true
          cppType := t.cppType
          bsonSerializationType := t.bsonSerializationType
          serializer := t.serializer
          deserializer := t.deserializer })
      else
        match bsonTypes with
        | [] => raise .indexError
        | bsonType :: _ => do
          log (chainedTypeWrongTypeError loc chained.name bsonType)
          pure none
  | .ok _ => do
    log (chainedTypeNotFoundError loc chained.name)
    pure none

/-- Bind a chained type and append its field. -/
def addChainedType (spec : IDLSpec) (struct : Struct) (fields : List Ast.Field) (chained : Chained) :
    Pass (List Ast.Field) := do
  match ← bindChainedType spec struct.loc chained with
  | none => pure fields
  | some f => appendField chained.name fields f

/-- The field of a chained struct. -/
def chainedStructField (struct s : Struct) (chained : Chained) : Ast.Field where
  loc := struct.loc
  name := s.name
  cppName := chained.cppName
  description := s.description
  structType := some s.boundCppName
  bsonSerializationType := some ["object"]
  chained := true

section Structs

variable (py : Python) (spec : IDLSpec)

/-- Bind a field of the chained struct `s` and append it. -/
def mergeField (struct s : Struct) (chained : Chained) (fields : List Ast.Field) (field : Field) :
    Pass (List Ast.Field) := do
  match ← bindField py spec field with
  | none => pure fields
  | some f =>
    match isDuplicateField chained.name fields f with
    | some e => do
      log e
      pure fields
    | none =>
      -- The fields of a struct that is not inlined are ignored.
      let f := if struct.inlineChainedStructs then { f with chainedStructField := some s.name }
        else { f with ignore := true }
      pure (fields ++ [f])

/-- The field of a chained struct and, unless its name is taken, the fields of the struct. -/
def mergeStruct (struct s : Struct) (chained : Chained) (fields : List Ast.Field) :
    Pass (List Ast.Field) :=
  let f := chainedStructField struct s chained
  match isDuplicateField chained.name fields f with
  | some e => do
    log e
    pure fields
  | none => (s.fields.getD []).foldlM (mergeField py spec struct s chained) (fields ++ [f])

def bindChainedStruct (struct : Struct) (fields : List Ast.Field) (chained : Chained) :
    Pass (List Ast.Field) :=
  match spec.symbols.resolveFieldType struct.loc chained.name chained.name with
  | .error e => do
    log e
    pure fields
  | .ok (.struct s) => do
    logIf (s.strict && !struct.inlineChainedStructs)
      (chainedNestedStructNoStrictError struct.loc struct.name chained.name)
    logIf (s.chainedTypes.getD [] ≠ [] ∨ s.chainedStructs.getD [] ≠ [])
      (chainedNestedStructNoNestedError struct.loc struct.name chained.name)
    mergeStruct py spec struct s chained fields
  | .ok _ => do
    log (chainedStructNotFoundError struct.loc chained.name)
    pure fields

/-- Bind a field of the struct itself and append it. -/
def addOwnField (isCommand : Bool) (struct : Struct) (fields : List Ast.Field) (field : Field) :
    Pass (List Ast.Field) := do
  match ← bindField py spec field with
  | none => pure fields
  | some f => do
    logIf (f.supportsDocSequence && !isCommand)
      (badStructFieldAsDocSequenceError struct.loc f.name struct.name)
    logIf (f.nonConstGetter && struct.immutable)
      (badFieldNonConstGetterInImmutableStructError struct.loc f.name struct.name)
    appendField struct.name fields f

/-- The errors about orders that were given before. -/
def comparisonOrderErrors (struct : Struct) : List Int → List Ast.Field → List ParserError
  | _, [] => []
  | seen, f :: rest =>
    if f.comparisonOrder = -1 then comparisonOrderErrors struct seen rest
    else
      (if f.comparisonOrder ∈ seen then
        [duplicateComparisonOrderFieldError struct.loc struct.name f.comparisonOrder] else []) ++
      comparisonOrderErrors struct (f.comparisonOrder :: seen) rest

/-- Without an order of the user the fields are numbered. -/
def orderFields (struct : Struct) (fields : List Ast.Field) : List Ast.Field × List ParserError :=
  if struct.generateComparisonOperators then
    if fields.all (·.comparisonOrder = -1) then
      (fields.mapIdx fun i f => { f with comparisonOrder := i }, [])
    else (fields, comparisonOrderErrors struct [] fields)
  else (fields, [])

/-- `_bind_struct_common`. -/
def bindStructCommon (isCommand : Bool) (struct : Struct) : Pass Ast.Struct := do
  logIf (startsWith struct.name "array<") (arrayNotValidError struct.loc "struct" struct.name)
  logIf (struct.chainedTypes.getD [] ≠ [] ∧ struct.strict = true)
    (chainedTypeNoStrictError struct.loc struct.name)
  let fields ← (struct.chainedTypes.getD []).foldlM (addChainedType spec struct) []
  let fields ← (struct.chainedStructs.getD []).foldlM (bindChainedStruct py spec struct) fields
  -- The fields come last, so that they are serialized after the chained ones.
  let fields ← (struct.fields.getD []).foldlM (addOwnField py spec isCommand struct) fields
  let fields ← of (orderFields struct fields)
  pure {
    loc := struct.loc
    name := struct.name
    cppName := struct.boundCppName
    description := struct.description
    strict := struct.strict
    immutable := struct.immutable
    inlineChainedStructs := struct.inlineChainedStructs
    generateComparisonOperators := struct.generateComparisonOperators
    fields }

def bindStruct (struct : Struct) : Pass Ast.Struct := bindStructCommon py spec false struct

/-! ## Commands -/

/-- The hidden field `$db`. -/
def dbField (c : Command) : Field where
  loc := c.loc
  name := "$db"
  type := some "string"
  cppName := some "dbName"
  serializeOpMsgRequestOnly := true
  constructed := c.commandNamespace = some "concatenate_with_db"

/-- `_inject_hidden_command_fields`. -/
def injectHiddenCommandFields (c : Command) : Pass Command :=
  match c.fields with
  | none => raise .attributeError
  | some fields => pure { c with fields := some (fields ++ [dbField c]) }

/-- The field of a command's type, as `_bind_command_type` starts it. -/
def commandParameter (c : Command) : Ast.Field where
  loc := c.loc
  name := c.name
  description := c.description
  cppName := some "CommandParameter"

/-- `_bind_command_type`, for the value of `type`. -/
def bindCommandType (c : Command) (type : String) : Pass (Option Ast.Field) := do
  let f := commandParameter c
  logIf (startsWith f.name "array<") (arrayNotValidError f.loc "field" f.name)
  match spec.symbols.resolveFieldType c.loc c.name type with
  | .error e => do
    log e
    pure none
  | .ok (.command _) => do
    log (badCommandAsFieldError f.loc type)
    pure none
  | .ok (.enum _) => raise .assertionError
  | .ok (.struct s) => do
    let f := { f with array := isArrayType type }
    logIf f.default.isSome (structFieldMustBeEmptyError f.loc f.name "default")
    pure (some (f.ofStruct s))
  | .ok (.type t) => do
    let f := { f with array := isArrayType type }.ofType t
    validateTypeProperties py f.properties "command.type"
    validateFieldProperties f
    pure (some f)

/-- The field for the type of a command that has one. -/
def bindCommandField (c : Command) : Pass (Option Ast.Field) :=
  match c.type.filter (· ≠ "") with
  | none => pure none
  | some type => bindCommandType py spec c type

def bindCommand (c : Command) : Pass Ast.Command := do
  let c ← injectHiddenCommandFields c
  let struct ← bindStructCommon py spec true c.toStruct
  let commandField ← bindCommandField py spec c
  logIf (struct.fields.any (·.name = struct.name))
    (badCommandNameDuplicatesFieldError struct.loc struct.name)
  pure { struct with commandNamespace := c.commandNamespace, commandField }

end Structs

/-! ## Enumerations -/

section Enums

variable (py : Python)

/-- The values as integers, or the first that is none with the text of the `ValueError`. -/
def intValues : List EnumValue → Except (String × String) (List Int)
  | [] => .ok []
  | v :: rest =>
    match py.int v.value with
    | .error message => .error (v.value, message)
    | .ok i =>
      match intValues rest with
      | .error e => .error e
      | .ok is => .ok (i :: is)

def validateEnumInt (e : Enum) (values : List EnumValue) : Pass Unit :=
  match intValues py values with
  | .error (value, message) => log (enumValueNotIntError e.loc e.name value message)
  -- `min` of an empty set.
  | .ok [] => raise .valueError
  | .ok (i :: is) =>
    logIf ((Int.range (is.foldl min i) (is.foldl max i + 1)).toFinset ≠ (i :: is).toFinset)
      (enumNonContinuousRangeError e.loc e.name)

def bindEnumValue (v : EnumValue) : Ast.EnumValue := ⟨v.loc, v.name, v.value⟩

/-- The checks of the values. -/
def validateEnumValues (e : Enum) (values : List EnumValue) : Pass Unit := do
  logIf (values.length ≠ (values.map (·.value)).dedup.length) (enumValueNotUniqueError e.loc e.name)
  if e.type = some "int" then validateEnumInt py e values else pure ()

def bindEnum (e : Enum) : Pass (Option Ast.Enum) :=
  if (enumTypeInfo py e).isNone then do
    log (enumBadTypeError e.loc e.name e.type)
    pure none
  else
    match e.values with
    | none => raise .typeError
    | some values => do
      validateEnumValues py e values
      pure (some {
        loc := e.loc
        name := e.name
        description := e.description
        cppNamespace := e.cppNamespace
        type := e.type
        values := values.map bindEnumValue })

end Enums

/-! ## Server parameters -/

section ServerParameters

variable (py : Python)

/-- The attributes of parameters with a storage that the parameter has. -/
def storageAttributes (p : ServerParameter) : List String :=
  (if p.cppVartype.isSome then ["cpp_vartype"] else []) ++
  (if p.cppVarname.isSome then ["cpp_varname"] else []) ++
  (if p.onUpdate.isSome then ["on_update"] else []) ++
  (if p.validator.isSome then ["validator"] else [])

def bindServerParameterClass (node : Ast.ServerParameter) (p : ServerParameter)
    (cls : ServerParameterClass) : Pass (Option Ast.ServerParameter) :=
  let node := { node with
    cppClass := some ⟨cls.loc, cls.name, cls.data, cls.overrideCtor, cls.overrideSet⟩ }
  match storageAttributes p with
  | attr :: _ => do
    log (serverParameterInvalidAttrError p.loc attr "specialized")
    pure none
  | [] =>
    match p.default with
    | none => pure (some node)
    | some default =>
      if default.isConstexpr then
        pure ((bindExpression py default true).map fun e => { node with default := some e })
      else do
        log (serverParameterInvalidAttrError p.loc "default.is_constexpr=false" "specialized")
        pure none

/-- The validator of a parameter, which can refuse it. -/
def bindServerParameterValidator (node : Ast.ServerParameter) (p : ServerParameter) :
    Pass (Option Ast.ServerParameter) :=
  match p.validator with
  | none => pure (some node)
  | some v => do
    match ← bindValidator py v with
    | none => pure none
    | some validator => pure (some { node with validator := some validator })

def bindServerParameterWithStorage (node : Ast.ServerParameter) (p : ServerParameter) :
    Pass (Option Ast.ServerParameter) :=
  let node := { node with
    cppVartype := p.cppVartype, cppVarname := p.cppVarname, onUpdate := p.onUpdate }
  if p.cppClass.isSome then do
    log (serverParameterInvalidAttrError p.loc "cpp_class" "bound")
    pure none
  else
    match p.default with
    | none => bindServerParameterValidator py node p
    | some default =>
      match bindExpression py default true with
      | none => pure none
      | some e => bindServerParameterValidator py { node with default := some e } p

/-- The bits of `set_at`, or the first specifier that is unknown. -/
def setAtBits : List String → Except String (Bool × Bool)
  | [] => .ok (false, false)
  | psa :: rest =>
    if py.lower psa = "startup" then
      match setAtBits rest with
      | .error e => .error e
      | .ok bits => .ok (true, bits.2)
    else if py.lower psa = "runtime" then
      match setAtBits rest with
      | .error e => .error e
      | .ok bits => .ok (bits.1, true)
    else .error psa

def bindServerParameterSetAt (p : ServerParameter) : Pass (Option String) :=
  match p.setAt with
  | none => raise .typeError
  | some setAt =>
    match setAtBits py setAt with
    | .error psa => do
      log (badSetatSpecifierError p.loc psa)
      pure none
    | .ok (true, false) => pure (some "ServerParameterType::kStartupOnly")
    | .ok (false, true) => pure (some "ServerParameterType::kRuntimeOnly")
    | .ok (true, true) => pure (some "ServerParameterType::kStartupAndRuntime")
    | .ok (false, false) => do
      log (badSetatSpecifierError p.loc (String.intercalate "," setAt))
      pure none

def bindServerParameter (p : ServerParameter) : Pass (Option Ast.ServerParameter) := do
  match ← bindServerParameterSetAt py p with
  | none => pure none
  | some setAt =>
    let node : Ast.ServerParameter := {
      loc := p.loc
      name := p.name
      setAt
      description := p.description
      condition := bindCondition p.condition
      redact := p.redact
      testOnly := p.testOnly
      deprecatedName := p.deprecatedName }
    match p.cppClass with
    | some cls => bindServerParameterClass py node p cls
    | none =>
      if truthy p.cppVarname then bindServerParameterWithStorage py node p
      else do
        log (serverParameterRequiredAttrError p.loc "cpp_varname" "server_parameter")
        pure none

end ServerParameters

/-! ## Configuration options -/

def isInvalidConfigShortName (name : String) : Bool := containsText name "." || containsText name ","

/-- The name of a set of sources. The source indexes a table with the sum of the bits less one. -/
def sourceName (cli ini yaml : Bool) : String :=
  match cli, ini, yaml with
  | true, false, false => "SourceCommandLine"
  | false, true, false => "SourceINIConfig"
  | true, true, false => "SourceAllLegacy"
  | false, false, true => "SourceYAMLConfig"
  | true, false, true => "SourceYAMLCLI"
  | false, true, true => "SourceAllConfig"
  | true, true, true | false, false, false => "SourceAll"

def parseConfigOptionSources (sources : List String) : Option String :=
  if sources = [] ∨ ¬ sources.all (· ∈ ["cli", "ini", "yaml"]) then none
  else some (sourceName ("cli" ∈ sources) ("ini" ∈ sources) ("yaml" ∈ sources))

/-- `node.short_name`, or the error about a `single_name` without it. -/
def composeShortName (o : ConfigOption) : Except ParserError (Option String) :=
  -- The name itself serves as a short name where it can.
  let shortName := if o.shortName.isNone && !isInvalidConfigShortName o.name then some o.name
    else o.shortName
  match o.singleName.filter (· ≠ "") with
  | none => .ok shortName
  | some single =>
    match shortName.filter (· ≠ "") with
    | none => .error (missingShortNameWithSingleNameError o.loc single)
    | some short => .ok (some (short ++ "," ++ single))

/-- `option.section or globals_spec.configs.section`, if there are such globals. -/
def configSection (globals : Option Global) (o : ConfigOption) : Option String :=
  match globals.bind Global.configs with
  | some configs => if truthy o.configSection then o.configSection else configs.configSection
  | none => o.configSection

/-- The same for the sources. -/
def configSources (globals : Option Global) (o : ConfigOption) : List String :=
  match globals.bind Global.configs with
  | some configs => if o.source ≠ [] then o.source else configs.source
  | none => o.source

/-- `duplicates_append`, or the error. -/
def duplicatesAppend (o : ConfigOption) : Except ParserError Bool :=
  match o.duplicateBehavior with
  | none | some "" | some "overwrite" => .ok false
  | some "append" => .ok true
  | some behavior => .error (badDuplicateBehaviorError o.loc behavior)

section ConfigOptions

variable (py : Python)

/-- `positional_start` and `positional_end`. A single number is a range of that number. -/
def bindPositional (o : ConfigOption) (shortName : Option String) :
    Pass (Option (Option Int × Option Int)) :=
  match o.positional.filter (· ≠ "") with
  | none => pure (some (none, none))
  | some positional =>
    if !truthy shortName then do
      log (missingShortnameForPositionalArgError o.loc)
      pure none
    else
      let badRange := badNumericRangeError o.loc "positional" positional
      let spread := splitText positional "-"
      match if spread.length = 1 then spread ++ spread else spread with
      | first :: last :: rest => do
        logIf (rest ≠ [] ∨ first = "" ∧ last = "") badRange
        match py.int (if first = "" then "-1" else first),
            py.int (if last = "" then "-1" else last) with
        | .ok start, .ok stop => pure (some (some start, some stop))
        | _, _ => do
          log badRange
          pure none
      | _ => raise .indexError

/-- The validator of an option, which can refuse it. -/
def bindConfigValidator (node : Ast.ConfigOption) (o : ConfigOption) :
    Pass (Option Ast.ConfigOption) :=
  match o.validator with
  | none => pure (some node)
  | some v => do
    match ← bindValidator py v with
    | none => pure none
    | some validator => pure (some { node with validator := some validator })

/-- The rest of `_bind_config_option`, after the checks of the names. -/
def bindConfigValues (globals : Option Global) (o : ConfigOption) (shortName : Option String) :
    Pass (Option Ast.ConfigOption) :=
  match o.description with
  | none => raise .attributeError
  | some description =>
    match parseConfigOptionSources (configSources globals o) with
    | none => do
      log (badSourceSpecifierError o.loc (String.intercalate ", " (configSources globals o)))
      pure none
    | some source =>
      match duplicatesAppend o with
      | .error e => do
        log e
        pure none
      | .ok duplicatesAppend => do
        match ← bindPositional py o shortName with
        | none => pure none
        | some (positionalStart, positionalEnd) =>
          bindConfigValidator py {
            loc := o.loc
            name := o.name
            shortName
            deprecatedName := o.deprecatedName
            deprecatedShortName := o.deprecatedShortName
            description := bindExpression py description true
            configSection := configSection globals o
            argVartype := o.argVartype
            cppVartype := o.cppVartype
            cppVarname := o.cppVarname
            condition := bindCondition o.condition
            conflicts := o.conflicts
            requires := o.requires
            hidden := o.hidden
            redact := o.redact
            default := o.default.bind (bindExpression py · true)
            implicit := o.implicit.bind (bindExpression py · true)
            source := some source
            canonicalize := o.canonicalize
            duplicatesAppend
            positionalStart
            positionalEnd } o

def bindConfigOption (globals : Option Global) (o : ConfigOption) :
    Pass (Option Ast.ConfigOption) :=
  match (o.shortName.getD "" :: o.deprecatedShortName).find? isInvalidConfigShortName with
  | some name => do
    log (invalidShortNameError o.loc name)
    pure none
  | none =>
    match o.singleName.filter fun name => name.toList.length ≠ 1 || !py.isalpha name with
    | some name => do
      log (invalidSingleNameError o.loc name)
      pure none
    | none =>
      match composeShortName o with
      | .error e => do
        log e
        pure none
      | .ok shortName => bindConfigValues py globals o shortName

end ConfigOptions

/-! ## Documents -/

def bindConfigGlobal (configs : ConfigGlobal) : Ast.ConfigGlobal where
  loc := configs.loc
  initializer := configs.initializer.map fun init => ⟨init.loc, init.name, init.register, init.store⟩

def bindGlobals (spec : IDLSpec) : Ast.Global :=
  match spec.globals with
  | some globals => {
      loc := globals.loc
      cppNamespace := globals.cppNamespace
      cppIncludes := globals.cppIncludes
      configs := globals.configs.map bindConfigGlobal }
  | none => { loc := ⟨"<implicit>", 0, 0⟩, cppNamespace := some "mongo" }

/-- Bind the items of a list in order. -/
def bindEach {α β : Type} (f : α → Pass β) (items : List α) : Pass (List β) :=
  items.foldlM (fun bound item => do
    let b ← f item
    pure (bound ++ [b])) []

/-- The body of `bind`, with the errors that it collects. -/
def bindSpec (py : Python) (spec : IDLSpec) : Pass IDLAST := do
  validateTypes py spec
  let enums ← bindEach (bindEnum py) (spec.symbols.enums.filter (!·.imported))
  let commands ← bindEach (bindCommand py spec) (spec.symbols.commands.filter (!·.imported))
  let structs ← bindEach (bindStruct py spec) (spec.symbols.structs.filter (!·.imported))
  let serverParameters ← bindEach (bindServerParameter py) spec.serverParameters
  let configs ← bindEach (bindConfigOption py spec.globals) spec.configs
  pure { globals := bindGlobals spec, commands, enums, structs, serverParameters, configs }

def bind (py : Python) (spec : IDLSpec) : Except Raised IDLBoundSpec :=
  match bindSpec py spec with
  | .error e => .error e
  | .ok bound [] => .ok ⟨some bound, none⟩
  | .ok _ errors => .ok ⟨none, some errors⟩

end MongoTests.Idl
