import MongoTests.Idl.SymbolTable

/-!
# Parsing a document

`_parse` of `parser.py`, with the checks of `ParserContext`: a composed YAML document becomes an
`IDLSpec` or a collection of errors. The keys of a mapping are scalars.

* `forKeys`: the loop over the entries of a mapping that reports keys it has seen before.
* `Rule`, `genericParser`: `_generic_parser` with its table of rules.
* `parseStruct`, `parseCommand`, `parseEnum` and the other sections; `parseDocument`: `_parse`.
-/

namespace MongoTests.Idl

open MongoTests.Lib Report

/-! ## YAML nodes -/

structure Mark where
  line : ℕ
  column : ℕ
  deriving DecidableEq

/-- A key of a mapping, which is a scalar node. -/
structure Key where
  mark : Mark
  value : String
  deriving DecidableEq

inductive Node
  | scalar (mark : Mark) (value : String)
  | sequence (mark : Mark) (value : List Node)
  | mapping (mark : Mark) (value : List (Key × Node))

namespace Node

def mark : Node → Mark
  | .scalar m _ | .sequence m _ | .mapping m _ => m

def id : Node → String
  | .scalar _ _ => "scalar"
  | .sequence _ _ => "sequence"
  | .mapping _ _ => "mapping"

/-- The entries that `for [first_node, second_node] in node.value` goes through. A node does not
unpack to a pair, and neither does a character. -/
def entries : Node → Pass (List (Key × Node))
  | .mapping _ entries => pure entries
  | .sequence _ [] => pure []
  | .sequence _ (_ :: _) => raise .typeError
  | .scalar _ "" => pure []
  | .scalar _ _ => raise .valueError

end Node

/-! ## The context -/

/-- The file of the errors, and Python's `int` with the text of its `ValueError`. -/
structure ParserContext where
  fileName : String
  int : String → Except String Int

namespace ParserContext

variable (ctxt : ParserContext)

def loc (m : Mark) : SourceLocation := ⟨ctxt.fileName, m.line, m.column⟩

def nodeError (m : Mark) (errorId msg : String) : ParserError := ⟨errorId, msg, ctxt.loc m⟩

def unknownRootNodeError (k : Key) : ParserError :=
  ctxt.nodeError k.mark "ID0001" ("Unrecognized IDL specification root level node '" ++ k.value ++
    "', only  (global, import, types, commands, and structs) are accepted")

def unknownNodeError (k : Key) (name : String) : ParserError :=
  ctxt.nodeError k.mark "ID0008" ("Unknown IDL node '" ++ k.value ++ "' for YAML entity '" ++
    name ++ "'")

def duplicateError (k : Key) : ParserError :=
  ctxt.nodeError k.mark "ID0005" ("Duplicate node found for '" ++ k.value ++ "'")

def nodeTypeError (node : Node) (nodeName expected : String) : ParserError :=
  ctxt.nodeError node.mark "ID0003" ("Illegal YAML node type '" ++ node.id ++ "' for '" ++
    nodeName ++ "', expected YAML node type '" ++ expected ++ "'")

def scalarOrSequenceError (node : Node) (nodeName : String) : ParserError :=
  ctxt.nodeError node.mark "ID0004" ("Illegal node type '" ++ node.id ++ "' for '" ++ nodeName ++
    "', expected either node type 'scalar' or 'sequence'")

def scalarOrMappingError (node : Node) (nodeName : String) : ParserError :=
  ctxt.nodeError node.mark "ID0065" ("Illegal node type '" ++ node.id ++ "' for '" ++ nodeName ++
    "', expected either node type 'scalar' or 'mapping'")

def validBoolError (m : Mark) (nodeName : String) : ParserError :=
  ctxt.nodeError m "ID0007" ("Illegal bool value for '" ++ nodeName ++
    "', expected either 'true' or 'false'.")

def validIntError (m : Mark) (nodeName valueError : String) : ParserError :=
  ctxt.nodeError m "ID0049" ("Illegal integer value for '" ++ nodeName ++ "', message '" ++
    valueError ++ "'.")

def validNonNegativeIntError (m : Mark) (nodeName : String) : ParserError :=
  ctxt.nodeError m "ID0050" ("Illegal negative integer value for '" ++ nodeName ++
    "', expected 0 or positive integer.")

def emptyStructError (m : Mark) (name : String) : ParserError :=
  ctxt.nodeError m "ID0009" ("Struct '" ++ name ++
    "' must either have fields, chained_types, or " ++
    "chained_structs specified but neither were found")

def emptyEnumError (m : Mark) (name : String) : ParserError :=
  ctxt.nodeError m "ID0034" ("Enum '" ++ name ++
    "' must have values specified but no values were found")

def missingRequiredFieldError (m : Mark) (nodeParent nodeName : String) : ParserError :=
  ctxt.nodeError m "ID0010" ("IDL node '" ++ nodeParent ++ "' is missing required scalar '" ++
    nodeName ++ "'")

/-- `is_scalar_node`, and the value of the scalar. -/
def scalarNode (node : Node) (nodeName : String) : Pass (Option String) :=
  match node with
  | .scalar _ v => pure (some v)
  | _ => do
    log (ctxt.nodeTypeError node nodeName "scalar")
    pure none

/-- `is_mapping_node`. -/
def isMappingNode (node : Node) (nodeName : String) : Pass Bool :=
  match node with
  | .mapping _ _ => pure true
  | _ => do
    log (ctxt.nodeTypeError node nodeName "mapping")
    pure false

/-- `is_scalar_bool_node` and `get_bool`. -/
def boolNode (node : Node) (nodeName : String) : Pass (Option Bool) :=
  match node with
  | .scalar _ "true" => pure (some true)
  | .scalar _ "false" => pure (some false)
  | .scalar m _ => do
    log (ctxt.validBoolError m nodeName)
    pure none
  | _ => do
    log (ctxt.nodeTypeError node nodeName "scalar")
    pure none

/-- `is_scalar_non_negative_int_node` and `get_non_negative_int`. -/
def nonNegativeIntNode (node : Node) (nodeName : String) : Pass (Option Int) :=
  match node with
  | .scalar m v =>
    match ctxt.int v with
    | .error e => do
      log (ctxt.validIntError m nodeName e)
      pure none
    | .ok value =>
      if value < 0 then do
        log (ctxt.validNonNegativeIntError m nodeName)
        pure none
      else pure (some value)
  | _ => do
    log (ctxt.nodeTypeError node nodeName "scalar")
    pure none

/-- The values of a list of scalars, up to the first node that is none. -/
def scalarItems (nodeName : String) : List Node → Pass (Option (List String))
  | [] => pure (some [])
  | node :: rest => do
    match ← ctxt.scalarNode node nodeName with
    | none => pure none
    | some v => do
      let vs ← scalarItems nodeName rest
      pure (vs.map (v :: ·))

/-- `is_scalar_sequence` and `get_list`. -/
def scalarSequence (node : Node) (nodeName : String) : Pass (Option (List String)) :=
  match node with
  | .sequence _ items => ctxt.scalarItems nodeName items
  | _ => do
    log (ctxt.nodeTypeError node nodeName "sequence")
    pure none

/-- `is_scalar_sequence_or_scalar_node` and `get_list`. -/
def scalarOrSequence (node : Node) (nodeName : String) : Pass (Option (List String)) :=
  match node with
  | .scalar _ v => pure (some [v])
  | .sequence _ _ => ctxt.scalarSequence node nodeName
  | .mapping _ _ => do
    log (ctxt.scalarOrSequenceError node nodeName)
    pure none

end ParserContext

/-! ## The generic parser -/

section Generic

variable {σ : Type} (ctxt : ParserContext)

/-- A loop over the entries of a mapping that reports the keys that it has seen and skips them. -/
def forKeys (f : σ → Key → Node → Pass σ) : List String → σ → List (Key × Node) → Pass σ
  | _, s, [] => pure s
  | seen, s, (k, node) :: rest =>
    if k.value ∈ seen then do
      log (ctxt.duplicateError k)
      forKeys f seen s rest
    else do
      let s' ← f s k node
      forKeys f (k.value :: seen) s' rest

/-- The kinds of nodes of `_RuleDesc`, with the attribute that a rule sets. -/
inductive Rule (σ : Type)
  | scalar (set : String → σ → σ)
  | boolScalar (set : Bool → σ → σ)
  | intScalar (set : Int → σ → σ)
  | scalarOrSequence (set : List String → σ → σ)
  | scalarOrMapping (parse : Node → Pass (σ → σ))
  | mapping (parse : Node → Pass (σ → σ))

/-- A scalar or a mapping that another parser reads. -/
def Rule.ofScalarOrMapping {α : Type} (parse : Node → Pass α) (set : α → σ → σ) : Rule σ :=
  .scalarOrMapping fun node => do
    let v ← parse node
    pure (set v)

/-- A mapping that another parser reads. -/
def Rule.ofMapping {α : Type} (parse : Node → Pass α) (set : α → σ → σ) : Rule σ :=
  .mapping fun node => do
    let v ← parse node
    pure (set v)

/-- A rule, and for a required attribute the test whether it is `None`. -/
structure RuleDesc (σ : Type) where
  rule : Rule σ
  isNone : Option (σ → Bool) := none

abbrev Rules (σ : Type) := List (String × RuleDesc σ)

def Rule.apply (rule : Rule σ) (name : String) (node : Node) (s : σ) : Pass σ :=
  match rule with
  | .scalar set => do
    let v ← ctxt.scalarNode node name
    pure (v.elim s (set · s))
  | .boolScalar set => do
    let v ← ctxt.boolNode node name
    pure (v.elim s (set · s))
  | .intScalar set => do
    let v ← ctxt.nonNegativeIntNode node name
    pure (v.elim s (set · s))
  | .scalarOrSequence set => do
    let v ← ctxt.scalarOrSequence node name
    pure (v.elim s (set · s))
  | .scalarOrMapping parse =>
    match node with
    | .sequence _ _ => do
      log (ctxt.scalarOrMappingError node name)
      pure s
    | _ => do
      let set ← parse node
      pure (set s)
  | .mapping parse =>
    match node with
    | .mapping _ _ => do
      let set ← parse node
      pure (set s)
    | _ => do
      log (ctxt.nodeTypeError node name "mapping")
      pure s

/-- The errors about the required attributes that are missing. -/
def missingRequired (m : Mark) (syntaxNodeName : String) (s : σ) (rules : Rules σ) :
    List ParserError :=
  (rules.filter fun rule => rule.2.isNone.any (· s)).map fun rule =>
    ctxt.missingRequiredFieldError m syntaxNodeName rule.1

/-- `_generic_parser`. -/
def genericParser (node : Node) (syntaxNodeName : String) (s : σ) (rules : Rules σ) : Pass σ := do
  let entries ← node.entries
  let s ← forKeys ctxt (fun s k second =>
    match rules.lookup k.value with
    | some desc => desc.rule.apply ctxt k.value second s
    | none => do
      log (ctxt.unknownNodeError k syntaxNodeName)
      pure s) [] s entries
  of (s, missingRequired ctxt node.mark syntaxNodeName s rules)

end Generic

/-! ## The parts of a document -/

section Parts

variable (ctxt : ParserContext)

def parseInitializer (node : Node) : Pass GlobalInitializer :=
  match node with
  | .scalar m v => pure { loc := ctxt.loc m, name := some v }
  | _ => genericParser ctxt node "initializer" { loc := ctxt.loc node.mark } [
      ("register", ⟨.scalar fun v s => { s with register := some v }, some (·.register.isNone)⟩),
      ("store", ⟨.scalar fun v s => { s with store := some v }, none⟩)]

def parseConfigGlobal (node : Node) : Pass ConfigGlobal :=
  genericParser ctxt node "configs" { loc := ctxt.loc node.mark } [
    ("section", ⟨.scalar fun v s => { s with configSection := some v }, none⟩),
    ("source", ⟨.scalarOrSequence fun v s => { s with source := v }, none⟩),
    ("initializer", ⟨.ofScalarOrMapping (parseInitializer ctxt) fun v s =>
      { s with initializer := some v }, none⟩)]

def parseExpression (node : Node) : Pass Expression :=
  match node with
  | .scalar m v => pure { loc := ctxt.loc m, literal := some v }
  | _ => genericParser ctxt node "expr" { loc := ctxt.loc node.mark } [
      ("expr", ⟨.scalar fun v s => { s with expr := some v }, some (·.expr.isNone)⟩),
      ("is_constexpr", ⟨.boolScalar fun v s => { s with isConstexpr := v }, none⟩)]

def parseValidator (node : Node) : Pass Validator :=
  genericParser ctxt node "validator" { loc := ctxt.loc node.mark } [
    ("gt", ⟨.ofScalarOrMapping (parseExpression ctxt) fun v s => { s with gt := some v }, none⟩),
    ("lt", ⟨.ofScalarOrMapping (parseExpression ctxt) fun v s => { s with lt := some v }, none⟩),
    ("gte", ⟨.ofScalarOrMapping (parseExpression ctxt) fun v s => { s with gte := some v }, none⟩),
    ("lte", ⟨.ofScalarOrMapping (parseExpression ctxt) fun v s => { s with lte := some v }, none⟩),
    ("callback", ⟨.scalar fun v s => { s with callback := some v }, none⟩)]

def parseCondition (node : Node) : Pass Condition :=
  genericParser ctxt node "condition" { loc := ctxt.loc node.mark } [
    ("preprocessor", ⟨.scalar fun v s => { s with preprocessor := some v }, none⟩),
    ("constexpr", ⟨.scalar fun v s => { s with constexpr := some v }, none⟩),
    ("expr", ⟨.scalar fun v s => { s with expr := some v }, none⟩)]

def fieldRules : Rules Field := [
  ("description", ⟨.scalar fun v s => { s with description := some v }, none⟩),
  ("cpp_name", ⟨.scalar fun v s => { s with cppName := some v }, none⟩),
  ("type", ⟨.scalar fun v s => { s with type := some v }, some (·.type.isNone)⟩),
  ("ignore", ⟨.boolScalar fun v s => { s with ignore := v }, none⟩),
  ("optional", ⟨.boolScalar fun v s => { s with optional := v }, none⟩),
  ("default", ⟨.scalar fun v s => { s with default := some v }, none⟩),
  ("supports_doc_sequence", ⟨.boolScalar fun v s => { s with supportsDocSequence := v }, none⟩),
  ("comparison_order", ⟨.intScalar fun v s => { s with comparisonOrder := v }, none⟩),
  ("validator", ⟨.ofMapping (parseValidator ctxt) fun v s => { s with validator := some v }, none⟩),
  ("non_const_getter", ⟨.boolScalar fun v s => { s with nonConstGetter := v }, none⟩)]

def parseField (name : String) (node : Node) : Pass Field :=
  genericParser ctxt node "field" { loc := ctxt.loc node.mark, name } (fieldRules ctxt)

/-- A field of a given type, or one with its attributes. -/
def addField (node : Node) (fields : List Field) (k : Key) (second : Node) : Pass (List Field) :=
  match second with
  | .scalar _ v => pure (fields ++ [{ loc := ctxt.loc node.mark, name := k.value, type := some v }])
  | _ => do
    let field ← parseField ctxt k.value second
    pure (fields ++ [field])

def parseFields (node : Node) : Pass (List Field) := do
  let entries ← node.entries
  forKeys ctxt (addField ctxt node) [] [] entries

/-- `_parse_chained_type` and `_parse_chained_struct`. -/
def parseChained (name : String) (node : Node) : Pass Chained :=
  genericParser ctxt node "chain" { loc := ctxt.loc node.mark, name } [
    ("cpp_name", ⟨.scalar fun v s => { s with cppName := some v }, none⟩)]

def addChained (node : Node) (items : List Chained) (k : Key) (second : Node) :
    Pass (List Chained) :=
  match second with
  | .scalar _ v =>
    pure (items ++ [{ loc := ctxt.loc node.mark, name := k.value, cppName := some v }])
  | _ => do
    let item ← parseChained ctxt k.value second
    pure (items ++ [item])

/-- `_parse_chained_types` and `_parse_chained_structs`. -/
def parseChainedItems (node : Node) : Pass (List Chained) := do
  let entries ← node.entries
  forKeys ctxt (addChained ctxt node) [] [] entries

end Parts

/-! ## The sections -/

structure IDLSpec where
  symbols : SymbolTable := {}
  globals : Option Global := none
  imports : Option Import := none
  serverParameters : List ServerParameter := []
  configs : List ConfigOption := []
  deriving DecidableEq

section Sections

variable (ctxt : ParserContext)

/-- Add a symbol to the table of the document. -/
def IDLSpec.add (spec : IDLSpec) (s : Symbol) : Pass IDLSpec :=
  of ({ spec with symbols := (spec.symbols.add s).1 }, (spec.symbols.add s).2)

def globalRules : Rules Global := [
  ("cpp_namespace", ⟨.scalar fun v s => { s with cppNamespace := some v }, none⟩),
  ("cpp_includes", ⟨.scalarOrSequence fun v s => { s with cppIncludes := v }, none⟩),
  ("configs", ⟨.ofMapping (parseConfigGlobal ctxt) fun v s => { s with configs := some v }, none⟩)]

def parseGlobal (spec : IDLSpec) (node : Node) : Pass IDLSpec := do
  if ← ctxt.isMappingNode node "global" then do
    let g ← genericParser ctxt node "global" { loc := ctxt.loc node.mark } (globalRules ctxt)
    pure { spec with globals := some g }
  else pure spec

def parseImports (spec : IDLSpec) (node : Node) : Pass IDLSpec := do
  match ← ctxt.scalarSequence node "imports" with
  | none => pure spec
  | some imports => pure { spec with imports := some { loc := ctxt.loc node.mark, imports } }

def typeRules : Rules IdlType := [
  ("description",
    ⟨.scalar fun v s => { s with description := some v }, some (·.description.isNone)⟩),
  ("cpp_type", ⟨.scalar fun v s => { s with cppType := some v }, some (·.cppType.isNone)⟩),
  ("bson_serialization_type",
    ⟨.scalarOrSequence fun v s => { s with bsonSerializationType := some v },
    some (·.bsonSerializationType.isNone)⟩),
  ("bindata_subtype", ⟨.scalar fun v s => { s with bindataSubtype := some v }, none⟩),
  ("serializer", ⟨.scalar fun v s => { s with serializer := some v }, none⟩),
  ("deserializer", ⟨.scalar fun v s => { s with deserializer := some v }, none⟩),
  ("default", ⟨.scalar fun v s => { s with default := some v }, none⟩)]

def parseType (spec : IDLSpec) (name : String) (node : Node) : Pass IDLSpec := do
  if ← ctxt.isMappingNode node "type" then do
    let t ← genericParser ctxt node "type" { loc := ctxt.loc node.mark, name } typeRules
    spec.add (.type t)
  else pure spec

def structRules : Rules Struct := [
  ("description",
    ⟨.scalar fun v s => { s with description := some v }, some (·.description.isNone)⟩),
  ("fields", ⟨.ofMapping (parseFields ctxt) fun v s => { s with fields := some v }, none⟩),
  ("chained_types",
    ⟨.ofMapping (parseChainedItems ctxt) fun v s => { s with chainedTypes := some v }, none⟩),
  ("chained_structs",
    ⟨.ofMapping (parseChainedItems ctxt) fun v s => { s with chainedStructs := some v }, none⟩),
  ("strict", ⟨.boolScalar fun v s => { s with strict := v }, none⟩),
  ("inline_chained_structs", ⟨.boolScalar fun v s => { s with inlineChainedStructs := v }, none⟩),
  ("immutable", ⟨.boolScalar fun v s => { s with immutable := v }, none⟩),
  ("generate_comparison_operators",
    ⟨.boolScalar fun v s => { s with generateComparisonOperators := v }, none⟩)]

def emptyStruct (m : Mark) (s : Struct) : List ParserError :=
  if s.fields.isNone && s.chainedTypes.isNone && s.chainedStructs.isNone then
    [ctxt.emptyStructError m s.name]
  else []

def parseStruct (spec : IDLSpec) (name : String) (node : Node) : Pass IDLSpec := do
  if ← ctxt.isMappingNode node "struct" then do
    let s ← genericParser ctxt node "struct" { loc := ctxt.loc node.mark, name } (structRules ctxt)
    let s ← of (s, emptyStruct ctxt node.mark s)
    spec.add (.struct s)
  else pure spec

def addEnumValue (node : Node) (values : List EnumValue) (k : Key) (second : Node) :
    Pass (List EnumValue) := do
  match ← ctxt.scalarNode second k.value with
  | none => pure values
  | some v => pure (values ++ [{ loc := ctxt.loc node.mark, name := k.value, value := v }])

def parseEnumValues (node : Node) : Pass (List EnumValue) := do
  let entries ← node.entries
  forKeys ctxt (addEnumValue ctxt node) [] [] entries

def enumRules : Rules Enum := [
  ("description",
    ⟨.scalar fun v s => { s with description := some v }, some (·.description.isNone)⟩),
  ("type", ⟨.scalar fun v s => { s with type := some v }, some (·.type.isNone)⟩),
  ("values", ⟨.ofMapping (parseEnumValues ctxt) fun v s => { s with values := some v }, none⟩)]

def emptyEnum (m : Mark) (e : Enum) : List ParserError :=
  if e.values.isNone then [ctxt.emptyEnumError m e.name] else []

def parseEnum (spec : IDLSpec) (name : String) (node : Node) : Pass IDLSpec := do
  if ← ctxt.isMappingNode node "struct" then do
    let e ← genericParser ctxt node "enum" { loc := ctxt.loc node.mark, name } (enumRules ctxt)
    let e ← of (e, emptyEnum ctxt node.mark e)
    spec.add (.enum e)
  else pure spec

def commandRules : Rules Command := [
  ("description",
    ⟨.scalar fun v s => { s with description := some v }, some (·.description.isNone)⟩),
  ("chained_types",
    ⟨.ofMapping (parseChainedItems ctxt) fun v s => { s with chainedTypes := some v }, none⟩),
  ("chained_structs",
    ⟨.ofMapping (parseChainedItems ctxt) fun v s => { s with chainedStructs := some v }, none⟩),
  ("fields", ⟨.ofMapping (parseFields ctxt) fun v s => { s with fields := some v }, none⟩),
  ("namespace", ⟨.scalar fun v s => { s with commandNamespace := some v },
    some (·.commandNamespace.isNone)⟩),
  ("cpp_name", ⟨.scalar fun v s => { s with cppName := some v }, none⟩),
  ("type", ⟨.scalar fun v s => { s with type := some v }, none⟩),
  ("strict", ⟨.boolScalar fun v s => { s with strict := v }, none⟩),
  ("inline_chained_structs", ⟨.boolScalar fun v s => { s with inlineChainedStructs := v }, none⟩),
  ("immutable", ⟨.boolScalar fun v s => { s with immutable := v }, none⟩),
  ("generate_comparison_operators",
    ⟨.boolScalar fun v s => { s with generateComparisonOperators := v }, none⟩)]

/-- Whether `if s:` takes the branch. -/
def truthy (s : Option String) : Bool := s.any (· ≠ "")

def validCommands : List String :=
  ["concatenate_with_db", "ignored", "type", "concatenate_with_db_or_uuid"]

def badCommandNamespaceError (c : Command) (commandNamespace : String) : ParserError where
  errorId := "ID0041"
  msg := "Command namespace '" ++ commandNamespace ++ "' for command '" ++ c.name ++
    "' is not a valid choice. Valid options are " ++
    "'['concatenate_with_db', 'ignored', 'type', 'concatenate_with_db_or_uuid']'."
  loc := c.loc

def extraneousCommandTypeError (c : Command) : ParserError where
  errorId := "ID0052"
  msg := "Command '" ++ c.name ++
    "' cannot have a 'type' property unless namespace equals 'type'."
  loc := c.loc

/-- The errors about the namespace of a command and its type. -/
def commandErrors (m : Mark) (c : Command) : List ParserError :=
  match c.commandNamespace.filter (· ≠ "") with
  | none => []
  | some commandNamespace =>
    (if commandNamespace ∈ validCommands then []
      else [badCommandNamespaceError c commandNamespace]) ++
    (if commandNamespace = "type" ∧ truthy c.type = false then
      [ctxt.missingRequiredFieldError m "command" "type"] else []) ++
    (if commandNamespace ≠ "type" ∧ truthy c.type = true then [extraneousCommandTypeError c]
      else [])

def parseCommand (spec : IDLSpec) (name : String) (node : Node) : Pass IDLSpec := do
  if ← ctxt.isMappingNode node "command" then do
    let c ← genericParser ctxt node "command" { loc := ctxt.loc node.mark, name }
      (commandRules ctxt)
    let c ← of (c, commandErrors ctxt node.mark c)
    spec.add (.command { c with fields := some (c.fields.getD []) })
  else pure spec

def parseServerParameterClass (node : Node) : Pass ServerParameterClass :=
  match node with
  | .scalar m v => pure { loc := ctxt.loc m, name := some v }
  | _ => genericParser ctxt node "cpp_class" { loc := ctxt.loc node.mark } [
      ("name", ⟨.scalar fun v s => { s with name := some v }, some (·.name.isNone)⟩),
      ("data", ⟨.scalar fun v s => { s with data := some v }, none⟩),
      ("override_ctor", ⟨.boolScalar fun v s => { s with overrideCtor := v }, none⟩),
      ("override_set", ⟨.boolScalar fun v s => { s with overrideSet := v }, none⟩)]

def serverParameterRules : Rules ServerParameter := [
  ("set_at", ⟨.scalarOrSequence fun v s => { s with setAt := some v }, some (·.setAt.isNone)⟩),
  ("description",
    ⟨.scalar fun v s => { s with description := some v }, some (·.description.isNone)⟩),
  ("cpp_vartype", ⟨.scalar fun v s => { s with cppVartype := some v }, none⟩),
  ("cpp_varname", ⟨.scalar fun v s => { s with cppVarname := some v }, none⟩),
  ("condition", ⟨.ofMapping (parseCondition ctxt) fun v s => { s with condition := some v }, none⟩),
  ("redact", ⟨.boolScalar fun v s => { s with redact := v }, none⟩),
  ("default",
    ⟨.ofScalarOrMapping (parseExpression ctxt) fun v s => { s with default := some v }, none⟩),
  ("test_only", ⟨.boolScalar fun v s => { s with testOnly := v }, none⟩),
  ("deprecated_name", ⟨.scalarOrSequence fun v s => { s with deprecatedName := v }, none⟩),
  ("validator", ⟨.ofMapping (parseValidator ctxt) fun v s => { s with validator := some v }, none⟩),
  ("on_update", ⟨.scalar fun v s => { s with onUpdate := some v }, none⟩),
  ("cpp_class", ⟨.ofScalarOrMapping (parseServerParameterClass ctxt) fun v s =>
    { s with cppClass := some v }, none⟩)]

def parseServerParameter (spec : IDLSpec) (name : String) (node : Node) : Pass IDLSpec := do
  if ← ctxt.isMappingNode node "server_parameters" then do
    let p ← genericParser ctxt node "server_parameters" { loc := ctxt.loc node.mark, name }
      (serverParameterRules ctxt)
    pure { spec with serverParameters := spec.serverParameters ++ [p] }
  else pure spec

def configOptionRules : Rules ConfigOption := [
  ("short_name", ⟨.scalar fun v s => { s with shortName := some v }, none⟩),
  ("single_name", ⟨.scalar fun v s => { s with singleName := some v }, none⟩),
  ("deprecated_name", ⟨.scalarOrSequence fun v s => { s with deprecatedName := v }, none⟩),
  ("deprecated_short_name",
    ⟨.scalarOrSequence fun v s => { s with deprecatedShortName := v }, none⟩),
  ("description",
    ⟨.ofScalarOrMapping (parseExpression ctxt) fun v s => { s with description := some v },
    some (·.description.isNone)⟩),
  ("section", ⟨.scalar fun v s => { s with configSection := some v }, none⟩),
  ("arg_vartype", ⟨.scalar fun v s => { s with argVartype := some v }, some (·.argVartype.isNone)⟩),
  ("cpp_vartype", ⟨.scalar fun v s => { s with cppVartype := some v }, none⟩),
  ("cpp_varname", ⟨.scalar fun v s => { s with cppVarname := some v }, none⟩),
  ("condition", ⟨.ofMapping (parseCondition ctxt) fun v s => { s with condition := some v }, none⟩),
  ("conflicts", ⟨.scalarOrSequence fun v s => { s with conflicts := v }, none⟩),
  ("requires", ⟨.scalarOrSequence fun v s => { s with requires := v }, none⟩),
  ("hidden", ⟨.boolScalar fun v s => { s with hidden := v }, none⟩),
  ("redact", ⟨.boolScalar fun v s => { s with redact := v }, none⟩),
  ("default",
    ⟨.ofScalarOrMapping (parseExpression ctxt) fun v s => { s with default := some v }, none⟩),
  ("implicit",
    ⟨.ofScalarOrMapping (parseExpression ctxt) fun v s => { s with implicit := some v }, none⟩),
  ("source", ⟨.scalarOrSequence fun v s => { s with source := v }, none⟩),
  ("canonicalize", ⟨.scalar fun v s => { s with canonicalize := some v }, none⟩),
  ("duplicate_behavior", ⟨.scalar fun v s => { s with duplicateBehavior := some v }, none⟩),
  ("positional", ⟨.scalar fun v s => { s with positional := some v }, none⟩),
  ("validator", ⟨.ofMapping (parseValidator ctxt) fun v s => { s with validator := some v }, none⟩)]

def parseConfigOption (spec : IDLSpec) (name : String) (node : Node) : Pass IDLSpec := do
  if ← ctxt.isMappingNode node "configs" then do
    let option ← genericParser ctxt node "configs" { loc := ctxt.loc node.mark, name }
      (configOptionRules ctxt)
    pure { spec with configs := spec.configs ++ [option] }
  else pure spec

/-- `_parse_mapping`: all entries of a section, also those with a name that was there before. -/
def parseMapping (func : IDLSpec → String → Node → Pass IDLSpec) (syntaxNodeName : String)
    (spec : IDLSpec) (node : Node) : Pass IDLSpec :=
  match node with
  | .mapping _ entries => entries.foldlM (fun spec e => func spec e.1.value e.2) spec
  | _ => do
    log (ctxt.nodeTypeError node syntaxNodeName "mapping")
    pure spec

def parseSection (spec : IDLSpec) (k : Key) (node : Node) : Pass IDLSpec :=
  match k.value with
  | "global" => parseGlobal ctxt spec node
  | "imports" => parseImports ctxt spec node
  | "enums" => parseMapping ctxt (parseEnum ctxt) "enums" spec node
  | "types" => parseMapping ctxt (parseType ctxt) "types" spec node
  | "structs" => parseMapping ctxt (parseStruct ctxt) "structs" spec node
  | "commands" => parseMapping ctxt (parseCommand ctxt) "commands" spec node
  | "server_parameters" =>
    parseMapping ctxt (parseServerParameter ctxt) "server_parameters" spec node
  | "configs" => parseMapping ctxt (parseConfigOption ctxt) "configs" spec node
  | _ => do
    log (ctxt.unknownRootNodeError k)
    pure spec

end Sections

/-! ## The document -/

/-- `cpp_type.replace(' ', '')`. -/
def removeSpaces (s : String) : String := String.ofList (s.toList.filter (· ≠ ' '))

def isPrimitiveScalarType (cppType : String) : Bool :=
  removeSpaces cppType ∈
    ["bool", "double", "std::int32_t", "std::uint32_t", "std::uint64_t", "std::int64_t"]

/-- `part in s`. -/
def containsText (s part : String) : Bool := s.toList.tails.any (part.toList.isPrefixOf ·)

def prefixWithNamespace (cppNamespace cppName : String) : String :=
  if containsText cppName "::" || isPrimitiveScalarType cppName then cppName
  else cppNamespace ++ "::" ++ cppName

/-- The namespace is put before the `cpp_type` of a type, which is never `None` here. -/
def propagateType (cppNamespace : String) (t : IdlType) : Except Raised IdlType :=
  match t.cppType with
  | none => .error .typeError
  | some cppType => .ok { t with cppType := some (prefixWithNamespace cppNamespace cppType) }

def propagateGlobals (spec : IDLSpec) : Except Raised IDLSpec :=
  match (spec.globals.bind Global.cppNamespace).filter (· ≠ "") with
  | none => .ok spec
  | some cppNamespace => do
    let types ← spec.symbols.types.mapM (propagateType cppNamespace)
    pure { spec with symbols := {
      structs := spec.symbols.structs.map fun s => { s with cppNamespace := some cppNamespace }
      commands := spec.symbols.commands.map fun c => { c with cppNamespace := some cppNamespace }
      enums := spec.symbols.enums.map fun e => { e with cppNamespace := some cppNamespace }
      types } }

/-- A document, or the errors: one of the two is `None`. -/
structure IDLParsedSpec where
  spec : Option IDLSpec
  errors : Option (List ParserError)
  deriving DecidableEq

/-- `_parse`, after the YAML document has been composed; an empty document has no node. -/
def parseDocument (ctxt : ParserContext) (root : Option Node) : Except Raised IDLParsedSpec :=
  match root with
  | none => .ok ⟨some {}, none⟩
  | some (.mapping _ entries) =>
    match forKeys ctxt (parseSection ctxt) [] {} entries with
    | .error e => .error e
    | .ok spec [] => do
      let spec ← propagateGlobals spec
      pure ⟨some spec, none⟩
    | .ok _ errors => .ok ⟨none, some errors⟩
  | some node => .error (.idlError ("Expected a YAML mapping node as root node of IDL document, " ++
      "got '" ++ node.id ++ "' instead"))

end MongoTests.Idl
