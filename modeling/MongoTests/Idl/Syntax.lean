import Mathlib.Data.Nat.Notation
import MongoTests.Lib.Report

/-!
# The syntax of IDL documents

The classes of `syntax.py`, with the errors of `errors.py` that a pass collects and the exceptions
that can end it. An attribute that may be `None` is an `Option`, and each class has the defaults of
its constructor.
-/

namespace MongoTests.Idl

open MongoTests.Lib

/-! ## Errors -/

structure SourceLocation where
  fileName : String
  line : ℕ
  column : ℕ
  deriving DecidableEq

structure ParserError where
  errorId : String
  msg : String
  loc : SourceLocation
  deriving DecidableEq

/-- The Python exceptions that the passes can raise. -/
inductive Raised
  | assertionError
  | attributeError
  | indexError
  | typeError
  | valueError
  | osError
  | yamlError
  | idlError (msg : String)
  deriving DecidableEq

/-- A pass over a document, with the collection of its errors. -/
abbrev Pass := Report Raised ParserError

/-! ## Documents -/

structure Expression where
  loc : SourceLocation
  literal : Option String := none
  expr : Option String := none
  isConstexpr : Bool := true
  deriving DecidableEq

structure Validator where
  loc : SourceLocation
  gt : Option Expression := none
  lt : Option Expression := none
  gte : Option Expression := none
  lte : Option Expression := none
  callback : Option String := none
  deriving DecidableEq

structure Condition where
  loc : SourceLocation
  expr : Option String := none
  constexpr : Option String := none
  preprocessor : Option String := none
  deriving DecidableEq

structure IdlType where
  loc : SourceLocation
  name : String
  description : Option String := none
  cppType : Option String := none
  bsonSerializationType : Option (List String) := none
  bindataSubtype : Option String := none
  serializer : Option String := none
  deserializer : Option String := none
  default : Option String := none
  deriving DecidableEq

structure Field where
  loc : SourceLocation
  name : String
  cppName : Option String := none
  description : Option String := none
  type : Option String := none
  ignore : Bool := false
  optional : Bool := false
  default : Option String := none
  supportsDocSequence : Bool := false
  comparisonOrder : Int := -1
  validator : Option Validator := none
  nonConstGetter : Bool := false
  serializeOpMsgRequestOnly : Bool := false
  constructed : Bool := false
  deriving DecidableEq

/-- A chained type or a chained struct. -/
structure Chained where
  loc : SourceLocation
  name : String
  cppName : Option String := none
  deriving DecidableEq

structure Struct where
  loc : SourceLocation
  name : String
  description : Option String := none
  strict : Bool := true
  immutable : Bool := false
  inlineChainedStructs : Bool := true
  generateComparisonOperators : Bool := false
  chainedTypes : Option (List Chained) := none
  chainedStructs : Option (List Chained) := none
  fields : Option (List Field) := none
  cppName : Option String := none
  imported : Bool := false
  cppNamespace : Option String := none
  deriving DecidableEq

structure Command extends Struct where
  /-- The attribute `namespace`. -/
  commandNamespace : Option String := none
  type : Option String := none
  deriving DecidableEq

structure EnumValue where
  loc : SourceLocation
  name : String
  value : String
  deriving DecidableEq

structure Enum where
  loc : SourceLocation
  name : String
  description : Option String := none
  type : Option String := none
  values : Option (List EnumValue) := none
  imported : Bool := false
  cppNamespace : Option String := none
  deriving DecidableEq

structure GlobalInitializer where
  loc : SourceLocation
  name : Option String := none
  register : Option String := none
  store : Option String := none
  deriving DecidableEq

structure ConfigGlobal where
  loc : SourceLocation
  /-- The attribute `section`. -/
  configSection : Option String := none
  source : List String := []
  initializer : Option GlobalInitializer := none
  deriving DecidableEq

structure Global where
  loc : SourceLocation
  cppNamespace : Option String := none
  cppIncludes : List String := []
  configs : Option ConfigGlobal := none
  deriving DecidableEq

structure Import where
  loc : SourceLocation
  imports : List String := []
  /-- What the resolver returns for the imports that need an include. -/
  resolvedImports : List (Option String) := []
  dependencies : List String := []
  deriving DecidableEq

structure ServerParameterClass where
  loc : SourceLocation
  name : Option String := none
  data : Option String := none
  overrideCtor : Bool := false
  overrideSet : Bool := false
  deriving DecidableEq

structure ServerParameter where
  loc : SourceLocation
  name : String
  setAt : Option (List String) := none
  description : Option String := none
  cppVartype : Option String := none
  cppVarname : Option String := none
  cppClass : Option ServerParameterClass := none
  condition : Option Condition := none
  deprecatedName : List String := []
  redact : Bool := false
  testOnly : Bool := false
  default : Option Expression := none
  validator : Option Validator := none
  onUpdate : Option String := none
  deriving DecidableEq

structure ConfigOption where
  loc : SourceLocation
  name : String
  deprecatedName : List String := []
  shortName : Option String := none
  singleName : Option String := none
  deprecatedShortName : List String := []
  description : Option Expression := none
  configSection : Option String := none
  argVartype : Option String := none
  cppVartype : Option String := none
  cppVarname : Option String := none
  condition : Option Condition := none
  conflicts : List String := []
  requires : List String := []
  hidden : Bool := false
  redact : Bool := false
  default : Option Expression := none
  implicit : Option Expression := none
  source : List String := []
  canonicalize : Option String := none
  duplicateBehavior : Option String := none
  positional : Option String := none
  validator : Option Validator := none
  deriving DecidableEq

end MongoTests.Idl
