import MongoTests.Idl.Parser

/-!
# Bound documents

The classes of `ast.py`, with what the binder uses of `common.py`, `bson.py`, `enum_types.py` and of
Python's strings. A bound field refers to the field of its chained struct by name.
-/

namespace MongoTests.Idl

/-! ## Python -/

/-- What the binder takes from Python. -/
structure Python where
  /-- `int`, with the text of its `ValueError`. -/
  int : String → Except String Int
  /-- `repr(float(s))`, unless `float` raises a `ValueError`. -/
  float : String → Option String
  upper : String → String
  lower : String → String
  isalpha : String → Bool
  /-- The characters of `\w` in a regular expression. -/
  isWord : Char → Bool

/-- The loop of `splitText`, with the characters that it skips and those of the current part. -/
def splitChars (separator : List Char) : ℕ → List Char → List Char → List (List Char)
  | _, part, [] => [part.reverse]
  | skip + 1, part, _ :: cs => splitChars separator skip part cs
  | 0, part, c :: cs =>
    if separator.isPrefixOf (c :: cs) then
      part.reverse :: splitChars separator (separator.length - 1) [] cs
    else splitChars separator 0 (c :: part) cs

/-- `s.split(separator)`. -/
def splitText (s separator : String) : List String :=
  (splitChars separator.toList 0 [] s.toList).map String.ofList

/-- Search the rest of a text for a word, after the character `before`. -/
def searchFrom (py : Python) (word : List Char) (before : Option Char) : List Char → Bool
  | [] => false
  | c :: cs =>
    (word.isPrefixOf (c :: cs) && !before.any py.isWord &&
      !((c :: cs).drop word.length).head?.any py.isWord) || searchFrom py word (some c) cs

/-- `re.search(r'\b%s\b' % (word), s)`, for a word of word characters. -/
def searchWord (py : Python) (word s : String) : Bool := searchFrom py word.toList none s.toList

/-- `os.path.basename`. -/
def basename (path : String) : String := (splitText path "/").getLastD ""

def SourceLocation.str (loc : SourceLocation) : String :=
  basename loc.fileName ++ ": (" ++ toString loc.line ++ ", " ++ toString loc.column ++ ")"

/-! ## Names -/

/-- `name[0:1].upper() + name[1:]`. -/
def capitalize (py : Python) (name : String) : String :=
  py.upper (String.ofList (name.toList.take 1)) ++ String.ofList (name.toList.drop 1)

/-- The part of a text after the last `::`, with what stands before it. -/
def splitQualified (name : List Char) : Option (List Char × List Char) :=
  match name with
  | [] => none
  | c :: cs =>
    match splitQualified cs with
    | some (qualifier, rest) => some (c :: qualifier, rest)
    | none => if "::".toList.isPrefixOf (c :: cs) then some ("::".toList, cs.drop 1) else none

/-- Only the last part of a qualified name is capitalized. -/
def titleCase (py : Python) (name : String) : String :=
  match splitQualified name.toList with
  | some (qualifier, rest) => String.ofList qualifier ++ capitalize py (String.ofList rest)
  | none => capitalize py name

def qualifyCppName (cppNamespace : Option String) (cppTypeName : String) : String :=
  match cppNamespace.filter (· ≠ "") with
  | some cppNamespace => cppNamespace ++ "::" ++ cppTypeName
  | none => cppTypeName

/-! ## BSON types -/

/-- The BSON types, and whether each is scalar. -/
def bsonTypeInformation : List (String × Bool) :=
  [("double", true), ("string", true), ("object", false), ("bindata", true), ("undefined", true),
    ("objectid", true), ("bool", true), ("date", true), ("null", true), ("regex", true),
    ("int", true), ("timestamp", true), ("long", true), ("decimal", true)]

def isValidBsonType (name : String) : Bool := (bsonTypeInformation.lookup name).isSome

def isValidBindataSubtype (name : String) : Bool := name ∈ ["generic", "function", "uuid", "md5"]

/-! ## The tree -/

namespace Ast

structure Expression where
  loc : SourceLocation
  expr : Option String := none
  validateConstexpr : Bool := true
  /-- The attribute `export`. -/
  exported : Bool := false
  deriving DecidableEq

structure Validator where
  loc : SourceLocation
  gt : Option Expression := none
  lt : Option Expression := none
  gte : Option Expression := none
  lte : Option Expression := none
  callback : Option String := none
  deriving DecidableEq

structure Field where
  loc : SourceLocation
  name : String
  description : Option String := none
  cppName : Option String := none
  optional : Bool := false
  ignore : Bool := false
  chained : Bool := false
  comparisonOrder : Int := -1
  nonConstGetter : Bool := false
  cppType : Option String := none
  bsonSerializationType : Option (List String) := none
  serializer : Option String := none
  deserializer : Option String := none
  bindataSubtype : Option String := none
  default : Option String := none
  structType : Option String := none
  array : Bool := false
  supportsDocSequence : Bool := false
  enumType : Bool := false
  /-- The name of the field of the chained struct. -/
  chainedStructField : Option String := none
  serializeOpMsgRequestOnly : Bool := false
  constructed : Bool := false
  validator : Option Validator := none
  deriving DecidableEq

structure Struct where
  loc : SourceLocation
  name : String
  cppName : String
  description : Option String
  strict : Bool
  immutable : Bool
  inlineChainedStructs : Bool
  generateComparisonOperators : Bool
  fields : List Field
  deriving DecidableEq

structure Command extends Struct where
  /-- The attribute `namespace`. -/
  commandNamespace : Option String
  commandField : Option Field
  deriving DecidableEq

structure EnumValue where
  loc : SourceLocation
  name : String
  value : String
  deriving DecidableEq

structure Enum where
  loc : SourceLocation
  name : String
  description : Option String
  cppNamespace : Option String
  type : Option String
  values : List EnumValue
  deriving DecidableEq

structure Condition where
  loc : SourceLocation
  expr : Option String
  constexpr : Option String
  preprocessor : Option String
  deriving DecidableEq

structure GlobalInitializer where
  loc : SourceLocation
  name : Option String
  register : Option String
  store : Option String
  deriving DecidableEq

structure ConfigGlobal where
  loc : SourceLocation
  initializer : Option GlobalInitializer
  deriving DecidableEq

structure Global where
  loc : SourceLocation
  cppNamespace : Option String
  cppIncludes : List String := []
  configs : Option ConfigGlobal := none
  deriving DecidableEq

structure ServerParameterClass where
  loc : SourceLocation
  name : Option String
  data : Option String
  overrideCtor : Bool
  overrideSet : Bool
  deriving DecidableEq

structure ServerParameter where
  loc : SourceLocation
  name : String
  setAt : String
  description : Option String
  cppClass : Option ServerParameterClass := none
  cppVartype : Option String := none
  cppVarname : Option String := none
  condition : Option Condition
  redact : Bool
  testOnly : Bool
  deprecatedName : List String
  default : Option Expression := none
  validator : Option Validator := none
  onUpdate : Option String := none
  deriving DecidableEq

structure ConfigOption where
  loc : SourceLocation
  name : String
  shortName : Option String
  deprecatedName : List String
  deprecatedShortName : List String
  description : Option Expression := none
  configSection : Option String := none
  argVartype : Option String := none
  cppVartype : Option String := none
  cppVarname : Option String := none
  condition : Option Condition := none
  conflicts : List String := []
  requires : List String := []
  hidden : Bool := false
  redact : Bool := false
  default : Option Expression := none
  implicit : Option Expression := none
  source : Option String := none
  canonicalize : Option String := none
  duplicatesAppend : Bool := false
  positionalStart : Option Int := none
  positionalEnd : Option Int := none
  validator : Option Validator := none
  deriving DecidableEq

end Ast

/-- A bound document. The entries that a bind function can refuse are `None` in the source. -/
structure IDLAST where
  globals : Ast.Global
  commands : List Ast.Command
  enums : List (Option Ast.Enum)
  structs : List Ast.Struct
  serverParameters : List (Option Ast.ServerParameter)
  configs : List (Option Ast.ConfigOption)
  deriving DecidableEq

/-- A bound document, or the errors: one of the two is `None`. -/
structure IDLBoundSpec where
  spec : Option IDLAST
  errors : Option (List ParserError)
  deriving DecidableEq

/-! ## Enumerations -/

/-- What a field takes from the `EnumTypeInfoBase` of its enumeration. -/
structure EnumTypeInfo where
  cppTypeName : String
  bsonTypes : List String
  serializerName : String
  deserializerName : String
  deriving DecidableEq

/-- `get_type_info`, for enumerations of integers and of strings. -/
def enumTypeInfo (py : Python) (e : Enum) : Option EnumTypeInfo :=
  let info (cppTypeName type : String) : EnumTypeInfo :=
    { cppTypeName := qualifyCppName e.cppNamespace cppTypeName
      bsonTypes := [type]
      serializerName :=
        "::" ++ qualifyCppName e.cppNamespace (titleCase py e.name ++ "_serializer")
      deserializerName := "::" ++ qualifyCppName e.cppNamespace (titleCase py e.name ++ "_parse") }
  match e.type with
  | some "int" => some (info (titleCase py e.name) "int")
  | some "string" => some (info (titleCase py e.name ++ "Enum") "string")
  | _ => none

end MongoTests.Idl
