import MongoTests.Idl.Generator

/-!
# What the generated parsers do

The meaning of the generated deserializers, and the parser that they amount to: one pass over the
elements that marks the fields in use, then the chained fields, the checks and the command field.

* `Runtime`: what the generated code takes from elsewhere; `Store`: its variables;
* `Runtime.test`, `Runtime.run`: the meaning of the lines; `Runtime.parseProtected`: of the parser;
* `Progress`, `Runtime.parseElement`, `Runtime.parseDocument`: the parser on marks and members.
-/

namespace MongoTests.Idl

open MongoTests.Lib

namespace Generator

/-- The errors of the parser context, and those of the functions that the code calls. -/
inductive ParseError (ε : Type)
  | duplicateField (name : String)
  | unknownField (name : String)
  | missingField (name : String)
  | badArrayFieldNumberSequence (number expected : ℕ)
  | badArrayFieldNumberValue (name : String)
  | other (e : ε)
  deriving DecidableEq

/-- What the generated code takes from elsewhere, for BSON values `V` and values of members `M`. -/
structure Runtime (V M ε : Type) where
  /-- The element that a `BSONElement` starts as. -/
  eoo : V
  isGenericArgument : String → Bool
  /-- The checks of the parser context. -/
  checkAndAssertType : TypeCheck → V → Except ε Bool
  /-- `element.Obj()` -/
  obj : V → Except ε (List (String × V))
  /-- `NumberParser{}`, for 32 bits. -/
  numberParser : String → Option ℕ
  /-- The expression of `_gen_field_deserializer_expression`. -/
  deserialize : Ast.Field → V → Except ε M
  /-- The parser of a chained field, for the whole object. -/
  parseChained : Ast.Field → List (String × V) → Except ε M
  /-- The validator of a field. -/
  validate : Ast.Field → M → Except ε Unit
  vector : List M → M
  /-- The default of a field. -/
  default : Ast.Field → M
  /-- Set the field in a chained struct, which may be as its constructor left it. -/
  set : Ast.Field → M → Option M → M
  /-- The namespace, from the name of the database and the command element. -/
  parseNamespace : Option M → V → Except ε M

/-- An object of the class. A member may be as the constructor left it. -/
@[ext] structure Object (M : Type) where
  members : String → Option M := fun _ => none
  has : String → Bool := fun _ => false
  nss : Option M := none

/-- The variables of a parser. -/
structure Store (V M : Type) where
  element : String × V
  arrayElement : String × V
  commandElement : V
  firstFieldFound : Bool := false
  /-- `std::set<StringData> usedFields` -/
  used : List String := []
  /-- `push_result.second` -/
  pushed : Bool := true
  /-- The size of `std::bitset<…> usedFields`, with its constants and the bits that are set. -/
  size : ℕ := 0
  constants : List (String × ℕ) := []
  bits : List ℕ := []
  expectedFieldNumber : ℕ := 0
  fieldNumber : Option ℕ := none
  values : List M := []
  object : Object M := {}

variable {V M ε : Type}

namespace Object

def assign (o : Object M) (name : String) (m : M) : Object M :=
  { o with members := Function.update o.members name (some m) }

def setHas (o : Object M) (name : String) : Object M :=
  { o with has := Function.update o.has name true }

end Object

namespace Store

/-- Before the first line of a parser. -/
def initial (eoo : V) : Store V M where
  element := ("", eoo)
  arrayElement := ("", eoo)
  commandElement := eoo

def operand (s : Store V M) : Operand → V
  | .element => s.element.2
  | .commandElement => s.commandElement
  | .arrayElement => s.arrayElement.2

/-- The value of the constant `k…Bit`. -/
def bitOf (s : Store V M) (f : Ast.Field) : ℕ := (s.constants.lookup f.name).getD 0

end Store

namespace Runtime

variable (rt : Runtime V M ε)

/-- A call of a function that may throw. -/
def call {α : Type} (x : Except ε α) : Except (ParseError ε) α := x.mapError .other

def test : Cond → Store V M → Except (ParseError ε) Bool
  | .nameIs f, s => .ok (s.element.1 = f.name)
  | .notGenericArgument, s => .ok !rt.isGenericArgument s.element.1
  | .firstFieldNotFound, s => .ok !s.firstFieldFound
  | .typeCheck check x, s => call (rt.checkAndAssertType check (s.operand x))
  | .notPushed, s => .ok !s.pushed
  | .notUsed f, s => .ok (f.name ∉ s.used)
  | .bit f, s => .ok (s.bitOf f ∈ s.bits)
  | .notBit f, s => .ok (s.bitOf f ∉ s.bits)
  | .notAll, s => .ok !(List.range s.size).all (· ∈ s.bits)
  | .statusOk, s => .ok s.fieldNumber.isSome
  | .notExpected, s => .ok (s.fieldNumber ≠ some s.expectedFieldNumber)

/-- The value of an assignment. -/
def value (f : Ast.Field) (s : Store V M) : Source → Except (ParseError ε) M
  | .parsed x => call (rt.deserialize f (s.operand x))
  | .values => .ok (rt.vector s.values)
  | .default => .ok (rt.default f)

/-- The setter of a field of a chained struct validates, if the field has a validator. -/
def setIn (f : Ast.Field) (outer : String) (m : M) (o : Object M) :
    Except (ParseError ε) (Object M) := do
  if f.validator.isSome then call (rt.validate f m)
  return o.assign outer (rt.set f m (o.members outer))

/-- The meaning of a line, in the parser of the object `doc`. -/
def run (doc : List (String × V)) : Action → Store V M → Except (ParseError ε) (Store V M)
  | .declareSet, s => .ok { s with used := [] }
  | .declareBitset size, s => .ok { s with size, constants := [], bits := [] }
  | .declareBit f bit, s => .ok { s with constants := (f.name, bit) :: s.constants }
  | .insertName, s =>
    .ok { s with pushed := s.element.1 ∉ s.used, used := s.element.1 :: s.used }
  | .setBit f, s => .ok { s with bits := s.bitOf f :: s.bits }
  | .throwDuplicateField, s => .error (.duplicateField s.element.1)
  | .throwUnknownField, s => .error (.unknownField s.element.1)
  | .throwMissingField f, _ => .error (.missingField f.name)
  | .setHas f, s => .ok { s with object := s.object.setHas f.name }
  | .ignoreField, s => .ok s
  | .declareCommandElement, s => .ok { s with commandElement := rt.eoo, firstFieldFound := false }
  | .storeCommandElement, s => .ok { s with commandElement := s.element.2 }
  | .setFirstFieldFound, s => .ok { s with firstFieldFound := true }
  | .declareValues, s => .ok { s with expectedFieldNumber := 0, values := [] }
  | .parseNumber, s => .ok { s with fieldNumber := rt.numberParser s.arrayElement.1 }
  | .throwBadArrayFieldNumberSequence, s =>
    .error (.badArrayFieldNumberSequence (s.fieldNumber.getD 0) s.expectedFieldNumber)
  | .throwBadArrayFieldNumberValue, s => .error (.badArrayFieldNumberValue s.arrayElement.1)
  | .emplaceBack f, s => do
    let m ← call (rt.deserialize f s.arrayElement.2)
    return { s with values := s.values ++ [m] }
  | .incrementExpected, s =>
    .ok { s with expectedFieldNumber := (s.expectedFieldNumber + 1) % 2 ^ 32 }
  | .assign f x, s => do
    let m ← rt.value f s x
    return { s with object := s.object.assign f.name m }
  | .assignValidated f x, s => do
    let m ← rt.value f s x
    call (rt.validate f m)
    return { s with object := s.object.assign f.name m }
  | .assignChained f, s => do
    let m ← call (rt.parseChained f doc)
    return { s with object := s.object.assign f.name m }
  | .assignChainedValidated f, s => do
    let m ← call (rt.parseChained f doc)
    call (rt.validate f m)
    return { s with object := s.object.assign f.name m }
  | .callSetter outer f x, s => do
    let m ← rt.value f s x
    let object ← rt.setIn f outer m s.object
    return { s with object }
  | .namespaceCheck, s => do
    let m ← call (rt.parseNamespace (s.object.members "$db") s.commandElement)
    return { s with object := { s.object with nss := some m } }

/-- The meaning of the code in the parser of the object `doc`. -/
def interp (doc : List (String × V)) :
    Interp Cond Action Range (String × V) (Store V M) (ParseError ε) where
  test := rt.test
  run := rt.run doc
  items
    | .bsonObject, _ => .ok doc
    | .arrayObject x, s => call (rt.obj (s.operand x))
  enter
    | .bsonObject, e, s => { s with element := e }
    | .arrayObject _, e, s => { s with arrayElement := e }

/-- **The generated parser**, on a new object. -/
def parseProtected (d : Ast.Definition) (doc : List (String × V)) :
    Except (ParseError ε) (Object M) :=
  Store.object <$> (rt.interp doc).result (genBsonDeserializerMethods d) (.initial rt.eoo)

/-! ## The parser on marks and members -/

/-- The type check of an element for a field. -/
def typeCheck (f : Ast.Field) (v : V) : Except (ParseError ε) Bool :=
  match bsonTypeCheck f with
  | none => .ok true
  | some check => call (rt.checkAndAssertType check v)

/-- The values of the array of a field, from the expected number on. -/
def parseValues (f : Ast.Field) : ℕ → List (String × V) → Except (ParseError ε) (List M)
  | _, [] => .ok []
  | expected, (name, v) :: rest =>
    match rt.numberParser name with
    | none => .error (.badArrayFieldNumberValue name)
    | some number => do
      if number ≠ expected then throw (.badArrayFieldNumberSequence number expected)
      if ← rt.typeCheck f v then
        let m ← call (rt.deserialize f v)
        let ms ← parseValues f ((expected + 1) % 2 ^ 32) rest
        return m :: ms
      else parseValues f ((expected + 1) % 2 ^ 32) rest

/-- Store the value of a field, after its validation where the assignment makes one. -/
def store (f : Ast.Field) (m : M) (o : Object M) : Except (ParseError ε) (Object M) :=
  match f.chainedStructField with
  | some outer => rt.setIn f outer m o
  | none => do
    (if f.validator.isSome && !f.array then call (rt.validate f m) else pure ())
    return o.assign f.name m

end Runtime

/-- How far a parser has come: the names that are marked, and the object. -/
structure Progress (V M : Type) where
  commandElement : V
  firstFieldFound : Bool := false
  marks : List String := []
  object : Object M := {}

/-- Mark a name once. -/
def Progress.mark (name : String) (p : Progress V M) : Except (ParseError ε) (Progress V M) :=
  if name ∈ p.marks then .error (.duplicateField name) else .ok { p with marks := name :: p.marks }

/-- A strict parser marks a field that it uses, and any parser sets the flag of a required one. -/
def Progress.use (strict : Bool) (f : Ast.Field) (p : Progress V M) :
    Except (ParseError ε) (Progress V M) := do
  let p ← (if strict then p.mark f.name else pure p)
  return if f.isRequiredSerializerField then { p with object := p.object.setHas f.name } else p

namespace Runtime

variable (rt : Runtime V M ε)

def storeIn (f : Ast.Field) (m : M) (p : Progress V M) : Except (ParseError ε) (Progress V M) :=
  (fun o => { p with object := o }) <$> rt.store f m p.object

/-- Parse the value of a field, which is used if its type is right. -/
def parseField (f : Ast.Field) (v : V)
    (use : Progress V M → Except (ParseError ε) (Progress V M)) (p : Progress V M) :
    Except (ParseError ε) (Progress V M) :=
  if f.array then do
    let p ← use p
    let items ← call (rt.obj v)
    let ms ← rt.parseValues f 0 items
    rt.storeIn f (rt.vector ms) p
  else do
    if ← rt.typeCheck f v then
      let p ← use p
      let m ← call (rt.deserialize f v)
      rt.storeIn f m p
    else return p

/-- Parse an element, by the field with its name. -/
def parseKnown (d : Ast.Definition) (p : Progress V M) (e : String × V) :
    Except (ParseError ε) (Progress V M) :=
  match d.toStruct.own.find? (·.name = e.1) with
  | none =>
    if d.toStruct.strict && !(d.isCommand && rt.isGenericArgument e.1) then
      .error (.unknownField e.1)
    else pure p
  | some f =>
    if f.ignore then (if d.toStruct.strict then p.mark e.1 else pure p)
    else rt.parseField f e.2 (Progress.use d.toStruct.strict f) p

/-- Parse an element. A parser that is not strict marks every name. -/
def parseElement (d : Ast.Definition) (p : Progress V M) (e : String × V) :
    Except (ParseError ε) (Progress V M) :=
  if d.isCommand && !p.firstFieldFound then
    .ok { p with
      commandElement := if d.keepsElement then e.2 else p.commandElement
      firstFieldFound := true }
  else (if d.toStruct.strict then pure p else p.mark e.1) >>= fun p => rt.parseKnown d p e

/-- Parse a chained field, from the whole object. -/
def parseAfter (doc : List (String × V)) (p : Progress V M) (f : Ast.Field) :
    Except (ParseError ε) (Progress V M) := do
  let m ← call (rt.parseChained f doc)
  rt.storeIn f m p

/-- The default of a field that is missing; a strict parser sets it in the chained struct. -/
def setDefault (d : Ast.Definition) (f : Ast.Field) (o : Object M) :
    Except (ParseError ε) (Object M) :=
  match d.toStruct.strict, f.chainedStructField with
  | true, some outer => rt.setIn f outer (rt.default f) o
  | _, _ => return o.assign f.name (rt.default f)

/-- Check a field at the end: it is marked, optional or ignored, or it gets its default. -/
def checkField (d : Ast.Definition) (p : Progress V M) (f : Ast.Field) :
    Except (ParseError ε) (Progress V M) :=
  if f.optional || f.ignore || f.name ∈ p.marks then return p
  else if f.hasDefault then (fun o => { p with object := o }) <$> rt.setDefault d f p.object
  else throw (.missingField f.name)

/-- Parse the command element. -/
def parseCommand (d : Ast.Definition) (p : Progress V M) :
    Except (ParseError ε) (Progress V M) :=
  match d.commandField with
  | some f => rt.parseField f p.commandElement pure p
  | none =>
    if d.isCommand && d.keepsElement then do
      let m ← call (rt.parseNamespace (p.object.members "$db") p.commandElement)
      return { p with object := { p.object with nss := some m } }
    else return p

/-- **The parser of a document**: the elements, the chained fields, the checks, the command. -/
def parseDocument (d : Ast.Definition) (doc : List (String × V)) :
    Except (ParseError ε) (Progress V M) := do
  let p ← doc.foldlM (rt.parseElement d) { commandElement := rt.eoo }
  let p ← d.toStruct.parsedAfter.foldlM (rt.parseAfter doc) p
  let p ← d.toStruct.own.foldlM (rt.checkField d) p
  rt.parseCommand d p

end Runtime

/-! ## A sample -/

/-- Some BSON values. -/
inductive Bson
  | null
  | number (n : ℤ)
  | document (es : List (String × Bson))

/-- The type check skips null, and a member is a list of values. -/
def sampleRuntime : Runtime Bson (List Bson) String where
  eoo := .null
  isGenericArgument name := name = "lsid"
  checkAndAssertType
    | .type "int", .number _ => .ok true
    | _, .null => .ok false
    | _, _ => .error "type mismatch"
  obj
    | .document es => .ok es
    | _ => .error "type mismatch"
  numberParser name :=
    if name.toList.all Char.isDigit then some (Nat.ofDigitChars 10 name.toList 0) else none
  deserialize _ v := .ok [v]
  parseChained _ doc := .ok [.document (doc.filter fun e => e.1 = "x")]
  validate _ _ := .ok ()
  vector := List.flatten
  default _ := [.number 1]
  set _ m outer := outer.getD [] ++ m
  parseNamespace _ v := .ok [v]

end Generator

end MongoTests.Idl
