import MongoTests.Idl.StructLayout
import MongoTests.Lib.Blocks

/-!
# The generated parsers

What `generator.py` writes for the BSON deserializer of a struct or a command, as code of a small
target language. The generated names of a field (its constants, its member, its methods) are given
by the field.

* `Ast.Definition`: a struct or a command;
* `Cond`, `Action`, `Range`: the lines that the generator writes;
* `Checker`: `_FastFieldUsageChecker` and `_SlowFieldUsageChecker`;
* `genFieldDeserializer`, `genFieldsDeserializerCommon`, `genBsonDeserializerMethods`;
* `Bound`: what the binder guarantees, by `bound_of_bindStruct` and `bound_of_bindCommand`;
* **`genBsonDeserializerMethods_eq`**: the parts of the deserializer.
-/

namespace MongoTests.Idl

open MongoTests.Lib Report

/-! ## Structs, commands and fields -/

namespace Ast

inductive Definition
  | struct (s : Struct)
  | command (c : Command)
  deriving DecidableEq

def Definition.toStruct : Definition → Struct
  | .struct s => s
  | .command c => c.toStruct

/-- `isinstance(struct, ast.Command)`. -/
def Definition.isCommand : Definition → Bool
  | .struct _ => false
  | .command _ => true

def Definition.commandField : Definition → Option Field
  | .struct _ => none
  | .command c => c.commandField

/-- The command element is kept, unless the namespace is ignored. -/
def Definition.keepsElement : Definition → Bool
  | .struct _ => false
  | .command c => c.commandNamespace != some "ignored"

/-- The fields of the own document: those that are not chained. -/
def Struct.own (s : Struct) : List Field := s.fields.filter fun f => !f.chained

/-- A struct or an own type as the type of the field. -/
def Field.hasStructType (f : Field) : Bool := f.structType.any (· ≠ "")

def Field.hasDefault (f : Field) : Bool := f.default.any (· ≠ "")

/-- The chained fields that are parsed after the others, from the whole document. -/
def Struct.parsedAfter (s : Struct) : List Field :=
  s.fields.filter fun f => f.chained && !(f.hasStructType && s.inlineChainedStructs)

/-- `_is_required_serializer_field`. -/
def Field.isRequiredSerializerField (f : Field) : Bool :=
  !f.ignore && !f.optional && !f.hasDefault && !f.chained && f.chainedStructField.isNone

end Ast

namespace Generator

/-! ## The lines -/

/-- The element that a deserializer reads. -/
inductive Operand
  | element
  | commandElement
  | arrayElement
  deriving DecidableEq

/-- The calls of `_get_bson_type_check`. -/
inductive TypeCheck
  | type (bsonType : String)
  | binData (subtype : Option String)
  | types (bsonTypes : List String)
  deriving DecidableEq

inductive Cond
  /-- `fieldName == k…FieldName` -/
  | nameIs (f : Ast.Field)
  /-- `!mongo::isGenericArgument(fieldName)` -/
  | notGenericArgument
  /-- `firstFieldFound == false` -/
  | firstFieldNotFound
  | typeCheck (check : TypeCheck) (x : Operand)
  /-- `push_result.second == false` -/
  | notPushed
  /-- `usedFields.find(k…FieldName) == usedFields.end()` -/
  | notUsed (f : Ast.Field)
  /-- `usedFields[k…Bit]` -/
  | bit (f : Ast.Field)
  /-- `!usedFields[k…Bit]` -/
  | notBit (f : Ast.Field)
  /-- `!usedFields.all()` -/
  | notAll
  /-- `status.isOK()` -/
  | statusOk
  /-- `fieldNumber != expectedFieldNumber` -/
  | notExpected
  deriving DecidableEq

/-- What is assigned: the value of an element, the values of an array, or the default. -/
inductive Source
  | parsed (x : Operand)
  | values
  | default
  deriving DecidableEq

inductive Action
  /-- `std::set<StringData> usedFields;` -/
  | declareSet
  /-- `std::bitset<size> usedFields;` -/
  | declareBitset (size : ℕ)
  /-- `const size_t k…Bit = bit;` -/
  | declareBit (f : Ast.Field) (bit : ℕ)
  /-- `auto push_result = usedFields.insert(fieldName);` -/
  | insertName
  | setBit (f : Ast.Field)
  | throwDuplicateField
  | throwUnknownField
  | throwMissingField (f : Ast.Field)
  /-- `_has… = true;` -/
  | setHas (f : Ast.Field)
  /-- `// ignore field` -/
  | ignoreField
  /-- `BSONElement commandElement; bool firstFieldFound = false;` -/
  | declareCommandElement
  | storeCommandElement
  | setFirstFieldFound
  /-- `expectedFieldNumber`, `values` and the parser context of an array. -/
  | declareValues
  /-- `Status status = NumberParser{}(arrayFieldName, &fieldNumber);` -/
  | parseNumber
  | throwBadArrayFieldNumberSequence
  | throwBadArrayFieldNumberValue
  /-- `values.emplace_back(…);` -/
  | emplaceBack (f : Ast.Field)
  /-- `++expectedFieldNumber;` -/
  | incrementExpected
  /-- `_… = …;` -/
  | assign (f : Ast.Field) (x : Source)
  /-- The block with the value, its validation and its assignment. -/
  | assignValidated (f : Ast.Field) (x : Source)
  /-- `_… = …::parse(ctxt, bsonObject);`, or a method with the object. -/
  | assignChained (f : Ast.Field)
  | assignChainedValidated (f : Ast.Field)
  /-- `_….set…(…);`, on the member of the chained struct. -/
  | callSetter (outer : String) (f : Ast.Field) (x : Source)
  /-- The namespace check of the command. -/
  | namespaceCheck
  deriving DecidableEq

/-- The ranges of the loops. -/
inductive Range
  | bsonObject
  /-- The object of the element. -/
  | arrayObject (x : Operand)
  deriving DecidableEq

abbrev Lines : Type := Code Cond Action Range

/-- `_predicate`. -/
def predicate (check : Option Cond) (useElseIf : Bool) (body : Lines) : Lines :=
  match check with
  | none => body
  | some c => .wrap (if useElseIf then .elseCond c else .cond c) body

/-! ## Field usage -/

/-- A field usage checker, with the fields that it tracks. -/
structure Checker where
  /-- `_FastFieldUsageChecker`, for strict structs. -/
  fast : Bool
  tracked : List Ast.Field := []

/-- The constants of the bits, from the next one on. -/
def declareBits : ℕ → List Ast.Field → Lines
  | _, [] => .nil
  | bit, f :: fs =>
    if f.chained then declareBits bit fs else .act (.declareBit f bit) (declareBits (bit + 1) fs)

/-- `_get_field_usage_checker`. -/
def getFieldUsageChecker (struct : Ast.Struct) : Lines × Checker :=
  if struct.strict then
    (.act (.declareBitset struct.fields.length) (declareBits 0 struct.fields), { fast := true })
  else (.line .declareSet, { fast := false })

def Checker.addStore (checker : Checker) : Lines :=
  if checker.fast then .nil
  else .act .insertName (.wrap (.cond .notPushed) (.line .throwDuplicateField))

def Checker.add (checker : Checker) (f : Ast.Field) : Lines × Checker :=
  let tracked := if f ∈ checker.tracked then checker.tracked else checker.tracked ++ [f]
  if checker.fast then
    (.block (.cond (.bit f)) (.line .throwDuplicateField) (.line (.setBit f)),
      { checker with tracked })
  else (.nil, { checker with tracked })

/-- What the final check does about a field that has not been used. -/
def missing (checker : Checker) (f : Ast.Field) : Lines :=
  if f.hasDefault then
    match checker.fast, f.chainedStructField with
    | true, some outer => .line (.callSetter outer f .default)
    | _, _ => .line (.assign f .default)
  else .line (.throwMissingField f)

def Checker.addFinalChecks (checker : Checker) : Lines :=
  if checker.fast then
    .wrap (.cond .notAll) (checker.tracked.foldr (fun f rest =>
      if !f.optional && !f.ignore then .block (.cond (.notBit f)) (missing checker f) rest
      else rest) .nil)
  else
    checker.tracked.foldr (fun f rest =>
      if !f.optional && !f.ignore && !f.chained then
        .block (.cond (.notUsed f)) (missing checker f) rest
      else rest) .nil

/-! ## Deserializers -/

/-- The type check of a field, unless the deserializer makes it. -/
def bsonTypeCheck (f : Ast.Field) : Option TypeCheck :=
  match f.bsonSerializationType.getD [] with
  | [t] =>
    if t = "any" ∨ t = "chain" then none
    else if t ≠ "bindata" then some (.type t)
    else some (.binData f.bindataSubtype)
  | ts => some (.types ts)

/-- `_get_bson_type_check`. -/
def getBsonTypeCheck (x : Operand) (f : Ast.Field) : Option Cond :=
  (bsonTypeCheck f).map fun check => .typeCheck check x

/-- `_gen_array_deserializer`. -/
def genArrayDeserializer (f : Ast.Field) (x : Operand) : Lines :=
  .act .declareValues <|
  .block (.loop (.arrayObject x))
    (.act .parseNumber <|
      .block (.cond .statusOk)
        (.block (.cond .notExpected) (.line .throwBadArrayFieldNumberSequence)
          (predicate (getBsonTypeCheck .arrayElement f) false (.line (.emplaceBack f)))) <|
      .block .otherwise (.line .throwBadArrayFieldNumberValue) <|
      .line .incrementExpected) <|
  match f.chainedStructField with
  | some outer => .line (.callSetter outer f .values)
  | none => .line (.assign f .values)

/-- `_gen_usage_check`, with a checker or without. -/
def genUsageCheck (f : Ast.Field) (checker : Option Checker) : Lines × Option Checker :=
  match checker with
  | none => (.nil, none)
  | some checker =>
    let (lines, checker) := checker.add f
    (lines ++ (if f.isRequiredSerializerField then .line (.setHas f) else .nil), some checker)

/-- `validate_and_assign_or_uassert`. -/
def validateAndAssignOrUassert (f : Ast.Field) (x : Source) : Lines :=
  if f.validator.isNone then .line (.assign f x) else .line (.assignValidated f x)

/-- `gen_field_deserializer`. -/
def genFieldDeserializer (f : Ast.Field) (x : Operand) (checker : Option Checker) :
    Lines × Option Checker :=
  let (usage, checker) := genUsageCheck f checker
  if f.array then (usage ++ genArrayDeserializer f x, checker)
  else if f.chained then
    (usage ++ (if f.validator.isNone then .line (.assignChained f)
      else .line (.assignChainedValidated f)), checker)
  else
    (predicate (getBsonTypeCheck x f) false (usage ++
      match f.chainedStructField with
      | some outer => .line (.callSetter outer f (.parsed x))
      | none => validateAndAssignOrUassert f (.parsed x)), checker)

/-- The body of the branch of a field. -/
def genField (f : Ast.Field) (checker : Checker) : Lines × Checker :=
  if f.ignore then
    let (lines, checker) := checker.add f
    (lines ++ .line .ignoreField, checker)
  else
    let (lines, checker') := genFieldDeserializer f .element (some checker)
    (lines, checker'.getD checker)

/-- The branches of the fields that are not chained, one after the other. -/
def genFields : List Ast.Field → Checker → List (Cond × Lines) × Checker
  | [], checker => ([], checker)
  | f :: fs, checker =>
    if f.chained && f.chainedStructField.isNone then genFields fs checker
    else
      let (body, checker) := genField f checker
      let (rest, checker) := genFields fs checker
      ((.nameIs f, body) :: rest, checker)

/-- The namespace check of the first element, in a command. -/
def genFirstField (d : Ast.Definition) : Lines :=
  .wrap (.cond .firstFieldNotFound)
    ((if d.keepsElement then .line .storeCommandElement else .nil) ++
      .act .setFirstFieldFound (.next .nil))

/-- The check for extraneous fields. -/
def genStrictCheck (d : Ast.Definition) : Lines :=
  if d.toStruct.strict then
    .wrap .otherwise (predicate (if d.isCommand then some .notGenericArgument else none) false
      (.line .throwUnknownField))
  else .nil

/-- The loop over the elements. -/
def genLoop (d : Ast.Definition) (checker : Checker) : Lines × Checker :=
  let (branches, checker') := genFields d.toStruct.fields checker
  (.wrap (.loop .bsonObject) ((if d.isCommand then genFirstField d else .nil) ++
    (checker.addStore ++ (Code.branches true branches ++ genStrictCheck d))), checker')

/-- `_gen_fields_deserializer_common`. -/
def genFieldsDeserializerCommon (d : Ast.Definition) : Lines × Checker :=
  let (store, checker) := getFieldUsageChecker d.toStruct
  let (loop, checker) := genLoop d checker
  (store ++ ((if d.isCommand then .line .declareCommandElement else .nil) ++ (loop ++
    d.toStruct.parsedAfter.foldr (fun f rest => (genFieldDeserializer f .element none).1 ++ rest)
      .nil)), checker)

/-- `_gen_command_deserializer`. -/
def genCommandDeserializer (d : Ast.Definition) : Lines :=
  match d.commandField with
  | some f => .wrap .scope (genFieldDeserializer f .commandElement none).1
  | none => if d.isCommand && d.keepsElement then .line .namespaceCheck else .nil

/-- `gen_bson_deserializer_methods`: the body of `parseProtected`. -/
def genBsonDeserializerMethods (d : Ast.Definition) : Lines :=
  let (fields, checker) := genFieldsDeserializerCommon d
  fields ++ (checker.addFinalChecks ++ genCommandDeserializer d)

/-! ## The parts of the parser -/

/-- The bit of the field, in the fast checker. -/
def bitUsage (fast : Bool) (f : Ast.Field) : Lines :=
  if fast then .block (.cond (.bit f)) (.line .throwDuplicateField) (.line (.setBit f)) else .nil

def hasUsage (f : Ast.Field) : Lines :=
  if f.isRequiredSerializerField then .line (.setHas f) else .nil

/-- The lines in the branch of a field. -/
def fieldBody (fast : Bool) (f : Ast.Field) : Lines := (genField f { fast }).1

section Parts

variable {struct : Ast.Struct} {d : Ast.Definition} {checker : Checker} {f : Ast.Field}

theorem add_eq (checker : Checker) (f : Ast.Field) : checker.add f = (bitUsage checker.fast f,
    { checker with
      tracked := if f ∈ checker.tracked then checker.tracked else checker.tracked ++ [f] }) := by
  unfold Checker.add bitUsage
  cases checker.fast <;> rfl

theorem genUsageCheck_some (f : Ast.Field) (checker : Checker) :
    genUsageCheck f (some checker) =
      (bitUsage checker.fast f ++ hasUsage f, some (checker.add f).2) := by
  rw [genUsageCheck, add_eq]
  rfl

theorem genFieldDeserializer_fst (x : Operand) (checker : Option Checker) :
    (genFieldDeserializer f x checker).1 =
      if f.array then (genUsageCheck f checker).1 ++ genArrayDeserializer f x
      else if f.chained then (genUsageCheck f checker).1 ++
        (if f.validator.isNone then .line (.assignChained f)
          else .line (.assignChainedValidated f))
      else predicate (getBsonTypeCheck x f) false ((genUsageCheck f checker).1 ++
        match f.chainedStructField with
        | some outer => .line (.callSetter outer f (.parsed x))
        | none => validateAndAssignOrUassert f (.parsed x)) := by
  unfold genFieldDeserializer
  split_ifs <;> rfl

theorem genFieldDeserializer_snd (x : Operand) (checker : Option Checker) :
    (genFieldDeserializer f x checker).2 = (genUsageCheck f checker).2 := by
  unfold genFieldDeserializer
  split_ifs <;> rfl

theorem genField_eq (f : Ast.Field) (checker : Checker) :
    genField f checker = (fieldBody checker.fast f, (checker.add f).2) := by
  unfold fieldBody genField
  split_ifs
  · rw [add_eq, add_eq]
  · refine Prod.ext ?_ ?_
    · show (genFieldDeserializer f _ _).1 = (genFieldDeserializer f _ _).1
      rw [genFieldDeserializer_fst, genFieldDeserializer_fst, genUsageCheck_some,
        genUsageCheck_some]
    · show (genFieldDeserializer f _ _).2.getD _ = _
      rw [genFieldDeserializer_snd, genUsageCheck_some]
      rfl

end Parts

end Generator

/-! ## Bound structs -/

/-- What the binder guarantees of the fields of a struct. -/
structure Ast.Struct.Bound (s : Ast.Struct) : Prop where
  nodup : (s.fields.map (·.name)).Nodup
  /-- Chained fields are those of the struct itself. -/
  chained : ∀ f ∈ s.fields, f.chained = true → f.ignore = false ∧ f.chainedStructField = none
  chained_array : ∀ f ∈ s.fields, f.chained = true → f.array = false
  /-- The fields of a chained struct are tagged with one of its chained fields. -/
  outer : ∀ f ∈ s.fields, ∀ o, f.chainedStructField = some o → ∃ c ∈ s.fields, c.name = o ∧
    c.chained = true

theorem exists_of_mem_right {α β : Type*} {R : α → β → Prop} {l : List α} {l' : List β}
    (h : List.Forall₂ R l l') {b : β} (hb : b ∈ l') : ∃ a ∈ l, R a b := by
  induction h with
  | nil => exact absurd hb List.not_mem_nil
  | @cons a b' l l' hab _ ih =>
    obtain rfl | hb := List.mem_cons.mp hb
    · exact ⟨a, List.mem_cons_self, hab⟩
    · obtain ⟨a', ha', hR⟩ := ih hb
      exact ⟨a', List.mem_cons_of_mem a ha', hR⟩

/-- The field of a command's type stands beside the fields. -/
structure Ast.Definition.Bound (d : Ast.Definition) : Prop where
  struct : d.toStruct.Bound
  commandField : ∀ c, d.commandField = some c → c.chained = false ∧ c.chainedStructField = none ∧
    c.validator = none ∧ c.name ∉ d.toStruct.fields.map (·.name)

section Bound

variable {py : Python} {spec : IDLSpec} {struct : Struct} {fields : List Ast.Field}

/-- A chained type is no array. -/
theorem array_of_bindChainedType {loc : SourceLocation} {chained : Chained} {f : Ast.Field}
    (h : bindChainedType spec loc chained = .ok (some f) []) : f.array = false := by
  unfold bindChainedType at h
  split at h
  · obtain ⟨-, -, h⟩ := bind_eq_quiet.mp h
    cases h
  · split at h
    · cases h
    · split at h
      · cases h
        rfl
      · split at h
        · cases h
        · obtain ⟨-, -, h⟩ := bind_eq_quiet.mp h
          cases h
  · obtain ⟨-, -, h⟩ := bind_eq_quiet.mp h
    cases h

/-- The placements of the fields of a layout. -/
theorem placement_of_layout (h : Layout py spec struct fields) {f : Ast.Field} (hf : f ∈ fields) :
    (∃ name, f.placement = (name, false, true, none, -1) ∧ f.array = false) ∨
    (∃ name ignore order, f.placement = (name, ignore, false, none, order)) ∨
    ∃ name ignore outer order, f.placement = (name, ignore, false, some outer, order) ∧
      ∃ c ∈ fields, c.placement = (outer, false, true, none, -1) := by
  obtain ⟨types, structs, own, rfl, htypes, hstructs, hown⟩ := h.parts
  rw [List.mem_append, List.mem_append, List.mem_flatten] at hf
  obtain (hf | ⟨group, hgroup, hf⟩) | hf := hf
  · obtain ⟨_, -, hchained⟩ := exists_of_mem_right htypes hf
    obtain ⟨t, -, ht⟩ := hchained.type
    exact .inl ⟨t.name, ht, array_of_bindChainedType hchained.bound⟩
  · obtain ⟨chained, -, s, merged, -, hmerged, rfl⟩ :=
      exists_of_mem_right hstructs hgroup
    have hmem : chainedStructField struct s chained ∈ types ++ structs.flatten ++ own :=
      List.mem_append_left own (List.mem_append_right types
        (List.mem_flatten.mpr ⟨_, hgroup, List.mem_cons_self⟩))
    obtain rfl | hf := List.mem_cons.mp hf
    · exact .inl ⟨s.name, rfl, rfl⟩
    · obtain ⟨field, -, g, hg, rfl⟩ := exists_of_mem_right hmerged hf
      have hp := hg.placement
      simp only [Ast.Field.placement, Prod.mk.injEq] at hp
      obtain ⟨hname, hignore, hchained, hnone, horder⟩ := hp
      unfold mergedField
      split_ifs
      · refine .inr (.inr ⟨field.name, field.ignore, s.name, field.comparisonOrder, ?_, _, hmem,
          rfl⟩)
        simp only [Ast.Field.placement, hname, hignore, hchained, horder]
      · refine .inr (.inl ⟨field.name, true, field.comparisonOrder, ?_⟩)
        simp only [Ast.Field.placement, hname, hchained, hnone, horder]
  · obtain ⟨field, -, hf⟩ := exists_of_mem_right hown hf
    exact .inr (.inl ⟨_, _, _, hf.placement⟩)

/-- Fields that differ in the comparison order only. -/
def SamePlace (f g : Ast.Field) : Prop :=
  f.name = g.name ∧ f.ignore = g.ignore ∧ f.chained = g.chained ∧
    f.chainedStructField = g.chainedStructField ∧ f.array = g.array

theorem samePlace_of_inComparisonOrder {ordered : List Ast.Field}
    (h : InComparisonOrder struct fields ordered) : List.Forall₂ SamePlace fields ordered := by
  have hrefl : List.Forall₂ SamePlace fields fields :=
    List.forall₂_same.mpr fun _ _ => ⟨rfl, rfl, rfl, rfl, rfl⟩
  unfold InComparisonOrder at h
  split_ifs at h
  · rw [h, List.forall₂_iff_get]
    refine ⟨(List.length_mapIdx ..).symm, fun i _ _ => ?_⟩
    rw [List.get_eq_getElem, List.get_eq_getElem, List.getElem_mapIdx]
    exact ⟨rfl, rfl, rfl, rfl, rfl⟩
  · rw [h.1]
    exact hrefl
  · rw [h]
    exact hrefl

/-- **The binder guarantees `Bound`.** -/
theorem bound_of_laidOut {b : Ast.Struct} (h : b.LaidOut py spec struct) : b.Bound := by
  obtain ⟨hnodup, fields, hlayout, horder⟩ := h
  have hsame := samePlace_of_inComparisonOrder horder
  have hplace : ∀ g ∈ b.fields, ∃ f ∈ fields, SamePlace f g := fun g hg =>
    exists_of_mem_right hsame hg
  refine ⟨hnodup, fun g hg hchained => ?_, fun g hg hchained => ?_, fun g hg outer houter => ?_⟩
  · obtain ⟨f, hf, -, hignore, hc, hnone, -⟩ := hplace g hg
    rw [← hc] at hchained
    rw [← hignore, ← hnone]
    obtain ⟨_, hp, -⟩ | ⟨_, _, _, hp⟩ | ⟨_, _, _, _, hp, -⟩ := placement_of_layout hlayout hf <;>
      simp only [Ast.Field.placement, Prod.mk.injEq] at hp
    · exact ⟨hp.2.1, hp.2.2.2.1⟩
    · rw [hp.2.2.1] at hchained
      cases hchained
    · rw [hp.2.2.1] at hchained
      cases hchained
  · obtain ⟨f, hf, -, -, hc, -, harray⟩ := hplace g hg
    rw [← hc] at hchained
    rw [← harray]
    obtain ⟨_, -, hp⟩ | ⟨_, _, _, hp⟩ | ⟨_, _, _, _, hp, -⟩ := placement_of_layout hlayout hf
    · exact hp
    · simp only [Ast.Field.placement, Prod.mk.injEq] at hp
      rw [hp.2.2.1] at hchained
      cases hchained
    · simp only [Ast.Field.placement, Prod.mk.injEq] at hp
      rw [hp.2.2.1] at hchained
      cases hchained
  · obtain ⟨f, hf, -, -, -, hsome, -⟩ := hplace g hg
    rw [← hsome] at houter
    obtain ⟨_, hp, -⟩ | ⟨_, _, _, hp⟩ | ⟨_, _, _, _, hp, c, hc, hcp⟩ :=
      placement_of_layout hlayout hf <;> simp only [Ast.Field.placement, Prod.mk.injEq] at hp
    · rw [hp.2.2.2.1] at houter
      cases houter
    · rw [hp.2.2.2.1] at houter
      cases houter
    · rw [hp.2.2.2.1] at houter
      cases houter
      simp only [Ast.Field.placement, Prod.mk.injEq] at hcp
      obtain ⟨c', hc', hname, -, hchained, -⟩ := exists_of_mem_right hsame.flip hc
      exact ⟨c', hc', hname ▸ hcp.1, hchained ▸ hcp.2.2.1⟩

theorem commandParameter_of_bindCommandField {c : Command} {f : Ast.Field}
    (h : bindCommandField py spec c = .ok (some f) []) : f.chained = false ∧
      f.chainedStructField = none ∧ f.validator = none ∧ f.name = c.name := by
  unfold bindCommandField at h
  split at h
  · cases h
  · obtain ⟨-, -, h⟩ := bind_eq_quiet.mp h
    split at h
    · obtain ⟨-, -, h⟩ := bind_eq_quiet.mp h
      cases h
    · obtain ⟨-, -, h⟩ := bind_eq_quiet.mp h
      cases h
    · cases h
    · obtain ⟨-, -, h⟩ := bind_eq_quiet.mp h
      cases h
      exact ⟨rfl, rfl, rfl, rfl⟩
    · obtain ⟨-, -, h⟩ := bind_eq_quiet.mp h
      obtain ⟨-, -, h⟩ := bind_eq_quiet.mp h
      cases h
      exact ⟨rfl, rfl, rfl, rfl⟩

theorem not_of_logIf {p : Prop} [Decidable p] {e : ParserError} {u : Unit}
    (h : (logIf p e : Pass Unit) = .ok u []) : ¬ p := by
  intro hp
  rw [logIf, if_pos hp] at h
  cases h

theorem name_of_bindStructCommon {isCommand : Bool} {b : Ast.Struct}
    (h : bindStructCommon py spec isCommand struct = .ok b []) : b.name = struct.name := by
  obtain ⟨-, -, h⟩ := bind_eq_quiet.mp h
  obtain ⟨-, -, h⟩ := bind_eq_quiet.mp h
  obtain ⟨_, -, h⟩ := bind_eq_quiet.mp h
  obtain ⟨_, -, h⟩ := bind_eq_quiet.mp h
  obtain ⟨_, -, h⟩ := bind_eq_quiet.mp h
  obtain ⟨_, -, h⟩ := bind_eq_quiet.mp h
  cases h
  rfl

theorem bound_of_bindStruct {b : Ast.Struct} (h : bindStruct py spec struct = .ok b []) :
    (Ast.Definition.struct b).Bound :=
  ⟨bound_of_laidOut (layout_of_bindStructCommon h), fun _ h => nomatch h⟩

theorem bound_of_bindCommand {c : Command} {b : Ast.Command}
    (h : bindCommand py spec c = .ok b []) : (Ast.Definition.command b).Bound := by
  have hlayout := layout_of_bindCommand h
  obtain ⟨c', hinject, h⟩ := bind_eq_quiet.mp h
  obtain ⟨struct, hstruct, h⟩ := bind_eq_quiet.mp h
  obtain ⟨o, ho, h⟩ := bind_eq_quiet.mp h
  obtain ⟨u, hlog, h⟩ := bind_eq_quiet.mp h
  have hname : c'.name = struct.name := (name_of_bindStructCommon hstruct).symm
  have hnew := not_of_logIf hlog
  cases h
  refine ⟨bound_of_laidOut hlayout, ?_⟩
  rintro f (rfl : o = some f)
  obtain ⟨hchained, hnone, hvalidator, hf⟩ := commandParameter_of_bindCommandField ho
  refine ⟨hchained, hnone, hvalidator, fun hmem => hnew ?_⟩
  obtain ⟨g, hg, hgf⟩ := List.mem_map.mp hmem
  exact List.any_eq_true.mpr ⟨g, hg, decide_eq_true (by rw [hgf, hf, hname])⟩

end Bound

namespace Generator

variable {d : Ast.Definition}

/-- The code of the branches does not depend on what is tracked so far. -/
theorem genFields_fst (fs : List Ast.Field) (checker : Checker)
    (h : ∀ f ∈ fs, f.chained = true → f.ignore = false ∧ f.chainedStructField = none) :
    (genFields fs checker).1 =
      (fs.filter fun f => !f.chained).map fun f => (.nameIs f, fieldBody checker.fast f) := by
  induction fs generalizing checker with
  | nil => rfl
  | cons f fs ih =>
    have hrest := fun checker => ih checker fun g hg => h g (List.mem_cons_of_mem f hg)
    rw [genFields]
    cases hc : f.chained with
    | true =>
      rw [if_pos (by rw [(h f List.mem_cons_self hc).2]; rfl), hrest, List.filter_cons, if_neg]
      rw [hc]
      exact Bool.false_ne_true
    | false =>
      rw [if_neg (by simp), List.filter_cons, if_pos (by rw [hc]; rfl), List.map_cons, genField_eq,
        add_eq]
      exact congrArg _ (hrest _)

theorem genFields_snd (fs : List Ast.Field) (checker : Checker)
    (h : ∀ f ∈ fs, f.chained = true → f.ignore = false ∧ f.chainedStructField = none)
    (hnodup : (fs.map (·.name)).Nodup) (hnew : ∀ f ∈ fs, f ∉ checker.tracked) :
    (genFields fs checker).2 =
      { checker with tracked := checker.tracked ++ fs.filter fun f => !f.chained } := by
  induction fs generalizing checker with
  | nil => simp [genFields]
  | cons f fs ih =>
    rw [List.map_cons, List.nodup_cons] at hnodup
    have hrest := fun checker => ih checker (fun g hg => h g (List.mem_cons_of_mem f hg)) hnodup.2
    rw [genFields]
    cases hc : f.chained with
    | true =>
      rw [if_pos (by rw [(h f List.mem_cons_self hc).2]; rfl), hrest, List.filter_cons, if_neg]
      · rw [hc]
        exact Bool.false_ne_true
      · exact fun g hg => hnew g (List.mem_cons_of_mem f hg)
    | false =>
      rw [if_neg (by simp), List.filter_cons, if_pos (by rw [hc]; rfl), genField_eq, add_eq,
        if_neg (hnew f List.mem_cons_self)]
      refine (hrest _ fun g hg => ?_).trans ?_
      · rw [List.mem_append, List.mem_singleton, not_or]
        refine ⟨hnew g (List.mem_cons_of_mem f hg), ?_⟩
        rintro rfl
        exact hnodup.1 (List.mem_map_of_mem hg)
      · rw [List.append_assoc, List.singleton_append]

/-- The first lines: what keeps track of the fields, and of the command element. -/
def prologue (d : Ast.Definition) : Lines :=
  (getFieldUsageChecker d.toStruct).1 ++ if d.isCommand then .line .declareCommandElement else .nil

/-- The body of the loop over the elements. -/
def loopBody (d : Ast.Definition) : Lines :=
  (if d.isCommand then genFirstField d else .nil) ++
    (({ fast := d.toStruct.strict } : Checker).addStore ++
      (Code.branches true (d.toStruct.own.map fun f => (.nameIs f, fieldBody d.toStruct.strict f)) ++
        genStrictCheck d))

/-- The chained fields, after the loop. -/
def chainedParsers (fs : List Ast.Field) : Lines :=
  fs.foldr (fun f rest => (genFieldDeserializer f .element none).1 ++ rest) .nil

/-- The checks after that, with every field tracked. -/
def finalChecks (d : Ast.Definition) : Lines :=
  ({ fast := d.toStruct.strict, tracked := d.toStruct.own } : Checker).addFinalChecks

theorem getFieldUsageChecker_snd (struct : Ast.Struct) :
    (getFieldUsageChecker struct).2 = { fast := struct.strict } := by
  unfold getFieldUsageChecker
  cases struct.strict <;> rfl

/-- **The parts of the deserializer.** -/
theorem genBsonDeserializerMethods_eq (h : d.toStruct.Bound) :
    genBsonDeserializerMethods d = prologue d ++ (.block (.loop .bsonObject) (loopBody d)
      (chainedParsers d.toStruct.parsedAfter ++ (finalChecks d ++ genCommandDeserializer d))) := by
  have hfst := genFields_fst d.toStruct.fields { fast := d.toStruct.strict } h.chained
  have hsnd := genFields_snd d.toStruct.fields { fast := d.toStruct.strict } h.chained h.nodup
    fun _ _ => List.not_mem_nil
  have hbody : (genLoop d { fast := d.toStruct.strict }).1 =
      .wrap (.loop .bsonObject) (loopBody d) := by
    show Code.wrap _ (_ ++ (_ ++ (Code.branches true (genFields _ _).1 ++ _))) = _
    rw [hfst]
    rfl
  have hchecks : (genLoop d { fast := d.toStruct.strict }).2.addFinalChecks = finalChecks d := by
    show (genFields _ _).2.addFinalChecks = _
    rw [hsnd]
    rfl
  show (_ ++ (_ ++ ((genLoop d (getFieldUsageChecker d.toStruct).2).1 ++ _))) ++
    ((genLoop d (getFieldUsageChecker d.toStruct).2).2.addFinalChecks ++ _) = _
  rw [getFieldUsageChecker_snd, hbody, hchecks, prologue]
  simp only [Code.append_assoc]
  rfl

end Generator

end MongoTests.Idl
