import MongoTests.Idl.Ast

/-!
# The errors of the binder

The methods `add_…` of `ParserContext` that the binder calls, with their locations and texts. Those
about a type or a field say which of the two it is (`kind`), and its name.
-/

namespace MongoTests.Idl

/-! ## Types -/

section Types

variable (loc : SourceLocation) (kind name : String)

def missingAstRequiredFieldError (attr : String) : ParserError :=
  ⟨"ID0012", kind ++ " '" ++ name ++ "' is missing required scalar '" ++ attr ++ "'", loc⟩

def arrayNotValidError : ParserError :=
  ⟨"ID0011", "The " ++ kind ++ " '" ++ name ++ "' cannot be named 'array'", loc⟩

def badBsonTypeError (bsonType : String) : ParserError :=
  ⟨"ID0013", "BSON Type '" ++ bsonType ++ "' is not recognized for " ++ kind ++ " '" ++ name ++
    "'.", loc⟩

def badBsonScalarTypeError (bsonType : String) : ParserError :=
  ⟨"ID0014", "BSON Type '" ++ bsonType ++ "' is not a scalar bson type for " ++ kind ++ " '" ++
    name ++ "' and cannot be used in a list of bson serialization types.", loc⟩

def badBsonBindataSubtypeError (bsonType : String) : ParserError :=
  ⟨"ID0015", "The bindata_subtype field for " ++ kind ++ " '" ++ name ++
    "' is not valid for bson type '" ++ bsonType ++ "'", loc⟩

def badBsonBindataSubtypeValueError (value : String) : ParserError :=
  ⟨"ID0016", "The bindata_subtype field's value '" ++ value ++ "' for " ++ kind ++ " '" ++ name ++
    "' is not valid", loc⟩

def noStringDataError : ParserError :=
  ⟨"ID0017", "Do not use mongo::StringData for " ++ kind ++ " '" ++ name ++
    "', use std::string instead", loc⟩

def notCustomScalarSerializationNotSupportedError (bsonType : String) : ParserError :=
  ⟨"ID0020", "Custom serialization for a scalar is only supported for 'string'. The " ++ kind ++
    " '" ++ name ++ "' cannot use bson type '" ++ bsonType ++
    "', use a bson_serialization_type of 'any' instead.", loc⟩

def badAnyTypeUseError (bsonType : String) : ParserError :=
  ⟨"ID0021", "The BSON Type '" ++ bsonType ++
    "' is not allowed in a list of bson serialization types for" ++ kind ++ " '" ++ name ++
    "'. It must be only a single bson type.", loc⟩

def badCppNumericTypeUseError (cppType : String) : ParserError :=
  ⟨"ID0022", "The C++ numeric type '" ++ cppType ++ "' is not allowed for " ++ kind ++ " '" ++ name ++
    "'. Only 'std::int32_t', 'std::uint32_t', 'std::uint64_t', and 'std::int64_t' are supported.",
    loc⟩

def bindataNoDefaultError : ParserError :=
  ⟨"ID0026", "Default values are not allowed for " ++ kind ++ " '" ++ name ++ "'", loc⟩

end Types

/-! ## Fields -/

section Fields

variable (loc : SourceLocation) (name : String)

def ignoredFieldMustBeEmptyError (attr : String) : ParserError :=
  ⟨"ID0018", "Field '" ++ name ++ "' cannot contain a value for property '" ++ attr ++
    "' when a field is marked as ignored", loc⟩

def structFieldMustBeEmptyError (attr : String) : ParserError :=
  ⟨"ID0019", "Field '" ++ name ++ "' cannot contain a value for property '" ++ attr ++
    "' when a field's type is a struct", loc⟩

def arrayNoDefaultError : ParserError :=
  ⟨"ID0024", "Field '" ++ name ++
    "' is not allowed to have both a default value and be an array type", loc⟩

def arrayEnumError : ParserError :=
  ⟨"ID0035", "Field '" ++ name ++ "' cannot be an array of enums", loc⟩

def badCommandAsFieldError : ParserError :=
  ⟨"ID0042", "Command '" ++ name ++ "' cannot be used as a field type'. " ++
    "Commands must be top-level types due to their serialization rules.", loc⟩

def badArrayOfChainError : ParserError :=
  ⟨"ID0043", "Field '" ++ name ++ "' cannot be an array of chained types", loc⟩

def badFieldDefaultAndOptionalError : ParserError :=
  ⟨"ID0044", "Field '" ++ name ++
    "' can only be marked as optional or have a default value, not both.", loc⟩

def badStructFieldAsDocSequenceError (structName : String) : ParserError :=
  ⟨"ID0045", "Field '" ++ name ++ "' in struct '" ++ structName ++ "' cannot be used as a " ++
    "Command Document Sequence type. They are only supported in commands.", loc⟩

def badNonArrayAsDocSequenceError (structName : String) : ParserError :=
  ⟨"ID0046", "Field '" ++ name ++ "' in command '" ++ structName ++ "' cannot be used as a " ++
    "Command Document Sequence type since it is not an array.", loc⟩

def badNonObjectAsDocSequenceError : ParserError :=
  ⟨"ID0047", "Field '" ++ name ++ "' cannot be used as a Command Document Sequence type since it " ++
    "is not a BSON object or struct.", loc⟩

def badFieldNonConstGetterInImmutableStructError (structName : String) : ParserError :=
  ⟨"ID0069", "Cannot generate a non-const getter for field '" ++ name ++ "' in struct '" ++
    structName ++ "' since struct '" ++ structName ++ "' is marked as immutable.", loc⟩

/-- The value is printed as its location. -/
def valueNotNumericError (value : SourceLocation) : ParserError :=
  ⟨"ID0053", "'" ++ name ++ "' requires a numeric value, but " ++ value.str ++ " can not be cast", loc⟩

end Fields

/-! ## Structs, commands and enumerations -/

section Structs

variable (loc : SourceLocation) (name : String)

def chainedTypeNotFoundError : ParserError :=
  ⟨"ID0027", "Type '" ++ name ++ "' is not a valid chained type", loc⟩

def chainedTypeWrongTypeError (bsonType : String) : ParserError :=
  ⟨"ID0028", "Chained Type '" ++ name ++ "' has the wrong bson serialization type '" ++ bsonType ++
    "', only'chain' is supported for chained types.", loc⟩

def duplicateFieldError (fieldName : String) (duplicate : SourceLocation) : ParserError :=
  ⟨"ID0029", "Chained Struct or Type '" ++ name ++ "' duplicates an existing field '" ++ fieldName ++
    "' at location'" ++ duplicate.str ++ "'.", loc⟩

def chainedTypeNoStrictError : ParserError :=
  ⟨"ID0030", "Strict IDL parser validation is not supported with chained types for struct '" ++ name ++
    "'. Specify 'strict: false' for this struct.", loc⟩

def chainedStructNotFoundError : ParserError :=
  ⟨"ID0031", "Type '" ++ name ++ "' is not a valid chained struct", loc⟩

def chainedNestedStructNoStrictError (chainedName : String) : ParserError :=
  ⟨"ID0032", "Strict IDL parser validation is not supported for a chained struct '" ++ chainedName ++
    "' contained by struct '" ++ name ++ "'. Specify 'strict: false' for this struct.", loc⟩

def chainedNestedStructNoNestedError (chainedName : String) : ParserError :=
  ⟨"ID0033", "Struct '" ++ name ++ "' is not allowed to nest struct '" ++ chainedName ++
    "' since it has chained structs and/or types.", loc⟩

def enumBadTypeError (type : Option String) : ParserError :=
  ⟨"ID0036", "Enum '" ++ name ++ "' type '" ++ type.getD "None" ++
    "' is not a supported enum type", loc⟩

def enumValueNotIntError (value message : String) : ParserError :=
  ⟨"ID0037", "Enum '" ++ name ++ "' value '" ++ value ++ "' is not an integer, exception '" ++
    message ++ "'", loc⟩

def enumValueNotUniqueError : ParserError :=
  ⟨"ID0038", "Enum '" ++ name ++ "' has duplicate values, all values must be unique", loc⟩

def enumNonContinuousRangeError : ParserError :=
  ⟨"ID0039", "Enum '" ++ name ++ "' has non-continuous integer variables, enums must have a " ++
    "continuous range of integer variables.", loc⟩

def badCommandNameDuplicatesFieldError : ParserError :=
  ⟨"ID0048", "Command '" ++ name ++ "' cannot have the same name as a field.", loc⟩

def duplicateComparisonOrderFieldError (comparisonOrder : Int) : ParserError :=
  ⟨"ID0051", "Struct '" ++ name ++ "' cannot have two fields with the same comparison_order value '" ++
    toString comparisonOrder ++ "'.", loc⟩

end Structs

/-! ## Server parameters and configuration options -/

section Options

variable (loc : SourceLocation)

def badSetatSpecifierError (specifier : String) : ParserError :=
  ⟨"ID0057", "Unexpected set_at specifier: '" ++ specifier ++
    "', expected 'startup' or 'runtime'", loc⟩

def badSourceSpecifierError (value : String) : ParserError :=
  ⟨"ID0058", "'" ++ value ++ "' is not a valid source specifier", loc⟩

def badDuplicateBehaviorError (value : String) : ParserError :=
  ⟨"ID0059", "'" ++ value ++ "' is not a valid duplicate behavior specifier", loc⟩

def badNumericRangeError (attr value : String) : ParserError :=
  ⟨"ID0060", "'" ++ value ++ "' is not a valid numeric range for '" ++ attr ++ "'", loc⟩

def missingShortnameForPositionalArgError : ParserError :=
  ⟨"ID0061", "Missing 'short_name' for positional arg", loc⟩

def invalidShortNameError (name : String) : ParserError :=
  ⟨"ID0062", "Invalid 'short_name' value '" ++ name ++ "'", loc⟩

def invalidSingleNameError (name : String) : ParserError :=
  ⟨"ID0063", "Invalid 'single_name' value '" ++ name ++ "'", loc⟩

def missingShortNameWithSingleNameError (name : String) : ParserError :=
  ⟨"ID0064", "Missing 'short_name' required with 'single_name' value '" ++ name ++ "'", loc⟩

def serverParameterInvalidAttrError (attr conflicts : String) : ParserError :=
  ⟨"ID0066", "'" ++ attr ++ "' attribute not permitted with '" ++ conflicts ++
    "' server parameter", loc⟩

def serverParameterRequiredAttrError (attr required : String) : ParserError :=
  ⟨"ID0067", "'" ++ attr ++ "' attribute required with '" ++ required ++
    "' server parameter", loc⟩

end Options

end MongoTests.Idl
