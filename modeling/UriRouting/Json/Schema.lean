import UriRouting.Json.Value

/-!
# Schemas and validators

A schema says which values are wanted, and a validator lists where a value departs from a schema:
each violation names a place in the value and the place in the schema that it goes against. The
validator itself belongs to another library, so it is a parameter here, and `Validator.Lawful` is what
is documented of its answers: for each form of a schema, when nothing is listed, and that no more is
listed than the limits allow. The order of what is listed is left open.
-/

namespace UriRouting

namespace Json

/-- A type of values that have no parts. -/
inductive ScalarType where
  /-- The integers below 256. -/
  | uint8
  | string
  deriving DecidableEq

/-- What a value has to be. -/
inductive Schema where
  /-- A value of a type. -/
  | type (type : ScalarType)
  /-- An array all of whose elements are as a schema wants them. -/
  | elements (schema : Schema)
  /-- An object with some properties and possibly some more, and with no others. -/
  | properties (required optional : List (Text × Schema))

/-- How far a validator goes. No more than `maxDepth` references are followed one inside the other,
of which these schemas have none; and validation stops at `maxErrors` violations, where zero sets no
limit. -/
structure Limits where
  maxDepth : Nat
  maxErrors : Nat

/-- A departure from a schema: the path in the value and the path in the schema. -/
structure Violation where
  instancePath : List Text
  schemaPath : List Text
  deriving DecidableEq

/-- A function that lists the violations of a value. -/
abbrev Validator := Schema → Value → Limits → List Violation

namespace Validator

/-- The name that a validator calls to ask an object for its own names. A value that uses the name
for something else cannot be asked, and nothing is known of the answer to it. -/
def queryName : Text := "hasOwnProperty"

/-- What a validator is documented to answer. -/
structure Lawful (validate : Validator) : Prop where
  /-- The texts are the values of the type `string`. -/
  string (value : Value) (limits : Limits) :
    validate (.type .string) value limits = [] ↔ ∃ t, value = .text t
  /-- The integers below 256 are the values of the type `uint8`. -/
  uint8 (value : Value) (limits : Limits) :
    validate (.type .uint8) value limits = [] ↔
      ∃ n k, value = .number n ∧ n.toNat? = some k ∧ k < 256
  /-- Of an array, the elements are validated. -/
  elements (schema : Schema) (value : Value) (limits : Limits) (h : queryName ∉ value.names) :
    validate (.elements schema) value limits = [] ↔
      ∃ items, value = .array items ∧ ∀ item ∈ items, validate schema item limits = []
  /-- Of an object, the required properties are validated, which have to be there, and the optional
  ones that are there. Any other name is a violation unless it is inherited. -/
  properties (required optional : List (Text × Schema)) (value : Value) (limits : Limits)
    (h : queryName ∉ value.names) :
    validate (.properties required optional) value limits = [] ↔
      value.NamedWithin (required.map Prod.fst ++ optional.map Prod.fst) ∧
        (∀ property ∈ required, ∃ content,
          value.field? property.1 = some content ∧ validate property.2 content limits = []) ∧
        ∀ property ∈ optional, ∀ content,
          value.field? property.1 = some content → validate property.2 content limits = []
  /-- No more violations are listed than a limit allows. -/
  bounded (schema : Schema) (value : Value) (limits : Limits) (h : 0 < limits.maxErrors) :
    (validate schema value limits).length ≤ limits.maxErrors

end Validator

end Json

end UriRouting
