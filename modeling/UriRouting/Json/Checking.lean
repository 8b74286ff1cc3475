import UriRouting.Json.Schema

/-!
# A validator

`check` is one validator that keeps the laws of `Validator.Lawful`, so that there is one; whatever is
said of lawful validators rests on the laws alone. It visits a value in the order of the schema: the
required properties of an object come first, then the optional ones, and last the names that do not
belong, in the order in which the names of an object are visited.
-/

namespace UriRouting

namespace Json

/-- A violation in a part of a value, as one of the whole. -/
def Violation.within (instancePath schemaPath : List Text) (v : Violation) : Violation :=
  ⟨instancePath ++ v.instancePath, schemaPath ++ v.schemaPath⟩

/-- Whether a value is of a type. -/
def ScalarType.admits : ScalarType → Value → Bool
  | uint8, .number n => n.toNat?.any (· < 256)
  | string, .text _ => true
  | _, _ => false

namespace Schema

/-- The violations of the elements of an array from an index on. -/
def elementViolations (violations : Value → List Violation) (index : Nat) :
    List Value → List Violation
  | [] => []
  | item :: rest =>
    (violations item).map (Violation.within [Text.ofNat index] ["elements"]) ++
      elementViolations violations (index + 1) rest

/-- The names of an object that are neither expected nor inherited are violations. -/
def strangerViolations (expected : List Text) (fields : Entries Text Value) : List Violation :=
  ((fieldOrder fields.names).filter fun name => name ∉ expected ∧ name ∉ inheritedNames).map
    fun name => ⟨[name], []⟩

mutual

/-- The violations of a value. -/
def violations : Schema → Value → List Violation
  | type t, value => if t.admits value then [] else [⟨[], ["type"]⟩]
  | elements schema, .array items => elementViolations schema.violations 0 items
  | elements _, _ => [⟨[], ["elements"]⟩]
  | properties required optional, .object fields =>
    propertyViolations "properties" true required fields ++
      propertyViolations "optionalProperties" false optional fields ++
      strangerViolations (required.map Prod.fst ++ optional.map Prod.fst) fields
  | properties _ _, _ => [⟨[], ["properties"]⟩]

/-- The violations of some properties, which stand under a form of the schema. One that is absent is a
violation if the properties are mandatory. -/
def propertyViolations (form : Text) (mandatory : Bool) :
    List (Text × Schema) → Entries Text Value → List Violation
  | [], _ => []
  | (name, schema) :: rest, fields =>
    (match fields.get? name with
      | none => if mandatory then [⟨[], [form, name]⟩] else []
      | some content => (schema.violations content).map (Violation.within [name] [form, name])) ++
      propertyViolations form mandatory rest fields

end

/-- The first violations of a value, no more than the limits allow. -/
def check : Validator := fun schema value limits =>
  if limits.maxErrors = 0 then schema.violations value
  else (schema.violations value).take limits.maxErrors

end Schema

end Json

end UriRouting
