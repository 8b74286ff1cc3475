import UriRouting.Json.Checking
import Mathlib.Data.List.Basic

/-!
# The validator keeps the laws

What `Schema.check` lists of a value is empty exactly if what it lists of the parts is, so the laws
hold form by form (`check_lawful`). They hold of values with any names, since `Schema.check` calls no
function of the value.
-/

namespace UriRouting

namespace Json

/-- Visiting the names of an object neither adds nor loses one. -/
theorem mem_fieldOrder {name : Text} {names : List Text} :
    name ∈ fieldOrder names ↔ name ∈ names := by
  rw [fieldOrder, List.partition_eq_filter_filter]
  by_cases h : (arrayIndex? name).isSome <;> simp [h]

namespace Schema

variable {schema : Schema} {required optional : List (Text × Schema)} {value : Value}
  {fields : Entries Text Value} {limits : Limits}

/-- An array has no violations exactly if its elements have none. -/
theorem elementViolations_eq_nil_iff {violations : Value → List Violation} {index : Nat}
    {items : List Value} :
    elementViolations violations index items = [] ↔ ∀ item ∈ items, violations item = [] := by
  induction items generalizing index with
  | nil => simp [elementViolations]
  | cons item rest ih => simp [elementViolations, ih]

/-- Properties have no violations exactly if those that are there have none and, if they are
mandatory, all are there. -/
theorem propertyViolations_eq_nil_iff {form : Text} {mandatory : Bool}
    {properties : List (Text × Schema)} :
    propertyViolations form mandatory properties fields = [] ↔ ∀ property ∈ properties,
      match fields.get? property.1 with
      | none => mandatory = false
      | some content => property.2.violations content = [] := by
  induction properties with
  | nil => simp [propertyViolations]
  | cons property rest ih =>
    obtain ⟨name, schema⟩ := property
    rw [propertyViolations, List.append_eq_nil_iff, ih, List.forall_mem_cons]
    cases fields.get? name <;> simp

/-- Mandatory properties have no violations exactly if all are there and have none. -/
theorem mandatoryViolations_eq_nil_iff {form : Text} :
    propertyViolations form true required fields = [] ↔ ∀ property ∈ required, ∃ content,
      fields.get? property.1 = some content ∧ property.2.violations content = [] := by
  rw [propertyViolations_eq_nil_iff]
  refine forall₂_congr fun property _ => ?_
  cases fields.get? property.1 <;> simp

/-- Other properties have no violations exactly if those that are there have none. -/
theorem optionalViolations_eq_nil_iff {form : Text} :
    propertyViolations form false optional fields = [] ↔ ∀ property ∈ optional, ∀ content,
      fields.get? property.1 = some content → property.2.violations content = [] := by
  rw [propertyViolations_eq_nil_iff]
  refine forall₂_congr fun property _ => ?_
  cases fields.get? property.1 <;> simp

/-- No name is a violation exactly if each is expected or inherited. -/
theorem strangerViolations_eq_nil_iff {expected : List Text} :
    strangerViolations expected fields = [] ↔
      ∀ name ∈ fields.names, name ∈ expected ∨ name ∈ inheritedNames := by
  simp only [strangerViolations, List.map_eq_nil_iff, List.filter_eq_nil_iff, mem_fieldOrder,
    decide_eq_true_eq, not_and_or, not_not]

/-- The limits leave a violation if there is one. -/
theorem check_eq_nil_iff : check schema value limits = [] ↔ schema.violations value = [] := by
  rw [check]
  split
  · rfl
  · next h => simp [h]

/-- The validator keeps the laws. -/
theorem check_lawful : Validator.Lawful check where
  string value limits := by
    rw [check_eq_nil_iff]
    cases value <;> simp [violations, ScalarType.admits]
  uint8 value limits := by
    rw [check_eq_nil_iff]
    cases value with
    | number n => simp [violations, ScalarType.admits, Option.any_eq_true]
    | _ => simp [violations, ScalarType.admits]
  elements schema value limits _ := by
    simp only [check_eq_nil_iff]
    cases value with
    | array items => simp [violations, elementViolations_eq_nil_iff]
    | _ => simp [violations]
  properties required optional value limits _ := by
    simp only [check_eq_nil_iff]
    cases value with
    | object fields =>
      simp only [violations, List.append_eq_nil_iff, mandatoryViolations_eq_nil_iff,
        optionalViolations_eq_nil_iff, strangerViolations_eq_nil_iff, Value.namedWithin_object,
        Value.field?_object]
      exact and_comm
    | _ => simp [violations, Value.NamedWithin]
  bounded schema value limits h := by
    rw [check, if_neg (Nat.ne_of_gt h)]
    exact List.length_take_le _ _

end Schema

end Json

end UriRouting
