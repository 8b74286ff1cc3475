import UriRouting.Entries
import UriRouting.Number.Shortest

/-!
# Values of a JSON document

A value is what a JSON document or a caller hands over. `Value.toText` is the text that stands for a
value where a text is wanted: an array is the texts of its elements between commas, where a null
element is empty, and an object has one text for all. `fieldOrder` is the order in which the names
of an object are visited: array indexes first, by number, then the other names as they were written.
-/

namespace UriRouting

namespace Json

/-- A JSON value. -/
inductive Value where
  | null
  | bool (b : Bool)
  | number (n : Number)
  | text (t : Text)
  | array (items : List Value)
  | object (fields : List (Text × Value))

namespace Value

mutual

/-- The text that stands for a value. -/
def toText : Value → Text
  | null => "null"
  | bool b => if b then "true" else "false"
  | number n => n.toText
  | text t => t
  | array items => Text.joinWith "," (elementTexts items)
  | object _ => "[object Object]"

/-- The texts of the elements of an array; a null element is empty. -/
def elementTexts : List Value → List Text
  | [] => []
  | null :: rest => [] :: elementTexts rest
  | value :: rest => value.toText :: elementTexts rest

end

mutual

/-- The names of the objects in a value, however deep they stand. -/
def names : Value → List Text
  | array items => itemNames items
  | object fields => fieldNames fields
  | _ => []

/-- The names of the objects in the elements of an array. -/
def itemNames : List Value → List Text
  | [] => []
  | item :: rest => item.names ++ itemNames rest

/-- The names of the fields of an object, and of the objects in the fields. -/
def fieldNames : List (Text × Value) → List Text
  | [] => []
  | (name, value) :: rest => name :: (value.names ++ fieldNames rest)

end

/-- The fields of an object. -/
def fields? : Value → Option (Entries Text Value)
  | object fields => some fields
  | _ => none

/-- The value of a field of an object. -/
def field? (value : Value) (name : Text) : Option Value :=
  value.fields?.bind (Entries.get? name)

/-- A field of an object is what stands under its name. -/
@[simp] theorem field?_object (name : Text) (fields : Entries Text Value) :
    (object fields).field? name = fields.get? name :=
  rfl

/-- The names in an element of an array are names in the array. -/
theorem names_subset_of_mem {item : Value} {items : List Value} (h : item ∈ items) :
    item.names ⊆ (array items).names := by
  rw [names]
  induction h with
  | head => exact List.subset_append_left ..
  | tail _ _ ih => exact List.subset_append_of_subset_right _ ih

/-- The names in the content of a field are names in the fields. -/
theorem names_subset_of_get? {name : Text} {content : Value} {fields : Entries Text Value}
    (h : fields.get? name = some content) : content.names ⊆ fieldNames fields := by
  induction fields with
  | nil => cases h
  | cons field rest ih =>
    rw [fieldNames]
    apply List.subset_cons_of_subset
    rw [Entries.get?] at h
    split at h
    · obtain rfl := Option.some.inj h
      exact List.subset_append_left ..
    · exact List.subset_append_of_subset_right _ (ih h)

/-- The names in a field of an object are names in the object. -/
theorem names_subset_of_field? {value content : Value} {name : Text}
    (h : value.field? name = some content) : content.names ⊆ value.names := by
  obtain ⟨fields, hfields, hget⟩ := Option.bind_eq_some_iff.1 h
  cases value with
  | object own =>
    obtain rfl := Option.some.inj hfields
    rw [names]
    exact names_subset_of_get? hget
  | _ => cases hfields

/-- The text of a text value. -/
def text? : Value → Option Text
  | text t => some t
  | _ => none

end Value

/-- The names that every object inherits. -/
def inheritedNames : List Text :=
  ["toString", "constructor", "valueOf", "hasOwnProperty", "isPrototypeOf",
    "propertyIsEnumerable", "toLocaleString", "__proto__", "__defineGetter__",
    "__defineSetter__", "__lookupGetter__", "__lookupSetter__"]

/-- An object whose names are the expected ones or inherited. -/
def Value.NamedWithin (expected : List Text) (value : Value) : Prop :=
  ∃ fields, value = .object fields ∧
    ∀ name ∈ Entries.names fields, name ∈ expected ∨ name ∈ inheritedNames

/-- Of an object it is the names that decide. -/
@[simp] theorem Value.namedWithin_object {expected : List Text} {fields : Entries Text Value} :
    NamedWithin expected (.object fields) ↔
      ∀ name ∈ fields.names, name ∈ expected ∨ name ∈ inheritedNames := by
  simp [NamedWithin]

/-- The first number that is no array index, `2 ^ 32 - 1`. -/
def arrayIndexLimit : Nat := 4294967295

/-- The number that a name spells as an array index in canonical decimal digits. -/
def arrayIndex? (name : Text) : Option Nat :=
  let n := CodeUnit.decimal name
  if name.all CodeUnit.isDigit ∧ name = Text.ofNat n ∧ n < arrayIndexLimit then some n else none

/-- The order in which the names of an object are visited. -/
def fieldOrder (names : List Text) : List Text :=
  let index (name : Text) : Nat := (arrayIndex? name).getD 0
  let (indexes, others) := names.partition fun name => (arrayIndex? name).isSome
  indexes.mergeSort (fun a b => index a ≤ index b) ++ others

end Json

end UriRouting
