import UriRouting.Json.Value
import UriRouting.Uri.Error

/-!
# Values of the placeholders of a URI

The values come by name or in a list. A name of a list takes the next value when it is first met, as
the text that the component it is met in encodes it to, and keeps that text in every component after
it. A null value is no value.
-/

namespace UriRouting

namespace Uri

/-- Values by name, or in the order in which names are met. -/
inductive Values where
  | named (entries : Entries Text Json.Value)
  | listed (items : List Json.Value)

/-- Whether only illegal characters or also those of existing escapes are encoded. -/
inductive Mode where
  | strict
  | contextual
  deriving DecidableEq

/-- Encode a value for a component, or insert it as it is where there is none. -/
def encodeFor (mode : Mode) (component : Option Component) (text : Text) : Except Error Text :=
  let encoded : Component → Except Component.EncodingError Text :=
    match mode with
    | .strict => fun k => k.encode text
    | .contextual => fun k => k.contextualEncode text
  match component with
  | none => .ok text
  | some k => (encoded k).mapError .encoding

/-- The texts that the names of a list have taken, and the values that are left. -/
structure Supply where
  assigned : Entries Text Text
  remaining : List Json.Value

/-- A computation that may take values from a list or fail. -/
abbrev Resolution := StateT Supply (Except Error)

/-- The text of a value, encoded; null is no value. -/
def encodedText (encode : Text → Except Error Text) (name : Text) :
    Json.Value → Except Error Text
  | .null => .error (.missingValue name)
  | value => encode value.toText

/-- The encoded text of a name among values by name. -/
def resolveNamed (entries : Entries Text Json.Value) (encode : Text → Except Error Text)
    (name : Text) : Except Error Text :=
  match entries.get? name with
  | none => .error (.missingValue name)
  | some value => encodedText encode name value

/-- The encoded text of a name that takes its value from a list. -/
def resolveListed (encode : Text → Except Error Text) (name : Text) : Resolution Text := fun s =>
  match s.assigned.get? name with
  | some text => .ok (text, s)
  | none =>
    match s.remaining with
    | [] => .error (.missingValue name)
    | value :: rest => do
      let text ← encodedText encode name value
      .ok (text, ⟨s.assigned.insert name text, rest⟩)

namespace Values

/-- The values of a list that no name has taken yet. -/
def supply : Values → Supply
  | named _ => ⟨[], []⟩
  | listed items => ⟨[], items⟩

/-- The encoded text of a name. -/
def resolve (values : Values) (encode : Text → Except Error Text) (name : Text) : Resolution Text :=
  match values with
  | named entries => liftM (resolveNamed entries encode name)
  | listed _ => resolveListed encode name

end Values

end Uri

end UriRouting
