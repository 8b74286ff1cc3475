import UriRouting.Json.Token

/-!
# Reading JSON

`Value.ofText?` reads a JSON document. The reader goes over the lexemes once and keeps the arrays and
objects that are still open on a stack. A name that occurs twice in an object keeps its first place
and takes its last value.
-/

namespace UriRouting

namespace Json

/-- An array or object that is still open. An array holds its elements latest first; a field waits
for the value of its name. -/
inductive Frame where
  | array (items : List Value)
  | object (fields : Entries Text Value)
  | field (fields : Entries Text Value) (name : Text)

/-- What the reader expects next, with the open frames, innermost first. -/
inductive ReadState where
  | value (stack : List Frame)
  | firstElement (stack : List Frame)
  | firstName (stack : List Frame)
  | name (stack : List Frame)
  | colon (stack : List Frame)
  | separator (stack : List Frame)
  | finished (v : Value)

/-- Hand a complete value to the innermost open frame. -/
def accept (v : Value) : List Frame → Option ReadState
  | [] => some (.finished v)
  | .array items :: stack => some (.separator (.array (v :: items) :: stack))
  | .field fields name :: stack => some (.separator (.object (fields.insert name v) :: stack))
  | .object _ :: _ => none

/-- Read a lexeme where a value begins. -/
def readValue (stack : List Frame) : Token → Option ReadState
  | .scalar v => accept v stack
  | .openArray => some (.firstElement (.array [] :: stack))
  | .openObject => some (.firstName (.object [] :: stack))
  | _ => none

/-- Read a lexeme where a name begins. -/
def readName : List Frame → Token → Option ReadState
  | .object fields :: stack, .scalar (.text name) => some (.colon (.field fields name :: stack))
  | _, _ => none

/-- Close the innermost frame with a bracket of its kind. -/
def readClose : List Frame → Token → Option ReadState
  | .array items :: stack, .closeArray => accept (.array items.reverse) stack
  | .object fields :: stack, .closeObject => accept (.object fields) stack
  | _, _ => none

/-- Read one lexeme. -/
def readStep : ReadState → Token → Option ReadState
  | .value stack, token => readValue stack token
  | .firstElement stack, .closeArray => readClose stack .closeArray
  | .firstElement stack, token => readValue stack token
  | .firstName stack, .closeObject => readClose stack .closeObject
  | .firstName stack, token => readName stack token
  | .name stack, token => readName stack token
  | .colon stack, .colon => some (.value stack)
  | .colon _, _ => none
  | .separator (.array items :: stack), .comma => some (.value (.array items :: stack))
  | .separator (.object fields :: stack), .comma => some (.name (.object fields :: stack))
  | .separator stack, token => readClose stack token
  | .finished _, _ => none

/-- The value of a JSON document. -/
def Value.ofText? (t : Text) : Option Value := do
  let tokens ← lex t
  match ← tokens.foldlM readStep (.value []) with
  | .finished v => some v
  | _ => none

end Json

end UriRouting
