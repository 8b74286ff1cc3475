import UriRouting.Component.Encoding
import UriRouting.Template.Error

/-!
# Errors of URI composition

Composing a URI fails if the template of a component is refused, if a value cannot be encoded, or if
a placeholder has no value.
-/

namespace UriRouting

namespace Uri

/-- Why a URI cannot be composed. -/
inductive Error where
  | template (e : Template.Error)
  | encoding (e : Component.EncodingError)
  | missingValue (name : Text)

/-- The report of an error. -/
def Error.message : Error → Text
  | template e => e.message
  | encoding e => e.message
  | missingValue name => "The template variable \"" ++ name ++ "\" has no value"

end Uri

end UriRouting
