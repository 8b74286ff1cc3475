import UriRouting.Text.Basic

/-!
# The components of a URI

Each kind of component has a set of ASCII characters that may stand in it as they are. The sets grow
from unreserved characters over host, user information and authority to path and query; a path
segment, a matrix parameter and a query parameter leave out the characters that separate them from
their neighbours.
-/

namespace UriRouting

/-- The kinds of URI component that have an encoding of their own. -/
inductive Component where
  | scheme
  | userInfo
  | host
  | port
  | authority
  | path
  | pathSegment
  | matrixParam
  | query
  | queryParam
  | fragment
  deriving DecidableEq

namespace Component

/-- A letter, a digit, or one of the four marks that never need encoding. -/
def isUnreserved (c : Char) : Bool := c.isAlphanum || c ∈ ['-', '.', '_', '~']

/-- A sub-delimiter. -/
def isSubDelimiter (c : Char) : Bool :=
  c ∈ ['!', '$', '&', '\'', '(', ')', '*', '+', ',', ';', '=']

/-- A character of a host. -/
def isHostChar (c : Char) : Bool := isUnreserved c || isSubDelimiter c

/-- A character of an authority: of a host, a colon or an at sign. -/
def isAuthorityChar (c : Char) : Bool := isHostChar c || c = ':' || c = '@'

/-- A character of a query or fragment: of an authority, a slash or a question mark. -/
def isQueryChar (c : Char) : Bool := isAuthorityChar c || c = '/' || c = '?'

/-- Whether a character may stand unencoded in a component. -/
def allows : Component → Char → Bool
  | scheme, c => c.isAlphanum || c ∈ ['+', '-', '.']
  | port, c => c.isDigit
  | host, c => isHostChar c
  | userInfo, c => isHostChar c || c = ':'
  | authority, c => isAuthorityChar c
  | pathSegment, c => isAuthorityChar c && c ≠ ';'
  | matrixParam, c => isAuthorityChar c && c ≠ ';' && c ≠ '='
  | path, c => isAuthorityChar c || c = '/'
  | query, c => isQueryChar c
  | queryParam, c => isQueryChar c && c ≠ '=' && c ≠ '&' && c ≠ '+'
  | fragment, c => isQueryChar c

end Component

end UriRouting
