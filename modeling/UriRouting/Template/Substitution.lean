import UriRouting.Template.Reader

/-!
# Filling in a normalized template

`substitute` replaces every `{name}` of a normalized template by what a resolver answers, asking for
one name after the other from left to right. An opening brace that begins no such placeholder stands
for itself, and nothing that the resolver answers is read again.
-/

namespace UriRouting

open scoped CodeUnit

namespace Template

/-- A unit that stands for itself, or a name to be resolved. -/
inductive Segment where
  | unit (u : CodeUnit)
  | hole (name : Text)
  deriving DecidableEq

/-- Where the segmenter stands: in plain text, or behind an opening brace and the start of a name,
which is kept latest first. -/
inductive SegmentState where
  | plain
  | name (units : Text)

/-- Read a unit in plain text. -/
def plainSegment (u : CodeUnit) : List Segment × SegmentState :=
  if u = '{' then ([], .name []) else ([.unit u], .plain)

/-- The segments of an opening brace and a start of a name that end nowhere. -/
def unitSegments (units : Text) : List Segment := .unit '{' :: units.reverse.map .unit

/-- Whether a unit goes on with a start of a name. -/
def continuesName (units : Text) (u : CodeUnit) : Bool :=
  if units = [] then CodeUnit.isWord u else isNameUnit u

/-- Read one unit. -/
def segmentStep (state : SegmentState) (u : CodeUnit) : List Segment × SegmentState :=
  match state with
  | .plain => plainSegment u
  | .name units =>
    if continuesName units u then ([], .name (u :: units))
    else if u = '}' ∧ units ≠ [] then ([.hole units.reverse], .plain)
    else
      let (out, next) := plainSegment u
      (unitSegments units ++ out, next)

/-- The segments of a normalized template, read from a state on. -/
def segmentsFrom : SegmentState → Text → List Segment
  | .plain, [] => []
  | .name units, [] => unitSegments units
  | state, u :: rest =>
    let (out, next) := segmentStep state u
    out ++ segmentsFrom next rest

/-- The segments of a normalized template. -/
def segments (normalized : Text) : List Segment := segmentsFrom .plain normalized

/-- Resolve segments from left to right. -/
def resolveSegments {m : Type → Type} [Monad m] (resolve : Text → m Text) :
    List Segment → m Text
  | [] => pure []
  | .unit u :: rest => do
    let more ← resolveSegments resolve rest
    pure (u :: more)
  | .hole name :: rest => do
    let text ← resolve name
    let more ← resolveSegments resolve rest
    pure (text ++ more)

/-- Replace every placeholder of a normalized template by what a resolver answers. -/
def substitute {m : Type → Type} [Monad m] (resolve : Text → m Text) (normalized : Text) :
    m Text :=
  resolveSegments resolve (segments normalized)

end Template

end UriRouting
