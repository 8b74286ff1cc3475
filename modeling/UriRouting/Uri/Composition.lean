import UriRouting.Template.Substitution
import UriRouting.Uri.Values

/-!
# Composing a URI from component templates

`Components.steps` lays out a URI: separators and component templates in rendering order. The
authority is used only if user information, host and port are all absent; empty user information,
ports, queries and fragments are left out with their separators. `compose` renders the steps from
left to right with one source of values. Values of scheme and port are inserted as given, those of
the other components are encoded for them; literal text is never encoded.
-/

namespace UriRouting

open scoped CodeUnit

namespace Uri

/-- The templates of the components of a URI. -/
structure Components where
  scheme : Option Text
  authority : Option Text
  userInfo : Option Text
  host : Option Text
  port : Option Text
  path : Option Text
  query : Option Text
  fragment : Option Text

/-- A separator, or a template whose values are encoded for a component. -/
inductive Step where
  | separator (text : Text)
  | component (template : Text) (kind : Option Component)

/-- The steps of a template that may be absent. -/
def ifPresent (template : Option Text) (steps : Text → List Step) : List Step :=
  match template with
  | none => []
  | some t => steps t

/-- The steps of a template that may be absent or empty. -/
def ifNonEmpty (template : Option Text) (steps : Text → List Step) : List Step :=
  ifPresent template fun t => if t = [] then [] else steps t

namespace Components

/-- Whether user information, host or port is given. -/
def hasHostPart (c : Components) : Bool := c.userInfo.isSome || c.host.isSome || c.port.isSome

/-- The authority of a URI in its parts. -/
def hostSteps (c : Components) : List Step :=
  .separator "//" ::
    (ifNonEmpty c.userInfo fun t => [.component t (some .userInfo), .separator "@"]) ++
    (ifPresent c.host fun t => [.component t (some .host)]) ++
    (ifNonEmpty c.port fun t => [.separator ":", .component t none])

/-- The authority of a URI: in its parts if one of them is given, else as a whole. -/
def authoritySteps (c : Components) : List Step :=
  if c.hasHostPart then c.hostSteps
  else ifPresent c.authority fun t => [.separator "//", .component t (some .authority)]

/-- The separators and templates of a URI in rendering order. -/
def steps (c : Components) : List Step :=
  (ifPresent c.scheme fun t => [.component t none, .separator ":"]) ++
    c.authoritySteps ++
    (ifPresent c.path fun t => [.component t (some .path)]) ++
    (ifNonEmpty c.query fun t => [.separator "?", .component t (some .queryParam)]) ++
    (ifNonEmpty c.fragment fun t => [.separator "#", .component t (some .fragment)])

end Components

/-- Render a template; one without an opening brace is taken as it is. -/
def renderTemplate (template : Text) (resolve : Text → Resolution Text) : Resolution Text :=
  if ('{' : CodeUnit) ∈ template then
    match Template.Outline.parse template with
    | .error e => throw (.template e)
    | .ok outline => Template.substitute resolve outline.normalized
  else pure template

/-- Render a step. -/
def Step.render (values : Values) (mode : Mode) : Step → Resolution Text
  | separator text => pure text
  | component template kind => renderTemplate template (values.resolve (encodeFor mode kind))

/-- Render steps from left to right. -/
def renderSteps (values : Values) (mode : Mode) : List Step → Resolution Text
  | [] => pure []
  | step :: rest => do
    let text ← step.render values mode
    let more ← renderSteps values mode rest
    pure (text ++ more)

/-- Compose a URI. -/
def compose (components : Components) (values : Values) (mode : Mode) : Except Error Text :=
  ((renderSteps values mode components.steps).run values.supply).map Prod.fst

end Uri

end UriRouting
