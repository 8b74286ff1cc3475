import UriRouting.Pattern
import UriRouting.Template.Substitution

/-!
# Templates

A template is an outline with its compiled pattern. It matches texts, filling in the values of its
placeholders, and it generates texts from values. Two templates are the same when the expressions
generated from them are.
-/

namespace UriRouting

/-- A template that has been read and compiled. -/
structure Template where
  outline : Template.Outline
  pattern : Pattern Text

namespace Template

/-- The template of no text, which matches the empty text alone. -/
def empty : Template := ⟨Outline.none, Pattern.empty⟩

/-- Compile an outline. -/
def ofOutline (outline : Outline) : Except Error Template :=
  if outline.source = [] then .ok ⟨outline, Pattern.empty⟩
  else (Pattern.compile outline.source outline.groupNames).map fun pattern => ⟨outline, pattern⟩

/-- Read and compile a template. -/
def parse (text : Text) : Except Error Template := Outline.parse text >>= ofOutline

/-- Read and compile a template that is handed over as a value. -/
def ofValue (value : Json.Value) : Except Error Template := Outline.ofValue value >>= ofOutline

/-- The text of a template. -/
def text (t : Template) : Text := t.outline.text

/-- The template without its constraints. -/
def normalized (t : Template) : Text := t.outline.normalized

/-- The distinct placeholder names in order of first occurrence. -/
def placeholders (t : Template) : List Text := t.outline.names

/-- Whether a name is the name of a placeholder. -/
def isPlaceholderPresent (t : Template) (name : Text) : Bool := t.placeholders.any (· = name)

/-- Whether the text of a template ends with a slash. -/
def endsWithSlash (t : Template) : Bool := t.text.getLast? = some 0x2F

/-- Templates are the same when their sources are. -/
def sameAs (s t : Template) : Bool := s.pattern.sameAs t.pattern

/-- The hash of the source. -/
def hash (t : Template) : Int := t.pattern.hash

/-- The values of the placeholders if a text matches. -/
def params? (t : Template) (uri : Text) : Option (Entries Text Text) := t.pattern.bindings? uri

/-- Match a text into a container; there has to be one. -/
def fill (t : Template) (uri : Text) :
    Option (Container Text) → Except Error (Bool × Container Text)
  | none => .error .noContainer
  | some container => .ok (t.pattern.fill uri container)

end Template

end UriRouting
