import UriRouting.Template.Basic

/-!
# Specificity of templates

The more specific of two templates has more constraints of its own, else more literal units, else
fewer placeholders, and at last the lesser source. Templates with the same source are equally
specific, whatever their counts.
-/

namespace UriRouting

namespace Template

/-- Compare two texts unit by unit: `-1`, `0` or `1`. -/
def compareText (s t : Text) : Int := if s < t then -1 else if t < s then 1 else 0

/-- The first number that is not zero. -/
def firstNonzero (x y : Int) : Int := if x ≠ 0 then x else y

/-- Compare the counts of two templates, and then their sources. -/
def compareKeys (a b : Template) : Int :=
  let constraints (t : Template) : Int := t.outline.explicitConstraints
  let literals (t : Template) : Int := t.outline.literalCharacters
  let names (t : Template) : Int := t.placeholders.length
  firstNonzero (constraints b - constraints a) <|
    firstNonzero (literals b - literals a) <|
      firstNonzero (names a - names b) (compareText a.pattern.source b.pattern.source)

/-- Compare two templates: negative if the first is more specific, positive if the second is, and
zero if they are the same. -/
def compareSpecificity (a b : Template) : Int := if a.sameAs b then 0 else compareKeys a b

end Template

end UriRouting
