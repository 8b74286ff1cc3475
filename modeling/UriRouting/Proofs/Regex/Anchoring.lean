import UriRouting.Proofs.Regex.Framing
import UriRouting.Pattern

/-!
# Anchored patterns

The anchored form of a pattern that compiles compiles as well. It is the tree of the pattern between
the two assertions, with the same groups under the same numbers.
-/

namespace UriRouting

open scoped CodeUnit

namespace Regex

/-- The root of the anchored form of a pattern. -/
def Node.anchored (root : Node) : Node :=
  .sequence [.assertion .start, root, .assertion .finish]

/-- The anchors that are put around a pattern. -/
def Frame.anchors : Frame where
  front := "^(?:"
  back := "$"
  opening := [.assertion .start, .openGroup .plain]
  closing := [.assertion .finish]
  level := Level.start.pushFixed (.assertion .start)
  closed root :=
    ((Level.start.pushFixed (.assertion .start)).pushAtom root).pushFixed (.assertion .finish)
  lex_front _ := rfl
  lex_back _ := rfl
  captureNames_opening := rfl
  captureNames_closing := rfl
  read_opening _ := rfl
  read_closing _ _ _ := rfl
  scan_front := rfl
  scan_back depth state := by cases state <;> rfl

/-- The anchored form of a pattern that closes no unopened group is its tree between the anchors, with
the same groups, and compiles exactly if the pattern does. -/
theorem ofSource?_anchored_eq {source : Text}
    (hunopened : Template.closesUnopened 0 false source = false) :
    ofSource? (Pattern.anchored source) =
      (ofSource? source).map fun r => ⟨r.root.anchored, r.groupCount⟩ :=
  Frame.anchors.ofSource?_around hunopened

/-- The anchored form of a pattern is its tree between the anchors, with the same groups. -/
theorem ofSource?_anchored {source : Text} {r : Regex} (h : ofSource? source = some r) :
    ofSource? (Pattern.anchored source) = some ⟨r.root.anchored, r.groupCount⟩ := by
  rw [ofSource?_anchored_eq (closesUnopened_of_ofSource h), h, Option.map_some]

end Regex

end UriRouting
