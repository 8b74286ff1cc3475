import UriRouting.Proofs.Template.RoundTrip

/-!
# Filling in the pieces of a template

Filling in a normalized template asks a resolver for the names of the placeholders, one after the other,
and puts the answers in their places (`substitute_eq`), whatever else the resolver does between the
answers. So what a source of values does to a template is what it does to a list of names.
-/

namespace UriRouting

open scoped CodeUnit

namespace Template

section

variable {m : Type → Type} [Monad m] [LawfulMonad m]

/-- Units that stand for themselves are resolved to themselves. -/
theorem resolveSegments_units (resolve : Text → m Text) (text : Text) :
    resolveSegments resolve (text.map .unit) = pure text := by
  induction text with
  | nil => rfl
  | cons u rest ih => rw [List.map_cons, resolveSegments, ih, pure_bind]

/-- Segments are resolved one after the other. -/
theorem resolveSegments_append (resolve : Text → m Text) (a b : List Segment) :
    resolveSegments resolve (a ++ b) =
      resolveSegments resolve a >>= fun text =>
        resolveSegments resolve b >>= fun more => pure (text ++ more) := by
  induction a with
  | nil => simp [resolveSegments]
  | cons segment rest ih =>
    cases segment <;>
      simp only [List.cons_append, resolveSegments, ih, bind_assoc, pure_bind, List.append_assoc]

/-- The text of pieces, with texts in the places of the placeholders. -/
def fillPieces : List Piece → List Text → Text
  | [], _ => []
  | .literal text :: rest, values => text ++ fillPieces rest values
  | .placeholder _ :: rest, [] => fillPieces rest []
  | .placeholder _ :: rest, value :: values => value ++ fillPieces rest values

/-- Resolving the placeholders of pieces asks for their names in order and puts the answers in their
places. -/
theorem resolveSegments_pieces (resolve : Text → m Text) (pieces : List Piece) :
    resolveSegments resolve (pieces.flatMap Piece.segments) =
      fillPieces pieces <$> (pieces.filterMap Piece.name?).mapM resolve := by
  induction pieces with
  | nil => simp [resolveSegments, fillPieces]
  | cons piece rest ih =>
    rw [List.flatMap_cons, resolveSegments_append, ih]
    cases piece with
    | literal text =>
      simp only [Piece.segments, resolveSegments_units, pure_bind, List.filterMap_cons, Piece.name?,
        map_eq_pure_bind, bind_assoc, fillPieces]
    | placeholder p =>
      simp only [Piece.segments, resolveSegments, pure_bind, bind_assoc, List.append_nil,
        List.filterMap_cons, Piece.name?, List.mapM_cons, map_eq_pure_bind, fillPieces]

/-- Filling in what pieces are normalized to asks for the names of the placeholders in order and puts the
answers in their places. -/
theorem substitute_pieces {pieces : List Piece}
    (hliteral : ∀ text, .literal text ∈ pieces → ('{' : CodeUnit) ∉ text)
    (hname : ∀ p, .placeholder p ∈ pieces → isName p.name = true) (resolve : Text → m Text) :
    substitute resolve (pieces.flatMap Piece.normalized) =
      fillPieces pieces <$> (pieces.filterMap Piece.name?).mapM resolve := by
  rw [substitute, segments_normalized hliteral hname, resolveSegments_pieces]

/-- So it is with the normalized form of what has been read. -/
theorem substitute_eq {o : Outline} (h : o.Sound) (resolve : Text → m Text) :
    substitute resolve o.normalized =
      fillPieces o.pieces <$> (o.pieces.filterMap Piece.name?).mapM resolve :=
  substitute_pieces (fun text htext => (h.literal text htext).2)
    (fun p hp => (h.placeholder p hp).name) resolve

end

/-- Generating puts the values of the names in their places. -/
theorem generate_eq_fillPieces {t : Template} (h : t.outline.Sound)
    (values : Entries Text (Option Text)) :
    t.generate values = fillPieces t.outline.pieces
      ((t.outline.pieces.filterMap Piece.name?).map (valueOrEmpty values)) := by
  rw [generate, normalized, substitute_eq h, List.mapM_pure]
  rfl

end Template

end UriRouting
