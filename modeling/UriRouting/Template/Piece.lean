import UriRouting.Text.Basic

/-!
# Pieces of a template

A template is a sequence of literal texts and placeholders. Everything else about it is a function
of the sequence: its normalized form keeps the names and drops the constraints, its source is the
regular expression in which each placeholder is a capturing group, and its counts decide how
specific it is.
-/

namespace UriRouting

open scoped CodeUnit

namespace Template

/-- A placeholder: its name, the constraint written for it, and the number of capturing groups that
the constraint opens. -/
structure Placeholder where
  name : Text
  constraint : Option Text
  groupCount : Nat
  deriving DecidableEq

/-- A literal text or a placeholder. -/
inductive Piece where
  | literal (text : Text)
  | placeholder (p : Placeholder)
  deriving DecidableEq

/-- The constraint of a placeholder that has none of its own: one path segment. -/
def defaultConstraint : Text := ['[', '^', '/', ']', '+']

/-- The units that mean something in a regular expression. -/
def isSpecial (u : CodeUnit) : Bool :=
  u ∈ (['\\', '^', '$', '.', '*', '+', '?', '(', ')', '[', ']', '{', '}', '|'] : Text)

/-- The regular expression that matches a literal text. -/
def escapeLiteral (text : Text) : Text :=
  text.flatMap fun u => if isSpecial u then ['\\', u] else [u]

/-- The constraint that a placeholder is matched with. -/
def Placeholder.pattern (p : Placeholder) : Text := p.constraint.getD defaultConstraint

namespace Piece

/-- The piece without its constraint. -/
def normalized : Piece → Text
  | literal text => text
  | placeholder p => (['{'] : Text) ++ p.name ++ (['}'] : Text)

/-- The regular expression of a piece. -/
def source : Piece → Text
  | literal text => escapeLiteral text
  | placeholder p => "(" ++ p.pattern ++ ")"

/-- The placeholder name of each capturing group of a piece; groups of a constraint have none. -/
def groupNames : Piece → List (Option Text)
  | literal _ => []
  | placeholder p => some p.name :: List.replicate p.groupCount none

/-- The name of a placeholder. -/
def name? : Piece → Option Text
  | literal _ => none
  | placeholder p => some p.name

/-- Whether a piece is a placeholder with a constraint of its own. -/
def isConstrained : Piece → Bool
  | literal _ => false
  | placeholder p => p.constraint.isSome

/-- The literal text of a piece. -/
def literalText : Piece → Text
  | literal text => text
  | placeholder _ => []

end Piece

/-- A template that has been read: its text and its pieces. -/
structure Outline where
  text : Text
  pieces : List Piece
  deriving DecidableEq

namespace Outline

/-- The outline of no template. -/
def none : Outline := ⟨[], []⟩

/-- The template without its constraints. -/
def normalized (o : Outline) : Text := o.pieces.flatMap Piece.normalized

/-- The regular expression of the template, unanchored. -/
def source (o : Outline) : Text := o.pieces.flatMap Piece.source

/-- The placeholder name of each capturing group of the source, in group order. -/
def groupNames (o : Outline) : List (Option Text) := o.pieces.flatMap Piece.groupNames

/-- The distinct placeholder names in order of first occurrence. -/
def names (o : Outline) : List Text := (o.pieces.filterMap Piece.name?).eraseDups

/-- The number of placeholders with a constraint of their own. -/
def explicitConstraints (o : Outline) : Nat := o.pieces.countP Piece.isConstrained

/-- The number of literal units. -/
def literalCharacters (o : Outline) : Nat := (o.pieces.flatMap Piece.literalText).length

end Outline

end Template

end UriRouting
