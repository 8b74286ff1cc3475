import UriRouting.Number.Shortest

/-!
# Errors of templates

The ways in which a template is refused, a compiled pattern is refused, or a template is used
wrongly, each with its report. Where the cause is an expression that does not compile, the report
ends with a fixed mark in place of a description of the fault in the expression.
-/

namespace UriRouting

namespace Template

/-- Why a template or its use is refused. -/
inductive Error where
  /-- The template is no text, or the empty one. -/
  | empty
  /-- The placeholder that begins at the position has no end. -/
  | unclosed (index : Nat) (template : Text)
  /-- The name of a placeholder is no name. -/
  | invalidName (name template : Text)
  /-- A constraint closes a group that it did not open. -/
  | leakingConstraint (name template : Text)
  /-- A constraint does not compile. -/
  | invalidConstraint (name template : Text)
  /-- The expression generated from a template does not compile. -/
  | invalidTemplate (template : Text)
  /-- The anchored form of an expression does not compile. -/
  | invalidPattern (source : Text)
  /-- A match has nowhere to put its results. -/
  | noContainer
  /-- The range between two numbers is not a range of a list of the given length. -/
  | rangeOutside (first last : Number) (length : Nat)

namespace Error

/-- The mark that stands for the description of a fault in an expression. -/
def expressionFault : Text := "<engine>"

/-- The report of an error. -/
def message : Error → Text
  | empty => "Template must be a non-empty string"
  | unclosed index template =>
    "Unclosed placeholder at index " ++ Text.ofNat index ++ " in \"" ++ template ++ "\""
  | invalidName name template =>
    "Invalid placeholder name \"" ++ name ++ "\" in \"" ++ template ++ "\""
  | leakingConstraint name template =>
    "Constraint for placeholder \"" ++ name ++ "\" in \"" ++ template ++
      "\" closes a group it did not open"
  | invalidConstraint name template =>
    "Invalid constraint for placeholder \"" ++ name ++ "\" in \"" ++ template ++ "\": " ++
      expressionFault
  | invalidTemplate template =>
    "Template \"" ++ template ++ "\" does not compile: " ++ expressionFault
  | invalidPattern source =>
    "Pattern \"" ++ source ++ "\" does not compile: " ++ expressionFault
  | noContainer => "match() needs an output container"
  | rangeOutside first last length =>
    "Range [" ++ first.toText ++ ", " ++ last.toText ++ ") is outside a list of " ++
      Text.ofNat length ++ " values"

/-- The text of which an expression does not compile, if that is the cause. -/
def expression? : Error → Option Text
  | leakingConstraint _ template => some template
  | invalidConstraint _ template => some template
  | invalidTemplate template => some template
  | invalidPattern source => some source
  | _ => none

end Error

end Template

end UriRouting
