import UriRouting.Regex.Token

/-!
# Expressions

The tree of a regular expression. Sequences and alternatives are binary, so that every notion on
expressions is a recursion over ten constructors. Capturing groups carry their number; a back
reference names the group whose text it repeats.
-/

namespace UriRouting

namespace Regex

/-- An expression. -/
inductive Node where
  | empty
  | unit (u : CodeUnit)
  | set (s : UnitSet)
  | assertion (a : Assertion)
  | backReference (group : Nat)
  | group (index : Nat) (body : Node)
  | look (direction : Direction) (negated : Bool) (body : Node)
  | repetition (q : Quantifier) (body : Node)
  | seq (first second : Node)
  | alt (first second : Node)
  deriving DecidableEq

namespace Node

/-- The terms one after the other. -/
def sequence (terms : List Node) : Node := terms.foldr seq empty

/-- The numbers of the capturing groups of an expression, in the order of their openings. -/
def groups : Node → List Nat
  | group index body => index :: body.groups
  | look _ _ body => body.groups
  | repetition _ body => body.groups
  | seq first second => first.groups ++ second.groups
  | alt first second => first.groups ++ second.groups
  | _ => []

end Node

end Regex

/-- A regular expression: its tree and the number of its capturing groups. -/
structure Regex where
  root : Regex.Node
  groupCount : Nat

end UriRouting
