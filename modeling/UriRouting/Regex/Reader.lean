import UriRouting.Regex.Node

/-!
# Reading regular expressions

`Regex.ofSource?` reads a pattern. It goes over the lexemes once and keeps the groups that are still
open on a stack; each level collects the finished alternatives and the terms of the current one.
What happens on a level does not depend on the levels outside it.

A numeric escape is a back reference if the whole pattern has so many groups, and else the legacy
octal escape or the digits themselves. `\k` is a reference only if the pattern names a group.
-/

namespace UriRouting

namespace Regex

/-- What has been read of one disjunction: its finished alternatives and the terms of the current
one, latest first, and the latest term while a quantifier may still follow it. -/
structure Level where
  branches : List Node
  terms : List Node
  atom : Option Node

namespace Level

/-- A disjunction of which nothing has been read. -/
def start : Level := ⟨[], [], none⟩

/-- The terms of the current alternative, latest first. -/
def allTerms (l : Level) : List Node := l.atom.toList ++ l.terms

/-- Add a term that a quantifier may follow. -/
def pushAtom (l : Level) (n : Node) : Level := { l with terms := l.allTerms, atom := some n }

/-- Add units that stand for themselves; a quantifier may follow the last one. -/
def pushUnits (l : Level) (us : Text) : Level := us.foldl (fun l u => l.pushAtom (.unit u)) l

@[simp] theorem pushUnits_nil (l : Level) : l.pushUnits [] = l := rfl

@[simp] theorem pushUnits_cons (l : Level) (u : CodeUnit) (us : Text) :
    l.pushUnits (u :: us) = (l.pushAtom (.unit u)).pushUnits us := rfl

/-- Add a term that no quantifier may follow. -/
def pushFixed (l : Level) (n : Node) : Level := { l with terms := n :: l.allTerms, atom := none }

/-- The current alternative. -/
def branch (l : Level) : Node := Node.sequence l.allTerms.reverse

/-- Finish the current alternative. -/
def newBranch (l : Level) : Level := ⟨l.branch :: l.branches, [], none⟩

/-- The whole disjunction. -/
def node (l : Level) : Node := l.branches.foldl (fun rest branch => .alt branch rest) l.branch

end Level

/-- An open group. -/
inductive OpenGroup where
  | plain
  | capture (index : Nat)
  | look (direction : Direction) (negated : Bool)

/-- What has been read of a pattern: the innermost level, the open groups with the levels around
them, innermost first, and how many capturing groups have been opened. -/
structure ReadState where
  level : Level
  outer : List (OpenGroup × Level)
  opened : Nat

/-- The names of the capturing groups that lexemes open, in order; most groups have none. -/
def captureNames (tokens : List Token) : List (Option (List Char)) :=
  tokens.filterMap fun
    | .openGroup (.capture name) => some name
    | _ => none

/-- Continue an octal escape: at most three digits, and a third only below `\40`. -/
def octalUnits (value count : Nat) : Text → Text
  | [] => [UInt16.ofNat value]
  | u :: rest =>
    if CodeUnit.isOctalDigit u ∧ (count = 1 ∨ (count = 2 ∧ value < 32)) then
      octalUnits (8 * value + CodeUnit.digitValue u) (count + 1) rest
    else UInt16.ofNat value :: u :: rest

/-- The units of a numeric escape that is no back reference. -/
def legacyUnits : Text → Text
  | [] => []
  | u :: rest =>
    if CodeUnit.isOctalDigit u then octalUnits (CodeUnit.digitValue u) 1 rest else u :: rest

/-- The group that a numeric escape refers to in a pattern with the given number of groups. -/
def backReference? (groupCount : Nat) (digits : Text) : Option Nat :=
  let n := CodeUnit.decimal digits
  if digits.head? ≠ some 0x30 ∧ n ≤ groupCount then some n else none

/-- Open a group; a capturing group takes the next number. -/
def openStep (state : ReadState) (opening : Opening) : ReadState :=
  let enter (g : OpenGroup) (opened : Nat) : ReadState :=
    ⟨.start, (g, state.level) :: state.outer, opened⟩
  match opening with
  | .plain => enter .plain state.opened
  | .capture _ => enter (.capture (state.opened + 1)) (state.opened + 1)
  | .look direction negated => enter (.look direction negated) state.opened

/-- Add a closed group to the level around it. A lookbehind takes no quantifier. -/
def OpenGroup.close (outer : Level) (body : Node) : OpenGroup → Level
  | plain => outer.pushAtom body
  | capture index => outer.pushAtom (.group index body)
  | look .forward negated => outer.pushAtom (.look .forward negated body)
  | look .backward negated => outer.pushFixed (.look .backward negated body)

/-- Whether the bounds of a quantifier are in order. -/
def Quantifier.inOrder (q : Quantifier) : Bool :=
  match q.max with
  | none => true
  | some max => q.min ≤ max

/-- Read one lexeme of a pattern whose capturing groups have the given names. -/
def readStep (names : List (Option (List Char))) (state : ReadState) : Token → Option ReadState
  | .unit u => some { state with level := state.level.pushAtom (.unit u) }
  | .set s => some { state with level := state.level.pushAtom (.set s) }
  | .assertion a => some { state with level := state.level.pushFixed (.assertion a) }
  | .decimal digits =>
    match backReference? names.length digits with
    | some n => some { state with level := state.level.pushAtom (.backReference n) }
    | none => some { state with level := state.level.pushUnits (legacyUnits digits) }
  | .reference name =>
    match names.idxOf? (some name) with
    | some i => some { state with level := state.level.pushAtom (.backReference (i + 1)) }
    | none => none
  | .openGroup opening => some (openStep state opening)
  | .close =>
    match state.outer with
    | [] => none
    | (g, level) :: outer => some ⟨g.close level state.level.node, outer, state.opened⟩
  | .bar => some { state with level := state.level.newBranch }
  | .quantifier q =>
    match state.level.atom with
    | none => none
    | some n =>
      if q.inOrder then
        some { state with level := { state.level with atom := none }.pushFixed (.repetition q n) }
      else none

/-- The tree of the lexemes of a pattern; group names must differ from each other. -/
def ofTokens? (tokens : List Token) : Option Regex := do
  let names := captureNames tokens
  guard (names.filterMap id).Nodup
  let state ← tokens.foldlM (readStep names) ⟨.start, [], 0⟩
  match state.outer with
  | [] => some ⟨state.level.node, names.length⟩
  | _ :: _ => none

/-- The lexemes of a pattern, in which `\k` is a reference if a group has a name. -/
def tokensOf? (source : Text) : Option (List Token) := do
  let tokens ← lex false source
  if (captureNames tokens).any Option.isSome then lex true source else some tokens

/-- The regular expression that a pattern describes, if it is well-formed. -/
def ofSource? (source : Text) : Option Regex := tokensOf? source >>= ofTokens?

end Regex

end UriRouting
