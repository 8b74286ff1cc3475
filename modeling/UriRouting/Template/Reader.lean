import UriRouting.Json.Value
import UriRouting.Regex.Reader
import UriRouting.Template.Error
import UriRouting.Template.Piece

/-!
# Reading templates

`Outline.parse` reads a template. A placeholder reaches from an opening brace to the closing brace
that balances it, where a backslash takes the unit after it out of account; its name ends at the
first colon, and what follows is its constraint. Blanks around both are dropped. A constraint has to
be an expression by itself: it may not close a group that it did not open.

The reader goes over the template once, so the first fault from the left is the one reported; that
the whole expression compiles is checked last.
-/

namespace UriRouting

open scoped CodeUnit

namespace Template

/-- A unit of a placeholder name after the first. -/
def isNameUnit (u : CodeUnit) : Bool := CodeUnit.isWord u || u = '.' || u = '-'

/-- Whether a text is a placeholder name. -/
def isName : Text → Bool
  | [] => false
  | u :: rest => CodeUnit.isWord u && rest.all isNameUnit

/-- Whether a constraint closes a group that it did not open, with so many groups open and possibly
inside a class. -/
def closesUnopened (depth : Nat) (inClass : Bool) : Text → Bool
  | [] => false
  | u :: rest =>
    if u = '\\' then
      match rest with
      | [] => false
      | _ :: rest => closesUnopened depth inClass rest
    else if inClass then closesUnopened depth (u ≠ ']') rest
    else if u = '[' then closesUnopened depth true rest
    else if u = '(' then closesUnopened (depth + 1) false rest
    else if u = ')' then
      match depth with
      | 0 => true
      | depth + 1 => closesUnopened depth false rest
    else closesUnopened depth false rest

/-- The number of capturing groups of a constraint, if it compiles inside a group. -/
def constraintGroups? (constraint : Text) : Option Nat :=
  (Regex.ofSource? ("(?:" ++ constraint ++ ")|")).map Regex.groupCount

/-- A unit that ends no name: any but a colon. -/
def isNotColon (u : CodeUnit) : Bool := u ≠ ':'

/-- The name written in the body of a placeholder. -/
def bodyName (body : Text) : Text := Text.trim (body.takeWhile isNotColon)

/-- The constraint written in the body of a placeholder; it is empty if there is none. -/
def bodyConstraint (body : Text) : Text := Text.trim ((body.dropWhile isNotColon).drop 1)

/-- Read the body of a placeholder. -/
def readPlaceholder (template body : Text) : Except Error Placeholder :=
  let name := bodyName body
  let constraint := bodyConstraint body
  if ¬ isName name then .error (.invalidName name template)
  else if constraint = [] then .ok ⟨name, none, 0⟩
  else if closesUnopened 0 false constraint then .error (.leakingConstraint name template)
  else
    match constraintGroups? constraint with
    | none => .error (.invalidConstraint name template)
    | some groupCount => .ok ⟨name, some constraint, groupCount⟩

/-- Where the reader stands. Collected units are kept latest first; inside a placeholder the
position of its opening brace and the number of further open braces are known. -/
inductive ReadState where
  | literal (units : Text)
  | body (start depth : Nat) (units : Text)
  | bodyBackslash (start depth : Nat) (units : Text)

/-- The literal piece of collected units, unless there are none. -/
def literalPiece (units : Text) : List Piece :=
  if units = [] then [] else [.literal units.reverse]

/-- Read the unit at a position. -/
def readStep (template : Text) (position : Nat) (state : ReadState) (u : CodeUnit) :
    Except Error (List Piece × ReadState) :=
  match state with
  | .literal units =>
    if u = '{' then .ok (literalPiece units, .body position 0 [])
    else .ok ([], .literal (u :: units))
  | .body start depth units =>
    if u = '\\' then .ok ([], .bodyBackslash start depth (u :: units))
    else if u = '{' then .ok ([], .body start (depth + 1) (u :: units))
    else if u = '}' then
      match depth with
      | 0 => (readPlaceholder template units.reverse).map fun p => ([.placeholder p], .literal [])
      | depth + 1 => .ok ([], .body start depth (u :: units))
    else .ok ([], .body start depth (u :: units))
  | .bodyBackslash start depth units => .ok ([], .body start depth (u :: units))

/-- The pieces that end with the template; it cannot end inside a placeholder. -/
def readEnd (template : Text) : ReadState → Except Error (List Piece)
  | .literal units => .ok (literalPiece units)
  | .body start _ _ => .error (.unclosed start template)
  | .bodyBackslash start _ _ => .error (.unclosed start template)

/-- The pieces of a template, read from a position and a state on. -/
def readFrom (template : Text) : Nat → ReadState → Text → Except Error (List Piece)
  | _, state, [] => readEnd template state
  | position, state, u :: rest =>
    match readStep template position state u with
    | .error e => .error e
    | .ok (out, next) => (readFrom template (position + 1) next rest).map (out ++ ·)

namespace Outline

/-- Read a template. -/
def parse (template : Text) : Except Error Outline :=
  if template = [] then .error .empty
  else
    match readFrom template 0 (.literal []) template with
    | .error e => .error e
    | .ok pieces =>
      let outline : Outline := ⟨template, pieces⟩
      if (Regex.ofSource? outline.source).isSome then .ok outline
      else .error (.invalidTemplate template)

/-- Read a template that is handed over as a value; only a text can be one. -/
def ofValue (value : Json.Value) : Except Error Outline :=
  match value with
  | .text template => parse template
  | _ => .error .empty

end Outline

end Template

end UriRouting
