import UriRouting.Regex.ClassBody
import UriRouting.Regex.GroupName

/-!
# Lexemes of regular expressions

The lexer reads a pattern one unit at a time and remembers the lexeme it is in the middle of. No
lexeme is looked for twice: where a bounded repetition or a numeric escape turns out malformed, the
units read so far stand for themselves and the current unit is read as if nothing had come before
it. So the lexemes of `s ++ t` are those of `s` up to its last state and those of `t` from there.

Whether `\k` begins a reference to a named group depends on the whole pattern, so it is a parameter.
-/

namespace UriRouting

open scoped CodeUnit

namespace Regex

/-- A condition on a position. -/
inductive Assertion where
  | start
  | finish
  | boundary
  | noBoundary
  deriving DecidableEq

/-- The side of a position that a match extends to. -/
inductive Direction where
  | forward
  | backward
  deriving DecidableEq

/-- What an opening parenthesis opens. -/
inductive Opening where
  | plain
  | capture (name : Option (List Char))
  | look (direction : Direction) (negated : Bool)
  deriving DecidableEq

/-- How often something is repeated, and whether more is tried before less. -/
structure Quantifier where
  min : Nat
  max : Option Nat
  greedy : Bool
  deriving DecidableEq

/-- A lexeme of a pattern. -/
inductive Token where
  | unit (u : CodeUnit)
  | set (s : UnitSet)
  | assertion (a : Assertion)
  /-- A backslash and the decimal digits after it. -/
  | decimal (digits : Text)
  | reference (name : List Char)
  | openGroup (opening : Opening)
  | close
  | bar
  | quantifier (q : Quantifier)
  deriving DecidableEq

/-- What a name in angle brackets is for. -/
inductive NameUse where
  | capture
  | reference
  deriving DecidableEq

/-- Where the lexer stands. Collected units are kept latest first. -/
inductive LexState where
  | plain
  | backslash
  /-- After `\c`. -/
  | control
  /-- After `\x` or `\u`, which want the given number of digits. -/
  | hex (letter : CodeUnit) (wanted : Nat) (digits : Text)
  | decimal (digits : Text)
  /-- After `\k` where groups have names. -/
  | reference
  /-- In a name, with the characters read so far. -/
  | name (use : NameUse) (read : List Char) (state : NameState)
  /-- After an opening parenthesis, with a question mark, and with an angle bracket. -/
  | group
  | groupMark
  | groupAngle
  /-- After an opening brace, with the digits and commas behind it. -/
  | braces (written : Text)
  /-- After a quantifier, which a question mark can make lazy. -/
  | quantified (min : Nat) (max : Option Nat)
  /-- Inside a class, and behind a backslash there. -/
  | inClass (body : Text)
  | inClassBackslash (body : Text)
  deriving DecidableEq

/-- The greatest bound of a repetition, `2 ^ 31 - 1`. -/
def greatestBound : Nat := 2147483647

/-- The bound of a repetition; bounds from the greatest one on are not told apart. -/
def bound (digits : Text) : Nat :=
  Nat.min (CodeUnit.decimal digits) greatestBound

/-- An upper bound; the greatest one is no bound. -/
def upperBound (digits : Text) : Option Nat :=
  if bound digits = greatestBound then none else some (bound digits)

/-- The bounds written between braces: `n`, `n,` or `n,m`. -/
def bounds? (written : Text) : Option (Nat × Option Nat) :=
  let least := written.takeWhile CodeUnit.isDigit
  if least = [] then none
  else
    match written.dropWhile CodeUnit.isDigit with
    | [] => some (bound least, upperBound least)
    | _ :: most =>
      if most = [] then some (bound least, none)
      else if most.all CodeUnit.isDigit then some (bound least, upperBound most)
      else none

/-- The lexemes of units that stand for themselves. -/
def units (us : Text) : List Token := us.map .unit

/-- Read a unit where a lexeme begins. -/
def plainStep (u : CodeUnit) : List Token × LexState :=
  if u = '\\' then ([], .backslash)
  else if u = '(' then ([], .group)
  else if u = ')' then ([.close], .plain)
  else if u = '|' then ([.bar], .plain)
  else if u = '[' then ([], .inClass [])
  else if u = '^' then ([.assertion .start], .plain)
  else if u = '$' then ([.assertion .finish], .plain)
  else if u = '.' then ([.set UnitSet.dot], .plain)
  else if u = '*' then ([], .quantified 0 none)
  else if u = '+' then ([], .quantified 1 none)
  else if u = '?' then ([], .quantified 0 (some 1))
  else if u = '{' then ([], .braces [])
  else ([.unit u], .plain)

/-- Emit lexemes that end before a unit, and read the unit where a lexeme begins. -/
def flush (before : List Token) (u : CodeUnit) : Option (List Token × LexState) :=
  let (out, next) := plainStep u
  some (before ++ out, next)

/-- Read the unit behind a backslash. -/
def backslashStep (named : Bool) (u : CodeUnit) : List Token × LexState :=
  match kindOfLetter? u with
  | some (k, negated) => ([.set (UnitSet.ofKind k negated)], .plain)
  | none =>
    if CodeUnit.isDigit u then ([], .decimal [u])
    else if u = 'b' then ([.assertion .boundary], .plain)
    else if u = 'B' then ([.assertion .noBoundary], .plain)
    else if u = 'c' then ([], .control)
    else if u = 'x' then ([], .hex u 2 [])
    else if u = 'u' then ([], .hex u 4 [])
    else if u = 'k' ∧ named then ([], .reference)
    else ([.unit ((controlOfLetter? u).getD u)], .plain)

/-- The lexeme of a name in angle brackets. -/
def nameToken : NameUse → List Char → Token
  | .capture, name => .openGroup (.capture (some name))
  | .reference, name => .reference name

/-- Read one unit of a name, which a closing angle bracket ends. -/
def lexName (use : NameUse) (read : List Char) (state : NameState) (u : CodeUnit) :
    Option (List Token × LexState) :=
  match nameStep state u with
  | none => none
  | some (none, next) => some ([], .name use read next)
  | some (some c, next) =>
    if c = '>' then (identifier? read.reverse).map fun name => ([nameToken use name], .plain)
    else some ([], .name use (c :: read) next)

/-- Read one unit. -/
def lexStep (named : Bool) (state : LexState) (u : CodeUnit) : Option (List Token × LexState) :=
  match state with
  | .plain => flush [] u
  | .backslash => some (backslashStep named u)
  | .control =>
    if CodeUnit.isLetter u then some ([.unit (controlUnit u)], .plain)
    else flush (units ['\\', 'c']) u
  | .hex letter wanted digits =>
    if CodeUnit.isHexDigit u then
      if digits.length + 1 = wanted then
        some ([.unit (CodeUnit.ofHexadecimal (u :: digits).reverse)], .plain)
      else some ([], .hex letter wanted (u :: digits))
    else flush (units (letter :: digits.reverse)) u
  | .decimal digits =>
    if CodeUnit.isDigit u then some ([], .decimal (u :: digits))
    else flush [.decimal digits.reverse] u
  | .reference => if u = '<' then some ([], .name .reference [] .plain) else none
  | .name use read state => lexName use read state u
  | .group =>
    if u = '?' then some ([], .groupMark) else flush [.openGroup (.capture none)] u
  | .groupMark =>
    if u = ':' then some ([.openGroup .plain], .plain)
    else if u = '=' then some ([.openGroup (.look .forward false)], .plain)
    else if u = '!' then some ([.openGroup (.look .forward true)], .plain)
    else if u = '<' then some ([], .groupAngle)
    else none
  | .groupAngle =>
    if u = '=' then some ([.openGroup (.look .backward false)], .plain)
    else if u = '!' then some ([.openGroup (.look .backward true)], .plain)
    else lexName .capture [] .plain u
  | .braces written =>
    if CodeUnit.isDigit u ∨ u = ',' then some ([], .braces (u :: written))
    else if u = '}' then
      match bounds? written.reverse with
      | some (min, max) => some ([], .quantified min max)
      | none => flush (units ('{' :: written.reverse)) u
    else flush (units ('{' :: written.reverse)) u
  | .quantified min max =>
    if u = '?' then some ([.quantifier ⟨min, max, false⟩], .plain)
    else flush [.quantifier ⟨min, max, true⟩] u
  | .inClass body =>
    if u = ']' then (UnitSet.ofBody? named body.reverse).map fun s => ([.set s], .plain)
    else if u = '\\' then some ([], .inClassBackslash (u :: body))
    else some ([], .inClass (u :: body))
  | .inClassBackslash body => some ([], .inClass (u :: body))

/-- The lexemes that end with the pattern; a pattern cannot end inside the others. -/
def lexEnd : LexState → Option (List Token)
  | .plain => some []
  | .control => some (units ['\\', 'c'])
  | .hex letter _ digits => some (units (letter :: digits.reverse))
  | .decimal digits => some [.decimal digits.reverse]
  | .group => some [.openGroup (.capture none)]
  | .braces written => some (units ('{' :: written.reverse))
  | .quantified min max => some [.quantifier ⟨min, max, true⟩]
  | _ => none

/-- The lexemes of a text read from a state on. -/
def lexFrom (named : Bool) : LexState → Text → Option (List Token)
  | state, [] => lexEnd state
  | state, u :: rest =>
    match lexStep named state u with
    | none => none
    | some (out, next) => (lexFrom named next rest).map (out ++ ·)

/-- The lexemes of a pattern. -/
def lex (named : Bool) (pattern : Text) : Option (List Token) := lexFrom named .plain pattern

end Regex

end UriRouting
