import UriRouting.Json.Value

/-!
# Lexemes of JSON

The lexer reads a text one unit at a time and remembers the lexeme it is in the middle of. Inside a
string it unfolds escapes, half surrogates included; a run of the units of numbers and words is
collected and judged when it ends.
-/

namespace UriRouting

open scoped CodeUnit

namespace Json

/-- A lexeme: a bracket, a separator or a value without parts. -/
inductive Token where
  | openArray
  | closeArray
  | openObject
  | closeObject
  | colon
  | comma
  | scalar (v : Value)

/-- The fraction of a number: its digits and what follows them. -/
def fraction? : Text → Option (Text × Text)
  | [] => some ([], [])
  | u :: rest =>
    if u = '.' then
      match rest.takeWhile CodeUnit.isDigit with
      | [] => none
      | digits => some (digits, rest.dropWhile CodeUnit.isDigit)
    else some ([], u :: rest)

/-- The exponent that ends a number. -/
def exponent? : Text → Option Int
  | [] => some 0
  | u :: rest =>
    if u = 'e' ∨ u = 'E' then
      let (negative, digits) : Bool × Text :=
        match rest with
        | [] => (false, [])
        | s :: digits =>
          if s = '-' then (true, digits) else if s = '+' then (false, digits) else (false, rest)
      if digits = [] ∨ ¬ digits.all CodeUnit.isDigit then none
      else some (if negative then -CodeUnit.decimal digits else CodeUnit.decimal digits)
    else none

/-- The number that a text without a sign spells. -/
def unsigned? (negative : Bool) (t : Text) : Option Number := do
  let whole := t.takeWhile CodeUnit.isDigit
  guard (whole ≠ [] ∧ (whole.head? ≠ some ('0' : CodeUnit) ∨ whole.length = 1))
  let (digits, rest) ← fraction? (t.dropWhile CodeUnit.isDigit)
  let exponent ← exponent? rest
  some (Number.ofDecimal negative (CodeUnit.decimal (whole ++ digits)) (exponent - digits.length))

/-- The number that a text spells. -/
def number? : Text → Option Number
  | [] => none
  | u :: rest => if u = '-' then unsigned? true rest else unsigned? false (u :: rest)

/-- The value that a word or a number spells. -/
def word? (t : Text) : Option Value :=
  if t = Text.ofString "null" then some .null
  else if t = Text.ofString "true" then some (.bool true)
  else if t = Text.ofString "false" then some (.bool false)
  else (number? t).map .number

/-- Where the lexer stands; what has been read of a lexeme is kept latest first. -/
inductive LexState where
  | between
  | word (units : Text)
  | string (units : Text)
  | escape (units : Text)
  | hex (units : Text) (digits : Text)

/-- White space between lexemes. -/
def isSpace (u : CodeUnit) : Bool := u = 0x20 || u = 0x09 || u = 0x0A || u = 0x0D

/-- A unit of a number or a word. -/
def isWordUnit (u : CodeUnit) : Bool :=
  CodeUnit.isLetter u || CodeUnit.isDigit u || u = '-' || u = '+' || u = '.'

/-- Read a unit between lexemes. -/
def stepBetween (u : CodeUnit) : Option (List Token × LexState) :=
  if u = '"' then some ([], .string [])
  else if u = '[' then some ([.openArray], .between)
  else if u = ']' then some ([.closeArray], .between)
  else if u = '{' then some ([.openObject], .between)
  else if u = '}' then some ([.closeObject], .between)
  else if u = ':' then some ([.colon], .between)
  else if u = ',' then some ([.comma], .between)
  else if isSpace u then some ([], .between)
  else if isWordUnit u then some ([], .word [u])
  else none

/-- The unit of a one-letter escape. -/
def escapeUnit? (u : CodeUnit) : Option CodeUnit :=
  if u = '"' ∨ u = '\\' ∨ u = '/' then some u
  else if u = 'b' then some 0x08
  else if u = 'f' then some 0x0C
  else if u = 'n' then some 0x0A
  else if u = 'r' then some 0x0D
  else if u = 't' then some 0x09
  else none

/-- Read one unit. -/
def lexStep (state : LexState) (u : CodeUnit) : Option (List Token × LexState) :=
  match state with
  | .between => stepBetween u
  | .word units =>
    if isWordUnit u then some ([], .word (u :: units))
    else do
      let value ← word? units.reverse
      let (out, next) ← stepBetween u
      some (.scalar value :: out, next)
  | .string units =>
    if u = '"' then some ([.scalar (.text units.reverse)], .between)
    else if u = '\\' then some ([], .escape units)
    else if u < 0x20 then none
    else some ([], .string (u :: units))
  | .escape units =>
    if u = 'u' then some ([], .hex units [])
    else (escapeUnit? u).map fun v => ([], .string (v :: units))
  | .hex units digits =>
    if CodeUnit.isHexDigit u then
      if digits.length = 3 then
        some ([], .string (CodeUnit.ofHexadecimal (u :: digits).reverse :: units))
      else some ([], .hex units (u :: digits))
    else none

/-- The lexemes that end with the text. -/
def lexEnd : LexState → Option (List Token)
  | .between => some []
  | .word units => (word? units.reverse).map fun value => [.scalar value]
  | _ => none

/-- The lexemes of a text, read from a state on, after those read before, latest first. -/
def lexFrom (state : LexState) (done : List Token) : Text → Option (List Token)
  | [] => (lexEnd state).map fun last => done.reverse ++ last
  | u :: rest =>
    match lexStep state u with
    | none => none
    | some (out, next) => lexFrom next (out.reverse ++ done) rest

/-- The lexemes of a text. -/
def lex (t : Text) : Option (List Token) := lexFrom .between [] t

end Json

end UriRouting
