import UriRouting.Text.Basic
import UriRouting.Text.Identifier

/-!
# Names of groups

A group name is an identifier, which the first closing angle bracket ends. Its characters, and the
bracket too, may be written with the escapes `\uXXXX`, where two halves of a surrogate pair name one
character, and `\u{X}` with any number of digits. The reader goes over the units once and remembers
the escape or the pair it is in the middle of.
-/

namespace UriRouting

open scoped CodeUnit

namespace Regex

/-- The character of a code point, if it is a Unicode scalar value. -/
def scalar? (n : Nat) : Option Char := if n.isValidChar then some (Char.ofNat n) else none

/-- Where the reader of a name stands; the digits of an escape are kept in order. -/
inductive NameState where
  | plain
  /-- After the high half of a pair. -/
  | half (high : CodeUnit)
  | backslash
  /-- After the letter of an escape. -/
  | escape
  | braces (digits : Text)
  /-- In an escape of four digits, for the low half of a pair if a high half came before it. -/
  | digits (high : Option CodeUnit) (digits : Text)
  /-- After an escaped high half. -/
  | escapedHalf (high : CodeUnit)
  | escapedHalfBackslash (high : CodeUnit)
  deriving DecidableEq

/-- Judge the four digits of an escape. -/
def endDigits (high : Option CodeUnit) (digits : Text) : Option (Option Char × NameState) :=
  let u := CodeUnit.ofHexadecimal digits
  match high with
  | some high =>
    if CodeUnit.isLowSurrogate u then some (some (Text.pairChar high u), .plain) else none
  | none =>
    if CodeUnit.isHighSurrogate u then some (none, .escapedHalf u)
    else (scalar? u.toNat).map fun c => (some c, .plain)

/-- Read one unit of a name: the character it completes and the next state. -/
def nameStep (state : NameState) (u : CodeUnit) : Option (Option Char × NameState) :=
  match state with
  | .plain =>
    if u = '\\' then some (none, .backslash)
    else if CodeUnit.isHighSurrogate u then some (none, .half u)
    else (scalar? u.toNat).map fun c => (some c, .plain)
  | .half high =>
    if CodeUnit.isLowSurrogate u then some (some (Text.pairChar high u), .plain) else none
  | .backslash => if u = 'u' then some (none, .escape) else none
  | .escape =>
    if u = '{' then some (none, .braces [])
    else if CodeUnit.isHexDigit u then some (none, .digits none [u])
    else none
  | .braces digits =>
    if CodeUnit.isHexDigit u then some (none, .braces (digits ++ [u]))
    else if u = '}' ∧ digits ≠ [] then
      (scalar? (CodeUnit.hexadecimal digits)).map fun c => (some c, .plain)
    else none
  | .digits high digits =>
    if CodeUnit.isHexDigit u then
      if digits.length = 3 then endDigits high (digits ++ [u])
      else some (none, .digits high (digits ++ [u]))
    else none
  | .escapedHalf high => if u = '\\' then some (none, .escapedHalfBackslash high) else none
  | .escapedHalfBackslash high => if u = 'u' then some (none, .digits (some high) []) else none

/-- The name that some characters spell, if they are an identifier. -/
def identifier? : List Char → Option (List Char)
  | [] => none
  | c :: rest =>
    if Identifier.isStart c && rest.all Identifier.isContinue then some (c :: rest) else none

end Regex

end UriRouting
