import UriRouting.Text.Unit

/-!
# Texts as sequences of code units

A text is a list of code units. Positions, lengths and order count units, so a code point
above `U+FFFF` counts twice, and half of a surrogate pair that stands alone is an ordinary unit of
the text. `Text.toChars` and `Text.ofChars` pass between texts and lists of Unicode scalar values;
they are inverse to each other on texts without unpaired surrogates.
-/

namespace UriRouting

open scoped CodeUnit

/-- A sequence of 16-bit code units. -/
abbrev Text := List CodeUnit

namespace Text

/-- The one or two units of a character. -/
def unitsOf (c : Char) : Text :=
  if c.toNat < 0x10000 then [UInt16.ofNat c.toNat]
  else
    [UInt16.ofNat (0xD800 + (c.toNat - 0x10000) / 0x400),
      UInt16.ofNat (0xDC00 + (c.toNat - 0x10000) % 0x400)]

/-- The text that a list of characters spells. -/
def ofChars (cs : List Char) : Text := cs.flatMap unitsOf

/-- The text that a string spells. -/
@[coe] def ofString (s : String) : Text := ofChars s.toList

instance : Coe String Text := ⟨ofString⟩

/-- The character that a surrogate pair stands for. -/
def pairChar (high low : CodeUnit) : Char :=
  Char.ofNat (0x10000 + (high.toNat - 0xD800) * 0x400 + (low.toNat - 0xDC00))

/-- The replacement character `U+FFFD`. -/
def replacement : Char := '\uFFFD'

/-- The character of a unit that belongs to no pair; a surrogate has none and is replaced. -/
def unitChar (u : CodeUnit) : Char :=
  if CodeUnit.isSurrogate u then replacement else Char.ofNat u.toNat

/-- Whether two neighbouring units form a surrogate pair. -/
def isPair (high low : CodeUnit) : Bool :=
  CodeUnit.isHighSurrogate high && CodeUnit.isLowSurrogate low

/-- The characters of a text, each unpaired surrogate replaced by `U+FFFD`. -/
def toChars : Text → List Char
  | [] => []
  | [u] => [unitChar u]
  | u :: v :: rest =>
    if isPair u v then pairChar u v :: toChars rest else unitChar u :: toChars (v :: rest)

/-- The position of the first surrogate that belongs to no pair. -/
def firstUnpaired : Text → Option Nat
  | [] => none
  | [u] => if CodeUnit.isSurrogate u then some 0 else none
  | u :: v :: rest =>
    if isPair u v then (firstUnpaired rest).map (· + 2)
    else if CodeUnit.isSurrogate u then some 0
    else (firstUnpaired (v :: rest)).map (· + 1)

/-- Drop the blanks at the end. -/
def trimEnd (t : Text) : Text := (t.reverse.dropWhile CodeUnit.isBlank).reverse

/-- Drop the blanks at both ends. -/
def trim (t : Text) : Text := trimEnd (t.dropWhile CodeUnit.isBlank)

/-- The decimal digits of a natural number. -/
def ofNat (n : Nat) : Text := ofChars (Nat.toDigits 10 n)

/-- The text with a separator between each two neighbours. -/
def joinWith (separator : Text) : List Text → Text
  | [] => []
  | [t] => t
  | t :: rest => t ++ separator ++ joinWith separator rest

end Text

end UriRouting
