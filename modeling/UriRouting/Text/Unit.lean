/-!
# Code units

A code unit is a 16-bit word. Below `U+10000` a unit is a code point; two surrogate units in a row,
a high one and a low one, stand for one code point above it. This module holds the classes of units
that the rest of the library asks about: digits, hexadecimal digits, word units, blanks and
surrogates.
-/

namespace UriRouting

/-- A 16-bit code unit. -/
abbrev CodeUnit := UInt16

namespace CodeUnit

/-- The unit of a character below `U+10000`. -/
@[coe] def ofChar (c : Char) : CodeUnit := c.val.toUInt16

scoped instance : Coe Char CodeUnit := ⟨ofChar⟩

/-- The high half of a surrogate pair. -/
def isHighSurrogate (u : CodeUnit) : Bool := 0xD800 ≤ u && u < 0xDC00

/-- The low half of a surrogate pair. -/
def isLowSurrogate (u : CodeUnit) : Bool := 0xDC00 ≤ u && u < 0xE000

/-- Either half of a surrogate pair. -/
def isSurrogate (u : CodeUnit) : Bool := 0xD800 ≤ u && u < 0xE000

/-- An ASCII decimal digit. -/
def isDigit (u : CodeUnit) : Bool := '0' ≤ u && u ≤ '9'

/-- An ASCII octal digit. -/
def isOctalDigit (u : CodeUnit) : Bool := '0' ≤ u && u ≤ '7'

/-- An ASCII hexadecimal digit of either case. -/
def isHexDigit (u : CodeUnit) : Bool :=
  isDigit u || ('A' ≤ u && u ≤ 'F') || ('a' ≤ u && u ≤ 'f')

/-- An ASCII letter of either case. -/
def isLetter (u : CodeUnit) : Bool := ('A' ≤ u && u ≤ 'Z') || ('a' ≤ u && u ≤ 'z')

/-- A word unit: an ASCII letter, an ASCII digit or the underscore. -/
def isWord (u : CodeUnit) : Bool := isLetter u || isDigit u || u = '_'

/-- White space: the ASCII controls from tab to carriage return, the space separators, the line
terminators and the byte order mark. -/
def isBlank (u : CodeUnit) : Bool :=
  (0x0009 ≤ u && u ≤ 0x000D) || u = 0x0020 || u = 0x00A0 || u = 0x1680 ||
    (0x2000 ≤ u && u ≤ 0x200A) || u = 0x2028 || u = 0x2029 || u = 0x202F || u = 0x205F ||
    u = 0x3000 || u = 0xFEFF

/-- The value of a decimal digit. -/
def digitValue (u : CodeUnit) : Nat := u.toNat - 0x30

/-- The value of a hexadecimal digit of either case. -/
def hexValue (u : CodeUnit) : Nat :=
  if isDigit u then u.toNat - 0x30 else if u ≤ 'F' then u.toNat - 0x37 else u.toNat - 0x57

/-- The number that digits spell in a base, given the value of each. -/
def numeral (base : Nat) (value : CodeUnit → Nat) (digits : List CodeUnit) : Nat :=
  digits.foldl (fun n u => base * n + value u) 0

/-- The number that decimal digits spell. -/
def decimal (digits : List CodeUnit) : Nat := numeral 10 digitValue digits

/-- The number that hexadecimal digits spell. -/
def hexadecimal (digits : List CodeUnit) : Nat := numeral 16 hexValue digits

/-- The unit that hexadecimal digits name. -/
def ofHexadecimal (digits : List CodeUnit) : CodeUnit := UInt16.ofNat (hexadecimal digits)

/-- The last digit is the one of least weight. -/
theorem numeral_concat (base : Nat) (value : CodeUnit → Nat) (digits : List CodeUnit)
    (u : CodeUnit) :
    numeral base value (digits ++ [u]) = base * numeral base value digits + value u := by
  simp [numeral]

/-- The hexadecimal digit, in upper case, of a value below sixteen. -/
def ofHexValue (n : Nat) : CodeUnit :=
  if n < 10 then UInt16.ofNat (0x30 + n) else UInt16.ofNat (0x37 + n)

/-- The high surrogates as a range of numbers. -/
theorem isHighSurrogate_eq (u : CodeUnit) :
    isHighSurrogate u = decide (0xD800 ≤ u.toNat ∧ u.toNat < 0xDC00) := by
  simp [isHighSurrogate, UInt16.le_iff_toNat_le, UInt16.lt_iff_toNat_lt]

/-- The low surrogates as a range of numbers. -/
theorem isLowSurrogate_eq (u : CodeUnit) :
    isLowSurrogate u = decide (0xDC00 ≤ u.toNat ∧ u.toNat < 0xE000) := by
  simp [isLowSurrogate, UInt16.le_iff_toNat_le, UInt16.lt_iff_toNat_lt]

/-- The surrogates as a range of numbers. -/
theorem isSurrogate_eq (u : CodeUnit) :
    isSurrogate u = decide (0xD800 ≤ u.toNat ∧ u.toNat < 0xE000) := by
  simp [isSurrogate, UInt16.le_iff_toNat_le, UInt16.lt_iff_toNat_lt]

end CodeUnit

end UriRouting
