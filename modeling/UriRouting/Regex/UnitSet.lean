import UriRouting.Text.Basic

/-!
# Sets of code units

A set of units is what a class such as `[a-z\d_]`, an escape such as `\w` or the dot matches: a list
of ranges and named kinds, or everything outside it. The named kinds are the ASCII digits, the ASCII
word units and the white space of `Text.trim`.
-/

namespace UriRouting

open scoped CodeUnit

namespace Regex

/-- The kinds of unit that an escape names. -/
inductive UnitKind where
  | digit
  | word
  | blank
  deriving DecidableEq

/-- Whether a unit is of a kind. -/
def UnitKind.contains : UnitKind → CodeUnit → Bool
  | digit, u => CodeUnit.isDigit u
  | word, u => CodeUnit.isWord u
  | blank, u => CodeUnit.isBlank u

/-- A part of a class: a range of units, or a kind of unit or its complement. -/
inductive ClassPart where
  | range (first last : CodeUnit)
  | kind (k : UnitKind) (negated : Bool)
  deriving DecidableEq

/-- Whether a unit belongs to a part of a class. -/
def ClassPart.contains : ClassPart → CodeUnit → Bool
  | range first last, u => first ≤ u && u ≤ last
  | kind k negated, u => k.contains u != negated

/-- The part that holds one unit. -/
def ClassPart.single (u : CodeUnit) : ClassPart := range u u

/-- The units of some parts, or all other units. -/
structure UnitSet where
  parts : List ClassPart
  negated : Bool
  deriving DecidableEq

namespace UnitSet

/-- Whether a unit belongs to a set. -/
def contains (s : UnitSet) (u : CodeUnit) : Bool := s.parts.any (·.contains u) != s.negated

/-- The units of a kind, or all others. -/
def ofKind (k : UnitKind) (negated : Bool) : UnitSet := ⟨[.kind k negated], false⟩

/-- The units that a dot matches: all but the line terminators. -/
def dot : UnitSet :=
  ⟨[.single 0x000A, .single 0x000D, .range 0x2028 0x2029], true⟩

end UnitSet

/-- The kind that an escape letter names, and whether it names the complement. -/
def kindOfLetter? (u : CodeUnit) : Option (UnitKind × Bool) :=
  if u = 'd' then some (.digit, false)
  else if u = 'D' then some (.digit, true)
  else if u = 'w' then some (.word, false)
  else if u = 'W' then some (.word, true)
  else if u = 's' then some (.blank, false)
  else if u = 'S' then some (.blank, true)
  else none

/-- The control character that an escape letter names. -/
def controlOfLetter? (u : CodeUnit) : Option CodeUnit :=
  if u = 'f' then some 0x0C
  else if u = 'n' then some 0x0A
  else if u = 'r' then some 0x0D
  else if u = 't' then some 0x09
  else if u = 'v' then some 0x0B
  else none

/-- The control unit of a letter, digit or underscore: its five low bits. -/
def controlUnit (u : CodeUnit) : CodeUnit := u &&& 0x1F

end Regex

end UriRouting
