import UriRouting.Regex.UnitSet

/-!
# The inside of a character class

`UnitSet.ofBody?` reads the units between the brackets of a class. The body is first cut into atoms,
each escape unfolded; then a hyphen between two single units makes a range, and everywhere else it
stands for itself. A range whose ends are out of order is refused.
-/

namespace UriRouting

open scoped CodeUnit

namespace Regex

/-- An atom of a class: a hyphen written without escape, a unit, or a kind of unit. -/
inductive ClassAtom where
  | hyphen
  | unit (u : CodeUnit)
  | kind (k : UnitKind) (negated : Bool)

/-- The unit of an atom that stands for a single unit. -/
def ClassAtom.unit? : ClassAtom → Option CodeUnit
  | hyphen => some '-'
  | unit u => some u
  | kind _ _ => none

/-- The part that an atom stands for by itself. -/
def ClassAtom.part : ClassAtom → ClassPart
  | hyphen => .single '-'
  | unit u => .single u
  | kind k negated => .kind k negated

/-- Whether a unit after `\c` names a control unit inside a class. -/
def isControlName (u : CodeUnit) : Bool := CodeUnit.isLetter u || CodeUnit.isDigit u || u = '_'

/-- Where the reader of a class stands; collected digits are kept latest first. -/
inductive ClassState where
  | plain
  | backslash
  /-- After `\c`. -/
  | control
  /-- After `\x` or `\u`, which want the given number of digits. -/
  | hex (letter : CodeUnit) (wanted : Nat) (digits : Text)
  /-- After a number of octal digits with the given value. -/
  | octal (value count : Nat)

/-- Read a unit where an atom begins, after atoms that end before it. -/
def classPlain (before : List ClassAtom) (u : CodeUnit) : List ClassAtom × ClassState :=
  if u = '\\' then (before, .backslash)
  else if u = '-' then (before ++ [.hyphen], .plain)
  else (before ++ [.unit u], .plain)

/-- Read the unit behind a backslash; `\k` is refused where groups have names. -/
def classBackslash (named : Bool) (u : CodeUnit) : Option (List ClassAtom × ClassState) :=
  match kindOfLetter? u with
  | some (k, negated) => some ([.kind k negated], .plain)
  | none =>
    if u = 'c' then some ([], .control)
    else if u = 'x' then some ([], .hex u 2 [])
    else if u = 'u' then some ([], .hex u 4 [])
    else if CodeUnit.isOctalDigit u then some ([], .octal (CodeUnit.digitValue u) 1)
    else if u = 'k' ∧ named then none
    else if u = 'b' then some ([.unit 0x08], .plain)
    else some ([.unit ((controlOfLetter? u).getD u)], .plain)

/-- Read one unit. A malformed `\x`, `\u` or `\c` stands for itself, and up to three octal digits
name a unit below 256. -/
def classStep (named : Bool) (state : ClassState) (u : CodeUnit) :
    Option (List ClassAtom × ClassState) :=
  match state with
  | .plain => some (classPlain [] u)
  | .backslash => classBackslash named u
  | .control =>
    if isControlName u then some ([.unit (controlUnit u)], .plain)
    else some (classPlain [.unit '\\', .unit 'c'] u)
  | .hex letter wanted digits =>
    if CodeUnit.isHexDigit u then
      if digits.length + 1 = wanted then
        some ([.unit (CodeUnit.ofHexadecimal (u :: digits).reverse)], .plain)
      else some ([], .hex letter wanted (u :: digits))
    else some (classPlain (.unit letter :: digits.reverse.map .unit) u)
  | .octal value count =>
    if CodeUnit.isOctalDigit u ∧ (count = 1 ∨ (count = 2 ∧ value < 32)) then
      some ([], .octal (8 * value + CodeUnit.digitValue u) (count + 1))
    else some (classPlain [.unit (UInt16.ofNat value)] u)

/-- The atoms that end with the body; it cannot end behind a backslash. -/
def classEnd : ClassState → Option (List ClassAtom)
  | .plain => some []
  | .backslash => none
  | .control => some [.unit '\\', .unit 'c']
  | .hex letter _ digits => some (.unit letter :: digits.reverse.map .unit)
  | .octal value _ => some [.unit (UInt16.ofNat value)]

/-- The atoms of the body of a class, read from a state on. -/
def classAtomsFrom (named : Bool) : ClassState → Text → Option (List ClassAtom)
  | state, [] => classEnd state
  | state, u :: rest =>
    match classStep named state u with
    | none => none
    | some (out, next) => (classAtomsFrom named next rest).map (out ++ ·)

/-- Join atoms to parts: single units around a hyphen are the ends of a range. -/
def classParts : List ClassAtom → Option (List ClassPart)
  | [] => some []
  | [a] => some [a.part]
  | a :: .hyphen :: b :: rest =>
    match a.unit?, b.unit? with
    | some first, some last =>
      if last < first then none else (classParts rest).map (.range first last :: ·)
    | _, _ => (classParts rest).map fun more => a.part :: .single '-' :: b.part :: more
  | a :: rest => (classParts rest).map (a.part :: ·)

/-- The set that the units between the brackets of a class describe; a leading caret negates. -/
def UnitSet.ofBody? (named : Bool) (body : Text) : Option UnitSet :=
  let (negated, body) : Bool × Text :=
    match body with
    | [] => (false, [])
    | u :: rest => if u = '^' then (true, rest) else (false, u :: rest)
  do
    let atoms ← classAtomsFrom named .plain body
    let parts ← classParts atoms
    some ⟨parts, negated⟩

end Regex

end UriRouting
