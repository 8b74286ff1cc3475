/-!
# Binary64 numbers

A number is a finite binary64 value, an infinity, or the undefined result of an operation on
infinities. A finite value is kept exactly, as a significand times a power of two; the significand
of a rounded value is odd, or zero with exponent zero, so equal values are equal terms. The sign of
zero is not kept.
-/

namespace UriRouting

/-- A binary64 number. -/
inductive Number where
  /-- The value `significand * 2 ^ exponent`. -/
  | finite (significand : Int) (exponent : Int)
  | infinite (negative : Bool)
  | undefined
  deriving DecidableEq

namespace Number

/-- The exponent of the least positive value. -/
def leastExponent : Int := -1074

/-- A power of two. -/
def powTwo (n : Nat) : Nat := Nat.pow 2 n

/-- A power of ten. -/
def powTen (n : Nat) : Nat := Nat.pow 10 n

/-- Divide and round to the nearest integer, halves to the even neighbour. -/
def divRound (num den : Nat) : Nat :=
  let q := num / den
  let twice := 2 * (num % den)
  if twice < den ∨ (twice = den ∧ q % 2 = 0) then q else q + 1

/-- Move factors of two from a positive significand into the exponent. -/
def reduce (significand : Nat) (exponent : Int) : Nat × Int :=
  if h : significand ≠ 0 ∧ significand % 2 = 0 then reduce (significand / 2) (exponent + 1)
  else if significand = 0 then (0, 0)
  else (significand, exponent)
termination_by significand
decreasing_by omega

/-- A significand with a sign. -/
def signed (negative : Bool) (magnitude : Nat) : Int := if negative then -magnitude else magnitude

/-- `num * 2 ^ shift` over `den`, as a quotient of natural numbers. -/
def scale (num den : Nat) (shift : Int) : Nat × Nat :=
  if 0 ≤ shift then (num * powTwo shift.toNat, den) else (num, den * powTwo (-shift).toNat)

/-- The exponent at which a positive quotient has a 53-bit significand, or the least exponent. -/
def roundingExponent (num den : Nat) : Int :=
  let guess : Int := (num.log2 : Int) - den.log2 - 53
  let (n, d) := scale num den (-guess)
  let exponent := if n < powTwo 53 * d then guess else guess + 1
  if exponent < leastExponent then leastExponent else exponent

/-- The nearest number to a quotient, ties to the even significand. -/
def ofQuotient (negative : Bool) (num den : Nat) : Number :=
  if num = 0 then finite 0 0
  else
    let exponent := roundingExponent num den
    let (n, d) := scale num den (-exponent)
    let significand := divRound n d
    let (top, bottom) := scale significand 1 exponent
    if powTwo 1024 * bottom ≤ top then infinite negative
    else
      let (m, e) := reduce significand exponent
      finite (signed negative m) e

/-- The nearest number to `digits * 10 ^ exponent`. Exponents that are out of reach for every
significand of the given digits are settled without computing the power. -/
def ofDecimal (negative : Bool) (digits : Nat) (exponent : Int) : Number :=
  let magnitude := exponent + (Nat.toDigits 10 digits).length
  if digits = 0 ∨ magnitude < -400 then finite 0 0
  else if 400 < magnitude then infinite negative
  else if 0 ≤ exponent then ofQuotient negative (digits * powTen exponent.toNat) 1
  else ofQuotient negative digits (powTen (-exponent).toNat)

/-- The number of an integer. -/
def ofInt (n : Int) : Number := ofQuotient (n < 0) n.natAbs 1

/-- The nearest number to a significand times a power of two. -/
def round (significand : Int) (exponent : Int) : Number :=
  let (n, d) := scale significand.natAbs 1 exponent
  ofQuotient (significand < 0) n d

/-- The negated number. -/
def neg : Number → Number
  | finite m e => finite (-m) e
  | infinite s => infinite (!s)
  | undefined => undefined

/-- The nearest number to the sum of two numbers. -/
def add : Number → Number → Number
  | finite m e, finite n f =>
    let low := if e ≤ f then e else f
    round (m * powTwo (e - low).toNat + n * powTwo (f - low).toNat) low
  | infinite s, infinite t => if s = t then infinite s else undefined
  | undefined, _ => undefined
  | _, undefined => undefined
  | infinite s, _ => infinite s
  | _, infinite t => infinite t

/-- The natural number that a number equals, if there is one. -/
def toNat? : Number → Option Nat
  | finite m e => if 0 ≤ m ∧ 0 ≤ e then some (m.toNat * powTwo e.toNat) else none
  | _ => none

/-- The integer part, toward zero; what is not finite counts as zero. -/
def truncate : Number → Int
  | finite m e => if 0 ≤ e then m * powTwo e.toNat else m.tdiv (powTwo (-e).toNat)
  | _ => 0

/-- The signed 32-bit word of the integer part, whose higher bits are dropped. -/
def toInt32 (x : Number) : Int32 := Int32.ofInt x.truncate

end Number

end UriRouting
