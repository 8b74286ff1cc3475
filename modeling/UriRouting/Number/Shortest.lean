import UriRouting.Number.Basic
import UriRouting.Text.Basic

/-!
# Shortest decimal text of a number

A finite number is written with the fewest significant digits that read back as the same number, and
of the decimals with so few digits as the one nearest to it. Point positions from `-5` to `21` are
written positionally, all others with an exponent.
-/

namespace UriRouting

open scoped CodeUnit

namespace Number

/-- The reals that round to a positive number: the number `value / unit`, the distances `below` and
`above` to the ends of its interval in the same unit, and whether the ends belong to it. -/
structure Interval where
  value : Nat
  below : Nat
  above : Nat
  unit : Nat
  closed : Bool

/-- The rounding interval of `significand * 2 ^ exponent`. -/
def interval (significand : Nat) (exponent : Int) : Interval :=
  let room := Nat.min (53 - (significand.log2 + 1)) (exponent - leastExponent).toNat
  let m := significand * powTwo room
  let e := exponent - room
  let below := if m = powTwo 52 ∧ leastExponent < e then 1 else 2
  let (scaled, unit) := scale 1 1 (e - 2)
  ⟨4 * m * scaled, below * scaled, 2 * scaled, unit, m % 2 = 0⟩

/-- The position of the decimal point: the exponent `p` with `10 ^ (p - 1) ≤ value < 10 ^ p`. -/
def pointPosition (i : Interval) : Int :=
  if i.unit ≤ i.value then (Nat.toDigits 10 (i.value / i.unit)).length
  else 1 - (Nat.toDigits 10 ((i.unit + i.value - 1) / i.value - 1)).length

/-- Whether `digits * num / den` lies in the interval. -/
def Interval.holds (i : Interval) (digits num den : Nat) : Bool :=
  let x := digits * num * i.unit
  let low := (i.value - i.below) * den
  let high := (i.value + i.above) * den
  if i.closed then low ≤ x && x ≤ high else low < x && x < high

/-- The multiple of `num / den` in the interval that is nearest to its number, if one of the two
neighbours of the number is in it. A tie goes to the even multiple. -/
def nearestOnGrid (i : Interval) (num den : Nat) : Option Nat :=
  let floor := (i.value * den) / (num * i.unit)
  let remainder := 2 * ((i.value * den) % (num * i.unit))
  let floorIsNearer := remainder < num * i.unit || (remainder = num * i.unit && floor % 2 = 0)
  match i.holds floor num den, i.holds (floor + 1) num den with
  | true, true => some (if floorIsNearer then floor else floor + 1)
  | true, false => some floor
  | false, true => some (floor + 1)
  | false, false => none

/-- Look for a decimal in the interval with `count` digits, then with more. -/
def digitsFrom (i : Interval) (point : Int) (count : Nat) : (more : Nat) → Nat × Int
  | 0 => (i.value / i.unit, 0)
  | more + 1 =>
    let exponent := point - count
    let (num, den) :=
      if 0 ≤ exponent then (powTen exponent.toNat, 1) else (1, powTen (-exponent).toNat)
    match nearestOnGrid i num den with
    | some digits => (digits, exponent)
    | none => digitsFrom i point (count + 1) more

/-- The shortest decimal `digits * 10 ^ exponent` that reads back as a positive number. Seventeen
digits are enough for every binary64 value. -/
def shortest (significand : Nat) (exponent : Int) : Nat × Int :=
  let i := interval significand exponent
  digitsFrom i (pointPosition i) 1 17

/-- A run of zeros. -/
def zeros (count : Nat) : Text := List.replicate count '0'

/-- Write `0.digits * 10 ^ point`. -/
def layout (digits : Text) (point : Int) : Text :=
  let count : Int := digits.length
  if count ≤ point ∧ point ≤ 21 then digits ++ zeros (point - count).toNat
  else if 0 < point ∧ point ≤ 21 then
    digits.take point.toNat ++ "." ++ digits.drop point.toNat
  else if -6 < point ∧ point ≤ 0 then
    "0." ++ zeros (-point).toNat ++ digits
  else
    let power := point - 1
    let fraction : Text := if digits.length = 1 then "" else "." ++ digits.drop 1
    let mark : Text := if 0 ≤ power then "e+" else "e-"
    digits.take 1 ++ fraction ++ mark ++ Text.ofNat power.natAbs

/-- The text of a positive finite number. -/
def magnitudeText (significand : Nat) (exponent : Int) : Text :=
  let (digits, power) := shortest significand exponent
  let text := Text.ofNat digits
  let kept : Text := (text.reverse.dropWhile fun u : CodeUnit => u = '0').reverse
  layout kept (power + text.length)

/-- The text of a number. -/
def toText : Number → Text
  | finite m e =>
    if m = 0 then ['0']
    else if m < 0 then '-' :: magnitudeText m.natAbs e
    else magnitudeText m.natAbs e
  | infinite negative => if negative then "-Infinity" else "Infinity"
  | undefined => "NaN"

end Number

end UriRouting
