import UriRouting.Text.Lemmas
import UriRouting.Text.Utf8

/-!
# Escapes in a text

An escape is a percent sign followed by two hexadecimal digits; it stands for one byte. `items` cuts
a text, from left to right, into its escapes, the characters between them and the unpaired
surrogates. `Item.units` writes an item back; the items of a text spell that text, and escapes and
characters are cut off whatever follows them.
-/

namespace UriRouting

open scoped CodeUnit

namespace Escape

/-- An escape by its two digits, a character, or an unpaired surrogate. -/
inductive Item where
  | escape (high low : CodeUnit)
  | char (c : Char)
  | unpaired (u : CodeUnit)

/-- The units an item was read from. -/
def Item.units : Item → Text
  | escape high low => ['%', high, low]
  | char c => Text.unitsOf c
  | unpaired u => [u]

/-- The item of a unit that belongs neither to an escape nor to a pair. -/
def Item.ofUnit (u : CodeUnit) : Item :=
  if CodeUnit.isSurrogate u then .unpaired u else .char (Char.ofNat u.toNat)

/-- Whether three neighbouring units form an escape. -/
def isEscape (first second third : CodeUnit) : Bool :=
  first = '%' && CodeUnit.isHexDigit second && CodeUnit.isHexDigit third

/-- Cut a text into escapes, characters and unpaired surrogates. -/
def items : Text → List Item
  | [] => []
  | [u] => [.ofUnit u]
  | [u, v] => if Text.isPair u v then [.char (Text.pairChar u v)] else [.ofUnit u, .ofUnit v]
  | u :: v :: w :: rest =>
    if isEscape u v w then .escape v w :: items rest
    else if Text.isPair u v then .char (Text.pairChar u v) :: items (w :: rest)
    else .ofUnit u :: items (v :: w :: rest)

/-- The byte that the digits of an escape name. -/
def byte (high low : CodeUnit) : UInt8 :=
  UInt8.ofNat (CodeUnit.hexValue high * 16 + CodeUnit.hexValue low)

/-- The escape of a byte, with upper-case digits. -/
def ofByte (b : UInt8) : Text :=
  ['%', CodeUnit.ofHexValue (b.toNat / 16), CodeUnit.ofHexValue (b.toNat % 16)]

/-- The escapes of the UTF-8 bytes of a character. -/
def ofChar (c : Char) : Text := (Utf8.encode [c]).flatMap ofByte

/-- The position of the first percent sign that begins no escape. -/
def firstStray : List Item → Option Nat
  | [] => none
  | item :: rest =>
    match item with
    | .char '%' => some 0
    | _ => (firstStray rest).map (· + item.units.length)

/-- The unit of an item that is no part of an escape or a pair. -/
theorem units_ofUnit (u : CodeUnit) : (Item.ofUnit u).units = [u] := by
  by_cases h : CodeUnit.isSurrogate u = true
  · simp [Item.ofUnit, h, Item.units]
  · simp [Item.ofUnit, h, Item.units, Text.unitsOf_ofNat (Bool.eq_false_iff.2 h)]

/-- The items of a text spell the text. -/
theorem units_items (t : Text) : (items t).flatMap Item.units = t := by
  fun_induction items t with
  | case1 => rfl
  | case2 u => simp [units_ofUnit]
  | case3 u v hp => simp [Item.units, Text.unitsOf_pairChar hp]
  | case4 u v hp => simp [units_ofUnit]
  | case5 u v w rest he ih =>
    simp only [isEscape, Bool.and_eq_true, decide_eq_true_eq] at he
    simp [Item.units, ih, he.1.1]
  | case6 u v w rest he hp ih => simp [Item.units, Text.unitsOf_pairChar hp, ih]
  | case7 u v w rest he hp ih => simp [units_ofUnit, ih]

/-- An escape is cut off whatever follows. -/
theorem items_escape {high low : CodeUnit} (hhigh : CodeUnit.isHexDigit high = true)
    (hlow : CodeUnit.isHexDigit low = true) (rest : Text) :
    items ('%' :: high :: low :: rest) = .escape high low :: items rest := by
  simp [items, isEscape, hhigh, hlow]

/-- A character other than the percent sign is cut off whatever follows. -/
theorem items_unitsOf_append {c : Char} (h : c ≠ '%') (rest : Text) :
    items (Text.unitsOf c ++ rest) = .char c :: items rest := by
  obtain ⟨u, hu, rfl, hc⟩ | ⟨high, low, hp, rfl, hc⟩ := Text.unitsOf_cases c
  · have hpair := Text.isPair_eq_false hu
    have hne : u ≠ '%' := fun heq => h (by rw [heq]; rfl)
    have hone : Item.ofUnit u = .char (Char.ofNat u.toNat) := by simp [Item.ofUnit, hu]
    rcases rest with _ | ⟨v, _ | ⟨w, rest⟩⟩
    · simp [hc, items, hone]
    · simp [hc, items, hpair, hone]
    · simp [hc, items, hpair, hone, isEscape, hne]
  · have hne : high ≠ '%' := by
      rintro rfl
      simp [Text.isPair, CodeUnit.isHighSurrogate_eq, CodeUnit.ofChar] at hp
    rcases rest with _ | ⟨w, rest⟩
    · simp [hc, items, hp]
    · simp [hc, items, hp, isEscape, hne]

end Escape

end UriRouting
