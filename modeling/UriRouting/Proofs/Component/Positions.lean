import UriRouting.Proofs.Component.RoundTrip
import UriRouting.Proofs.Text.Positions

/-!
# Positions of escapes

`EscapeAt` and `StrayAt` say at which positions of a text an escape begins and a percent sign stands
that begins none. The cut of a text into items goes over one, two or three units at a time. It finds
exactly these positions: a percent sign never belongs to what stands before it
(`items_append_percent`), so an escape is an item wherever it stands (`exists_escapeAt_iff`), and
the first stray percent sign is the one at the least position (`findsLeast_firstStray`).
-/

namespace UriRouting

open scoped CodeUnit

namespace Escape

/-- Whether a text begins with an escape. -/
def startsEscape : Text → Bool
  | u :: v :: w :: _ => isEscape u v w
  | _ => false

/-- An escape begins at the position. -/
def EscapeAt (t : Text) (i : Nat) : Prop := startsEscape (t.drop i) = true

/-- At the position stands a percent sign that begins no escape. -/
def StrayAt (t : Text) (i : Nat) : Prop := t[i]? = some ('%' : CodeUnit) ∧ ¬ EscapeAt t i

instance (t : Text) (i : Nat) : Decidable (EscapeAt t i) := inferInstanceAs (Decidable (_ = _))

/-- What begins with an escape is its text with something behind it. -/
theorem startsEscape_iff {t : Text} :
    startsEscape t = true ↔ ∃ (d : Digits) (rest : Text), t = d.text ++ rest := by
  constructor
  · intro h
    match t, h with
    | u :: v :: w :: rest, h =>
      simp only [startsEscape, isEscape, Bool.and_eq_true, decide_eq_true_eq] at h
      obtain ⟨⟨rfl, hv⟩, hw⟩ := h
      exact ⟨⟨v, w, hv, hw⟩, rest, rfl⟩
  · rintro ⟨d, rest, rfl⟩
    simp [Digits.text, startsEscape, isEscape, d.isHexDigit_high, d.isHexDigit_low]

/-- No digit of an escape is a percent sign. -/
theorem ne_percent_of_isHexDigit {u : CodeUnit} (h : CodeUnit.isHexDigit u = true) : u ≠ '%' := by
  rintro rfl
  cases h

/-- Escapes behind some units are those of what stands there. -/
theorem escapeAt_append (front rest : Text) (i : Nat) :
    EscapeAt (front ++ rest) (i + front.length) ↔ EscapeAt rest i := by
  rw [EscapeAt, EscapeAt, Nat.add_comm, List.drop_length_add_append]

/-- So are stray percent signs. -/
theorem strayAt_append (front rest : Text) (i : Nat) :
    StrayAt (front ++ rest) (i + front.length) ↔ StrayAt rest i := by
  rw [StrayAt, StrayAt, escapeAt_append, List.getElem?_append_right (Nat.le_add_left _ _),
    Nat.add_sub_cancel]

/-- An escape begins with a percent sign. -/
theorem EscapeAt.getElem? {t : Text} {i : Nat} (h : EscapeAt t i) :
    t[i]? = some ('%' : CodeUnit) := by
  obtain ⟨d, rest, hrest⟩ := startsEscape_iff.1 h
  rw [← List.head?_drop, hrest]
  rfl

/-- An escape begins inside the text. -/
theorem EscapeAt.lt_length {t : Text} {i : Nat} (h : EscapeAt t i) : i < t.length :=
  (List.getElem?_eq_some_iff.1 h.getElem?).1

/-- A text with an escape at a position is cut there. -/
theorem EscapeAt.exists_append {t : Text} {i : Nat} (h : EscapeAt t i) :
    ∃ (d : Digits) (rest : Text), t = t.take i ++ (d.text ++ rest) ∧ (t.take i).length = i := by
  obtain ⟨d, rest, hrest⟩ := startsEscape_iff.1 h
  refine ⟨d, rest, ?_, List.length_take_of_le (Nat.le_of_lt h.lt_length)⟩
  rw [← hrest, List.take_append_drop]

/-- A percent sign is not the second half of a pair. -/
theorem isPair_percent (u : CodeUnit) : Text.isPair u '%' = false := by
  rw [Text.isPair, show CodeUnit.isLowSurrogate '%' = false by decide, Bool.and_false]

/-- A percent sign is not the character of a pair. -/
theorem pairChar_ne_percent {u v : CodeUnit} (h : Text.isPair u v = true) :
    Item.char (Text.pairChar u v) ≠ .char '%' := by
  intro heq
  have hunits := Text.unitsOf_pairChar h
  rw [Item.char.inj heq] at hunits
  cases hunits

/-- Only the percent sign is an item of its own that is a percent sign. -/
theorem ofUnit_eq_percent_iff {u : CodeUnit} : Item.ofUnit u = .char '%' ↔ u = '%' := by
  constructor
  · intro heq
    have hunits := congrArg Item.units heq
    rw [units_ofUnit] at hunits
    exact List.singleton_inj.1 hunits
  · rintro rfl
    rfl

/-- A percent sign is no digit of an escape. -/
theorem isEscape_percent (u v : CodeUnit) :
    isEscape u '%' v = false ∧ isEscape u v '%' = false := by
  have hdigit : CodeUnit.isHexDigit '%' = false := rfl
  simp [isEscape, hdigit]

/-- A unit in front of a percent sign is an item of its own. -/
theorem items_cons_percent (u : CodeUnit) (rest : Text) :
    items (u :: '%' :: rest) = .ofUnit u :: items ('%' :: rest) := by
  cases rest with
  | nil => simp [items, isPair_percent]
  | cons w rest =>
    rw [items, if_neg (Bool.eq_false_iff.1 (isEscape_percent u w).1),
      if_neg (Bool.eq_false_iff.1 (isPair_percent u))]

/-- A percent sign begins an item, whatever stands before it. -/
theorem items_append_percent (front rest : Text) :
    items (front ++ ('%' :: rest : Text)) = items front ++ items ('%' :: rest) := by
  fun_induction items front with
  | case1 => rfl
  | case2 u => exact items_cons_percent u rest
  | case3 u v hpair =>
    change items (u :: v :: '%' :: rest) = _
    rw [items, if_neg (Bool.eq_false_iff.1 (isEscape_percent u v).2), if_pos hpair]
    rfl
  | case4 u v hpair =>
    change items (u :: v :: '%' :: rest) = _
    rw [items, if_neg (Bool.eq_false_iff.1 (isEscape_percent u v).2), if_neg hpair,
      items_cons_percent]
    rfl
  | case5 u v w front h ih =>
    change items (u :: v :: w :: (front ++ ('%' :: rest : Text))) = _
    rw [items, if_pos h, ih]
    rfl
  | case6 u v w front h hpair ih =>
    change items (u :: v :: w :: (front ++ ('%' :: rest : Text))) = _
    rw [items, if_neg h, if_pos hpair]
    exact congrArg _ ih
  | case7 u v w front h hpair ih =>
    change items (u :: v :: w :: (front ++ ('%' :: rest : Text))) = _
    rw [items, if_neg h, if_neg hpair]
    exact congrArg _ ih

/-- An escape is cut off, whatever stands before and behind it. -/
theorem items_append_digits (front : Text) (d : Digits) (rest : Text) :
    items (front ++ (d.text ++ rest)) = items front ++ d.item :: items rest := by
  have hcut : items (d.text ++ rest) = d.item :: items rest :=
    items_escape d.isHexDigit_high d.isHexDigit_low rest
  rw [← hcut]
  exact items_append_percent front (d.high :: d.low :: rest)

/-- An escape begins somewhere in a text exactly if an escape is among its items. -/
theorem exists_escapeAt_iff {t : Text} : (∃ i, EscapeAt t i) ↔ ∃ d : Digits, d.item ∈ items t := by
  constructor
  · rintro ⟨i, hi⟩
    obtain ⟨d, rest, ht, -⟩ := hi.exists_append
    refine ⟨d, ?_⟩
    rw [ht, items_append_digits]
    exact List.mem_append_right _ List.mem_cons_self
  · rintro ⟨d, hd⟩
    obtain ⟨before, after, hitems⟩ := List.append_of_mem hd
    have ht : t = before.flatMap Item.units ++ (d.text ++ after.flatMap Item.units) := by
      rw [← units_items t, hitems, List.flatMap_append, List.flatMap_cons]
      rfl
    refine ⟨0 + (before.flatMap Item.units).length, ?_⟩
    rw [ht, escapeAt_append]
    exact startsEscape_iff.2 ⟨d, _, rfl⟩

/-- An item that holds no stray percent sign is gone over. -/
theorem findsLeast_item {item : Item} (rest : Text)
    (hitem : item ≠ .char '%') (hskip : ∀ i < item.units.length, ¬ StrayAt (item.units ++ rest) i)
    (h : FindsLeast (StrayAt rest) (firstStray (items rest))) :
    FindsLeast (StrayAt (item.units ++ rest)) (firstStray (item :: items rest)) := by
  rw [firstStray]
  · exact h.skip hskip (strayAt_append item.units rest)
  · exact hitem

/-- A unit that begins no escape and makes no pair is a stray percent sign, or is gone over. -/
theorem findsLeast_ofUnit {u : CodeUnit} (rest : Text) (hescape : startsEscape (u :: rest) = false)
    (h : FindsLeast (StrayAt rest) (firstStray (items rest))) :
    FindsLeast (StrayAt (u :: rest)) (firstStray (.ofUnit u :: items rest)) := by
  by_cases hu : u = '%'
  · subst hu
    exact .here ⟨rfl, Bool.eq_false_iff.1 hescape⟩
  · have hone := findsLeast_item rest (mt ofUnit_eq_percent_iff.1 hu) ?_ h
    · rwa [units_ofUnit] at hone
    · rw [units_ofUnit]
      rintro i hi ⟨hpercent, -⟩
      obtain rfl : i = 0 := by simpa using hi
      exact hu (Option.some.inj hpercent)

/-- A pair is gone over. -/
theorem findsLeast_pairChar {u v : CodeUnit} (rest : Text) (hpair : Text.isPair u v = true)
    (h : FindsLeast (StrayAt rest) (firstStray (items rest))) :
    FindsLeast (StrayAt (u :: v :: rest))
      (firstStray (.char (Text.pairChar u v) :: items rest)) := by
  have hunits : (Item.char (Text.pairChar u v)).units = [u, v] := by
    rw [Item.units, Text.unitsOf_pairChar hpair]
  have htwo := findsLeast_item rest (pairChar_ne_percent hpair) ?_ h
  · rwa [hunits] at htwo
  · rw [hunits]
    rintro i hi ⟨hpercent, -⟩
    obtain rfl | rfl : i = 0 ∨ i = 1 := Nat.le_one_iff_eq_zero_or_eq_one.1 (Nat.le_of_lt_succ hi)
    · obtain rfl : u = '%' := Option.some.inj hpercent
      cases hpair
    · obtain rfl : v = '%' := Option.some.inj hpercent
      rw [isPair_percent] at hpair
      cases hpair

/-- An escape is gone over. -/
theorem findsLeast_digits (d : Digits) (rest : Text)
    (h : FindsLeast (StrayAt rest) (firstStray (items rest))) :
    FindsLeast (StrayAt (d.text ++ rest)) (firstStray (d.item :: items rest)) := by
  refine @findsLeast_item d.item rest (fun heq => by cases heq) ?_ h
  intro i hi hstray
  have hthree : i < 3 := hi
  obtain rfl | rfl | rfl : i = 0 ∨ i = 1 ∨ i = 2 := by omega
  · exact hstray.2 (startsEscape_iff.2 ⟨d, rest, rfl⟩)
  · exact ne_percent_of_isHexDigit d.isHexDigit_high (Option.some.inj hstray.1)
  · exact ne_percent_of_isHexDigit d.isHexDigit_low (Option.some.inj hstray.1)

/-- The position that is found is the least one of a percent sign that begins no escape. -/
theorem findsLeast_firstStray (t : Text) : FindsLeast (StrayAt t) (firstStray (items t)) := by
  have nothing : FindsLeast (StrayAt []) none := by
    refine .absent ?_
    rintro i ⟨hpercent, -⟩
    cases hpercent
  fun_induction items t with
  | case1 => exact nothing
  | case2 u => exact findsLeast_ofUnit [] rfl nothing
  | case3 u v hpair => exact findsLeast_pairChar [] hpair nothing
  | case4 u v hpair => exact findsLeast_ofUnit [v] rfl (findsLeast_ofUnit [] rfl nothing)
  | case5 u v w rest hescape ih =>
    simp only [isEscape, Bool.and_eq_true, decide_eq_true_eq] at hescape
    obtain ⟨⟨rfl, hv⟩, hw⟩ := hescape
    exact findsLeast_digits ⟨v, w, hv, hw⟩ rest ih
  | case6 u v w rest hescape hpair ih => exact findsLeast_pairChar (w :: rest) hpair ih
  | case7 u v w rest hescape hpair ih =>
    exact findsLeast_ofUnit (v :: w :: rest) (Bool.eq_false_iff.2 hescape) ih

/-- If every percent sign of a text begins an escape, none of its items is a percent sign. -/
theorem percent_not_mem_items {t : Text}
    (h : ∀ rest, rest <:+ t → rest.head? = some ('%' : CodeUnit) → startsEscape rest = true) :
    Item.char '%' ∉ items t := by
  rw [← firstStray_eq_none_iff, ← Option.not_isSome_iff_eq_none,
    (findsLeast_firstStray t).isSome_iff]
  rintro ⟨i, hpercent, hescape⟩
  exact hescape (h _ (List.drop_suffix i t) (by rw [List.head?_drop, hpercent]))

end Escape

end UriRouting
