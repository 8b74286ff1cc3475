import UriRouting.Proofs.Component.Reencoding

/-!
# Values that are encoded already

The test whether a value is encoded goes through it unit by unit, while the encoder cuts it into
escapes, characters and unpaired surrogates. A value passes the test exactly if the encoder that
keeps escapes leaves every item of it alone (`isEncoded_iff_keeps_items`); such a value holds no
surrogate. So the test tells whether a value is a fixpoint of this encoder, for all texts
(`isEncoded_iff_contextualEncode_eq_self`).

What an encoder has written passes the test, whether it kept the escapes or not, except where a query
parameter held a space: the plus sign that stands for it is not allowed there
(`isEncoded_encoded_iff`).
-/

namespace UriRouting

open scoped CodeUnit

namespace Component

open Escape (Item)

/-- An item that is left alone when escapes are kept. -/
def Keeps (k : Component) : Item → Prop
  | .escape _ _ => True
  | .char c => k.allows c = true
  | .unpaired _ => False

/-- A unit is allowed exactly if the item that it is on its own is left alone. -/
theorem allowsUnit_iff_keeps (k : Component) (u : CodeUnit) :
    k.allowsUnit u = true ↔ k.Keeps (.ofUnit u) := by
  cases h : CodeUnit.isSurrogate u <;> simp [allowsUnit, Item.ofUnit, h, Keeps]

/-- No surrogate is allowed. -/
theorem isSurrogate_of_allowsUnit {k : Component} {u : CodeUnit} (h : k.allowsUnit u = true) :
    CodeUnit.isSurrogate u = false := by
  rw [allowsUnit, Bool.and_eq_true, Bool.not_eq_true'] at h
  exact h.1

/-- The first unit of a pair is not allowed. -/
theorem allowsUnit_of_isPair (k : Component) {u v : CodeUnit} (h : Text.isPair u v = true) :
    k.allowsUnit u = false := by
  by_contra hallows
  rw [Bool.not_eq_false] at hallows
  rw [Text.isPair_eq_false (isSurrogate_of_allowsUnit hallows)] at h
  cases h

/-- The character of a pair is not allowed. -/
theorem not_keeps_pairChar (k : Component) {u v : CodeUnit} (h : Text.isPair u v = true) :
    ¬ k.Keeps (.char (Text.pairChar u v)) := by
  intro hallows
  have hlt := toNat_lt_of_isQueryChar (isQueryChar_of_allows hallows)
  have hlength := congrArg List.length (Text.unitsOf_pairChar h)
  rw [Text.unitsOf, if_pos (by omega)] at hlength
  exact absurd hlength (by simp)

/-- A value is encoded exactly if each of its items is left alone. -/
theorem isEncoded_iff_keeps_items (k : Component) (value : Text) :
    k.isEncoded value = true ↔ ∀ item ∈ Escape.items value, k.Keeps item := by
  fun_induction Escape.items value with
  | case1 => simp [isEncoded]
  | case2 u => simp [isEncoded, allowsUnit_iff_keeps]
  -- A pair fails on both sides: its first unit is a surrogate, its character is no ASCII character.
  | case3 u v hpair => simp [isEncoded, k.allowsUnit_of_isPair hpair, k.not_keeps_pairChar hpair]
  | case4 u v hpair => simp [isEncoded, allowsUnit_iff_keeps]
  | case5 u v w rest hescape ih => simp [isEncoded, hescape, ih, Keeps]
  | case6 u v w rest hescape hpair ih =>
    simp [isEncoded, hescape, k.allowsUnit_of_isPair hpair, k.not_keeps_pairChar hpair]
  | case7 u v w rest hescape hpair ih => simp [isEncoded, hescape, allowsUnit_iff_keeps, ih]

/-- An encoded value holds no surrogate. -/
theorem isSurrogate_of_isEncoded {k : Component} {value : Text} (h : k.isEncoded value = true) :
    ∀ u ∈ value, CodeUnit.isSurrogate u = false := by
  fun_induction isEncoded k value with
  | case1 => simp
  | case2 u => simpa using isSurrogate_of_allowsUnit h
  | case3 u v =>
    rw [Bool.and_eq_true] at h
    simpa using ⟨isSurrogate_of_allowsUnit h.1, isSurrogate_of_allowsUnit h.2⟩
  | case4 u v w rest hescape ih =>
    simp only [Escape.isEscape, Bool.and_eq_true, decide_eq_true_eq] at hescape
    obtain ⟨⟨rfl, hv⟩, hw⟩ := hescape
    simp only [List.forall_mem_cons]
    exact ⟨by decide, CodeUnit.isSurrogate_of_isHexDigit hv, CodeUnit.isSurrogate_of_isHexDigit hw,
      ih h⟩
  | case5 u v w rest hescape ih =>
    rw [Bool.and_eq_true] at h
    rw [List.forall_mem_cons]
    exact ⟨isSurrogate_of_allowsUnit h.1, ih h.2⟩

/-- Escapes and characters are left alone exactly if the characters are allowed. -/
theorem forall_keeps_iff (k : Component) {value : Text} (h : value.firstUnpaired = none) :
    (∀ item ∈ Escape.items value, k.Keeps item) ↔
      ∀ c, Item.char c ∈ Escape.items value → k.allows c = true := by
  constructor
  · intro hkeeps c hc
    exact hkeeps _ hc
  · intro hallows item hitem
    rcases Escape.mem_items_cases h hitem with ⟨d, rfl⟩ | ⟨c, rfl⟩
    · exact trivial
    · exact hallows c hitem

/-- A value is encoded exactly if encoding it with its escapes kept succeeds and gives the value
back. -/
theorem isEncoded_iff_contextualEncode_eq_self (k : Component) (value : Text) :
    k.isEncoded value = true ↔ k.contextualEncode value = .ok value := by
  constructor
  · intro h
    have hpaired := Text.firstUnpaired_of_no_surrogate (isSurrogate_of_isEncoded h)
    rw [contextualEncode_eq_self_iff k hpaired, ← k.forall_keeps_iff hpaired]
    exact (k.isEncoded_iff_keeps_items value).1 h
  · intro h
    cases hpaired : value.firstUnpaired with
    | some index =>
      rw [contextualEncode, hpaired] at h
      cases h
    | none =>
      rw [contextualEncode_eq_self_iff k hpaired, ← k.forall_keeps_iff hpaired] at h
      exact (k.isEncoded_iff_keeps_items value).2 h

/-- What escapes and characters have been written as is encoded exactly if none of them is a space
of a query parameter. -/
theorem isEncoded_written_iff (k : Component) {items : List Item}
    (hitems : ∀ item ∈ items, (∃ d : Escape.Digits, item = d.item) ∨ ∃ c, item = .char c) :
    k.isEncoded (items.flatMap k.contextualCode) = true ↔
      ¬ (k = queryParam ∧ (' ' : CodeUnit) ∈ items.flatMap Item.units) := by
  rw [isEncoded_iff_keeps_items, forall_keeps_iff k (k.firstUnpaired_written hitems),
    k.allows_written_iff hitems]

/-- Encoding a value without unpaired surrogates succeeds in either way, and what comes out is
encoded, exactly if the value is not one of a query parameter that holds a space. -/
theorem isEncoded_encoded_iff (k : Component) {value : Text} (h : value.firstUnpaired = none) :
    (∃ encoded, k.encode value = .ok encoded ∧
      (k.isEncoded encoded = true ↔ ¬ (k = queryParam ∧ (' ' : CodeUnit) ∈ value))) ∧
    ∃ encoded, k.contextualEncode value = .ok encoded ∧
      (k.isEncoded encoded = true ↔ ¬ (k = queryParam ∧ (' ' : CodeUnit) ∈ value)) := by
  constructor
  · obtain ⟨items, hitems, hunits, hencoded⟩ := k.exists_items_of_encode h
    have hwritten := k.isEncoded_written_iff hitems
    rw [hunits] at hwritten
    exact ⟨_, hencoded, hwritten⟩
  · obtain ⟨items, hitems, hunits, hencoded⟩ := k.exists_items_of_contextualEncode h
    have hwritten := k.isEncoded_written_iff hitems
    rw [hunits] at hwritten
    exact ⟨_, hencoded, hwritten⟩

/-- A query parameter of a stray percent sign in front of an escape, a character above `U+FFFF` and a
plus sign. -/
theorem isEncoded_encoded_stray :
    Text.firstUnpaired ("%%41" ++ Text.unitsOf (Char.ofNat 0x1F600) ++ "+") = none ∧
      (∃ encoded,
        queryParam.encode ("%%41" ++ Text.unitsOf (Char.ofNat 0x1F600) ++ "+") = .ok encoded ∧
          queryParam.isEncoded encoded = true) ∧
      ∃ encoded, queryParam.contextualEncode
        ("%%41" ++ Text.unitsOf (Char.ofNat 0x1F600) ++ "+") = .ok encoded ∧
          queryParam.isEncoded encoded = true := by
  have hpaired : Text.firstUnpaired ("%%41" ++ Text.unitsOf (Char.ofNat 0x1F600) ++ "+") = none := by
    decide
  have hspace : (' ' : CodeUnit) ∉
      (↑"%%41" ++ Text.unitsOf (Char.ofNat 0x1F600) ++ ↑"+" : Text) := by
    decide
  obtain ⟨⟨strict, hstrict, hpasses⟩, ⟨kept, hkept, hpasses'⟩⟩ :=
    isEncoded_encoded_iff queryParam hpaired
  exact ⟨hpaired, ⟨strict, hstrict, hpasses.2 fun h => hspace h.2⟩,
    ⟨kept, hkept, hpasses'.2 fun h => hspace h.2⟩⟩

end Component

end UriRouting
