import UriRouting.Proofs.Component.RoundTrip

/-!
# What encoded values are written in

Every unit of an encoded value is one that the component allows or part of an escape; a query
parameter writes plus signs as well. So what `Component.Writes` leaves out of a component, such as
the characters that end it, cannot come from a value, whether existing escapes are kept or not.
-/

namespace UriRouting

open scoped CodeUnit

/-- A hexadecimal digit is no surrogate. -/
theorem CodeUnit.isSurrogate_of_isHexDigit {u : CodeUnit} (h : isHexDigit u = true) :
    isSurrogate u = false := by
  rw [isSurrogate_eq, decide_eq_false_iff_not]
  simp only [isHexDigit, isDigit, ofChar, Bool.or_eq_true, Bool.and_eq_true, decide_eq_true_eq,
    UInt16.le_iff_toNat_le] at h
  simp at h
  omega

/-- A unit that is no surrogate leaves the unpaired surrogates as they are. -/
theorem Text.firstUnpaired_cons {u : CodeUnit} (h : CodeUnit.isSurrogate u = false) (rest : Text) :
    firstUnpaired (u :: rest) = (firstUnpaired rest).map (· + 1) := by
  cases rest with
  | nil => simp [firstUnpaired, h]
  | cons v rest => simp [firstUnpaired, h, isPair_eq_false h v]

namespace Escape

/-- The items of a text without unpaired surrogates are escapes and characters. -/
theorem mem_items_cases {t : Text} (hpaired : t.firstUnpaired = none) {item : Item}
    (h : item ∈ items t) : (∃ d : Digits, item = d.item) ∨ ∃ c, item = .char c := by
  have ofUnit_char {u : CodeUnit} (hu : CodeUnit.isSurrogate u = false) :
      Item.ofUnit u = .char (Char.ofNat u.toNat) := by
    simp [Item.ofUnit, hu]
  fun_induction items t with
  | case1 => cases h
  | case2 u =>
    have hu : CodeUnit.isSurrogate u = false := by simpa [Text.firstUnpaired] using hpaired
    exact .inr ⟨_, (List.mem_singleton.1 h).trans (ofUnit_char hu)⟩
  | case3 u v hpair => exact .inr ⟨_, List.mem_singleton.1 h⟩
  | case4 u v hpair =>
    rw [Text.firstUnpaired, if_neg hpair] at hpaired
    split_ifs at hpaired with hu
    have hv : CodeUnit.isSurrogate v = false := by simpa [Text.firstUnpaired] using hpaired
    rcases List.mem_cons.1 h with rfl | h
    · exact .inr ⟨_, ofUnit_char (Bool.eq_false_iff.2 hu)⟩
    · exact .inr ⟨_, (List.mem_singleton.1 h).trans (ofUnit_char hv)⟩
  | case5 u v w rest hescape ih =>
    simp only [isEscape, Bool.and_eq_true, decide_eq_true_eq] at hescape
    obtain ⟨⟨rfl, hv⟩, hw⟩ := hescape
    rw [Text.firstUnpaired_cons (by decide),
      Text.firstUnpaired_cons (CodeUnit.isSurrogate_of_isHexDigit hv),
      Text.firstUnpaired_cons (CodeUnit.isSurrogate_of_isHexDigit hw)] at hpaired
    rcases List.mem_cons.1 h with rfl | h
    · exact .inl ⟨⟨v, w, hv, hw⟩, rfl⟩
    · exact ih (by simpa using hpaired) h
  | case6 u v w rest hescape hpair ih =>
    rw [Text.firstUnpaired, if_pos hpair] at hpaired
    rcases List.mem_cons.1 h with rfl | h
    · exact .inr ⟨_, rfl⟩
    · exact ih (by simpa using hpaired) h
  | case7 u v w rest hescape hpair ih =>
    rw [Text.firstUnpaired, if_neg hpair] at hpaired
    split_ifs at hpaired with hu
    rcases List.mem_cons.1 h with rfl | h
    · exact .inr ⟨_, ofUnit_char (Bool.eq_false_iff.2 hu)⟩
    · exact ih (by simpa using hpaired) h

end Escape

namespace Component

open Escape (Digits)

/-- The units that values of a component are written in: those that it allows, those of escapes, and
the plus signs of a query parameter. -/
def Writes (k : Component) (u : CodeUnit) : Prop :=
  k.allows (Char.ofNat u.toNat) = true ∨ u = '%' ∨ CodeUnit.isHexDigit u = true ∨
    (u = '+' ∧ k = queryParam)

instance (k : Component) (u : CodeUnit) : Decidable (k.Writes u) :=
  inferInstanceAs (Decidable (_ ∨ _))

/-- A component that writes none of the units of a text. -/
def WritesNone (k : Component) (t : Text) : Prop := ∀ u ∈ t, ¬ k.Writes u

-- Decided unit by unit of the text: the units as such are finitely many, but too many to try.
instance (k : Component) (t : Text) : Decidable (k.WritesNone t) :=
  List.decidableBAll _ t

/-- What a component allows is a character of queries. -/
theorem isQueryChar_of_allows {k : Component} {c : Char} (h : k.allows c = true) :
    isQueryChar c = true := by
  cases k with
  | scheme =>
    rw [allows, Bool.or_eq_true, decide_eq_true_eq] at h
    rcases h with h | h
    · simp [isQueryChar, isAuthorityChar, isHostChar, isUnreserved, h]
    · have hmarks : ∀ c ∈ ['+', '-', '.'], isQueryChar c = true :=
        List.all_eq_true.1 (by decide)
      exact hmarks c h
  | _ => grind [allows, isQueryChar, isAuthorityChar, isHostChar, isUnreserved, Char.isAlphanum]

/-- The characters of queries are ASCII characters. -/
theorem toNat_lt_of_isQueryChar {c : Char} (h : isQueryChar c = true) : c.toNat < 128 := by
  have alphanum_lt (h : c.isAlphanum = true) : c.toNat < 128 := by
    have hranges : c.isAlphanum = (decide (c.val ≥ 'A'.val ∧ c.val ≤ 'Z'.val) ||
        c.val ≥ 'a'.val && c.val ≤ 'z'.val || c.val ≥ '0'.val && c.val ≤ '9'.val) := rfl
    have below {last : UInt32} (hlast : last.toNat < 128) (hle : c.val ≤ last) : c.toNat < 128 :=
      Nat.lt_of_le_of_lt (UInt32.le_iff_toNat_le.1 hle) hlast
    simp only [hranges, Bool.or_eq_true, Bool.and_eq_true, decide_eq_true_eq] at h
    rcases h with (⟨-, h⟩ | ⟨-, h⟩) | ⟨-, h⟩ <;> exact below (by decide) h
  have mark_lt {marks : List Char} (hmarks : (marks.all fun d => d.toNat < 128) = true)
      (h : c ∈ marks) : c.toNat < 128 := of_decide_eq_true (List.all_eq_true.1 hmarks c h)
  simp only [isQueryChar, isAuthorityChar, isHostChar, isUnreserved, isSubDelimiter, Bool.or_eq_true,
    decide_eq_true_eq] at h
  rcases h with ((((((h | h) | h) | rfl) | rfl) | rfl) | rfl)
  · exact alphanum_lt h
  · exact mark_lt (by decide) h
  · exact mark_lt (by decide) h
  all_goals decide

/-- Escapes are written in percent signs and hexadecimal digits. -/
theorem writes_digits (k : Component) (d : Digits) : ∀ u ∈ d.text, k.Writes u := by
  intro u hu
  simp only [Digits.text, List.mem_cons, List.not_mem_nil, or_false] at hu
  rcases hu with rfl | rfl | rfl
  · exact .inr (.inl rfl)
  · exact .inr (.inr (.inl d.isHexDigit_high))
  · exact .inr (.inr (.inl d.isHexDigit_low))

/-- A character is written in the units of its component. -/
theorem writes_code (k : Component) (c : Char) : ∀ u ∈ k.code c, k.Writes u := by
  rw [code]
  split_ifs with hallows hspace
  · have hlt := toNat_lt_of_isQueryChar (isQueryChar_of_allows hallows)
    intro u hu
    rw [Text.unitsOf, if_pos (by omega), List.mem_singleton] at hu
    subst hu
    rw [Writes, UInt16.toNat_ofNat_of_lt' (by unfold UInt16.size; omega), Char.ofNat_toNat]
    exact .inl hallows
  · intro u hu
    exact .inr (.inr (.inr ⟨List.mem_singleton.1 hu, hspace.2⟩))
  · intro u hu
    obtain ⟨b, -, hu⟩ := List.mem_flatMap.1 hu
    exact k.writes_digits (Digits.ofByte b) u hu

/-- An encoded value is written in the units of its component. -/
theorem writes_of_encode {k : Component} {value text : Text} (h : k.encode value = .ok text) :
    ∀ u ∈ text, k.Writes u := by
  rw [encode] at h
  split at h
  · cases h
  · obtain rfl := Except.ok.inj h
    intro u hu
    obtain ⟨c, -, hu⟩ := List.mem_flatMap.1 hu
    exact k.writes_code c u hu

/-- Escapes that are kept and characters are written in the units of the component. -/
theorem writes_flatMap_contextualCode (k : Component) {items : List Escape.Item}
    (hitems : ∀ item ∈ items, (∃ d : Digits, item = d.item) ∨ ∃ c, item = .char c) :
    ∀ u ∈ items.flatMap k.contextualCode, k.Writes u := by
  intro u hu
  obtain ⟨item, hitem, hu⟩ := List.mem_flatMap.1 hu
  rcases hitems item hitem with ⟨d, rfl⟩ | ⟨c, rfl⟩
  · exact k.writes_digits d u hu
  · exact k.writes_code c u hu

/-- A value of which the escapes are kept is written in the units of its component. -/
theorem writes_of_contextualEncode {k : Component} {value text : Text}
    (h : k.contextualEncode value = .ok text) : ∀ u ∈ text, k.Writes u := by
  rw [contextualEncode] at h
  split at h
  · cases h
  · next hpaired =>
    obtain rfl := Except.ok.inj h
    exact k.writes_flatMap_contextualCode fun _ => Escape.mem_items_cases hpaired

end Component

end UriRouting
