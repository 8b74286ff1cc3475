import UriRouting.Text.Basic

/-!
# Characters and units

A character is written as one unit that is no surrogate or as a pair, and either reads back as that
character whatever follows. So `Text.ofChars` and `Text.toChars` are inverse to each other between
lists of characters and texts without unpaired surrogates.
-/

namespace UriRouting

namespace Text

/-- A unit that is no surrogate begins no pair. -/
theorem isPair_eq_false {u : CodeUnit} (h : CodeUnit.isSurrogate u = false) (v : CodeUnit) :
    isPair u v = false := by
  simp only [CodeUnit.isSurrogate_eq, decide_eq_false_iff_not] at h
  have : CodeUnit.isHighSurrogate u = false := by
    simp only [CodeUnit.isHighSurrogate_eq, decide_eq_false_iff_not]
    omega
  simp [isPair, this]

/-- A character is written as one unit that is no surrogate, or as its pair. -/
theorem unitsOf_cases (c : Char) :
    (∃ u, CodeUnit.isSurrogate u = false ∧ Char.ofNat u.toNat = c ∧ unitsOf c = [u]) ∨
      ∃ high low, isPair high low = true ∧ pairChar high low = c ∧ unitsOf c = [high, low] := by
  have hc : c.toNat < 0xD800 ∨ 0xDFFF < c.toNat ∧ c.toNat < 0x110000 := c.valid
  by_cases h : c.toNat < 0x10000
  · have hu : (UInt16.ofNat c.toNat).toNat = c.toNat := UInt16.toNat_ofNat_of_lt' h
    refine .inl ⟨UInt16.ofNat c.toNat, ?_, by rw [hu, Char.ofNat_toNat], if_pos h⟩
    rw [CodeUnit.isSurrogate_eq, hu, decide_eq_false_iff_not]
    omega
  · have hhigh : (UInt16.ofNat (0xD800 + (c.toNat - 0x10000) / 0x400)).toNat =
        0xD800 + (c.toNat - 0x10000) / 0x400 :=
      UInt16.toNat_ofNat_of_lt' (by unfold UInt16.size; omega)
    have hlow : (UInt16.ofNat (0xDC00 + (c.toNat - 0x10000) % 0x400)).toNat =
        0xDC00 + (c.toNat - 0x10000) % 0x400 :=
      UInt16.toNat_ofNat_of_lt' (by unfold UInt16.size; omega)
    refine .inr ⟨_, _, ?_, ?_, if_neg h⟩
    · simp only [isPair, CodeUnit.isHighSurrogate_eq, CodeUnit.isLowSurrogate_eq, hhigh, hlow,
        Bool.and_eq_true, decide_eq_true_eq]
      omega
    · have : 0x10000 + (0xD800 + (c.toNat - 0x10000) / 0x400 - 0xD800) * 0x400 +
          (0xDC00 + (c.toNat - 0x10000) % 0x400 - 0xDC00) = c.toNat := by omega
      rw [pairChar, hhigh, hlow, this, Char.ofNat_toNat]

/-- A unit that is no surrogate is written for its character. -/
theorem unitsOf_ofNat {u : CodeUnit} (h : CodeUnit.isSurrogate u = false) :
    unitsOf (Char.ofNat u.toNat) = [u] := by
  have hlt := u.toNat_lt
  simp only [CodeUnit.isSurrogate_eq, decide_eq_false_iff_not] at h
  have valid : u.toNat.isValidChar := by
    unfold Nat.isValidChar
    omega
  have toNat_char : (Char.ofNat u.toNat).toNat = u.toNat := by
    rw [Char.ofNat, dif_pos valid]
    rfl
  rw [unitsOf, toNat_char, if_pos (by omega), UInt16.ofNat_toNat]

/-- A pair is written for its character. -/
theorem unitsOf_pairChar {high low : CodeUnit} (h : isPair high low = true) :
    unitsOf (pairChar high low) = [high, low] := by
  simp only [isPair, CodeUnit.isHighSurrogate_eq, CodeUnit.isLowSurrogate_eq, Bool.and_eq_true,
    decide_eq_true_eq] at h
  have valid : (0x10000 + (high.toNat - 0xD800) * 0x400 + (low.toNat - 0xDC00)).isValidChar :=
    .inr (by omega)
  have toNat_char : (pairChar high low).toNat =
      0x10000 + (high.toNat - 0xD800) * 0x400 + (low.toNat - 0xDC00) := by
    rw [pairChar, Char.ofNat, dif_pos valid]
    rfl
  have hhigh : 0xD800 + (0x10000 + (high.toNat - 0xD800) * 0x400 + (low.toNat - 0xDC00) -
      0x10000) / 0x400 = high.toNat := by omega
  have hlow : 0xDC00 + (0x10000 + (high.toNat - 0xD800) * 0x400 + (low.toNat - 0xDC00) -
      0x10000) % 0x400 = low.toNat := by omega
  rw [unitsOf, toNat_char, if_neg (by omega), hhigh, hlow, UInt16.ofNat_toNat, UInt16.ofNat_toNat]

/-- Characters are written one after the other. -/
theorem ofChars_cons (c : Char) (cs : List Char) : ofChars (c :: cs) = unitsOf c ++ ofChars cs :=
  List.flatMap_cons

/-- The units of a character read as that character, whatever follows. -/
theorem toChars_unitsOf_append (c : Char) (rest : Text) :
    toChars (unitsOf c ++ rest) = c :: toChars rest := by
  obtain ⟨u, hu, rfl, h⟩ | ⟨high, low, hp, rfl, h⟩ := unitsOf_cases c
  · cases rest with
    | nil => simp [h, toChars, unitChar, hu]
    | cons v rest => simp [h, toChars, unitChar, hu, isPair_eq_false hu v]
  · simp [h, toChars, hp]

/-- The units of a character hold no unpaired surrogate, whatever follows. -/
theorem firstUnpaired_unitsOf_append (c : Char) (rest : Text) :
    firstUnpaired (unitsOf c ++ rest) =
      (firstUnpaired rest).map (· + (unitsOf c).length) := by
  obtain ⟨u, hu, rfl, h⟩ | ⟨high, low, hp, rfl, h⟩ := unitsOf_cases c
  · cases rest with
    | nil => simp [h, firstUnpaired, hu]
    | cons v rest => simp [h, firstUnpaired, hu, isPair_eq_false hu v]
  · simp [h, firstUnpaired, hp]

/-- The text of some characters reads as those characters. -/
theorem toChars_ofChars (cs : List Char) : toChars (ofChars cs) = cs := by
  induction cs with
  | nil => rfl
  | cons c rest ih => rw [ofChars_cons, toChars_unitsOf_append, ih]

/-- The text of some characters holds no unpaired surrogate. -/
theorem firstUnpaired_ofChars (cs : List Char) : firstUnpaired (ofChars cs) = none := by
  induction cs with
  | nil => rfl
  | cons c rest ih => rw [ofChars_cons, firstUnpaired_unitsOf_append, ih, Option.map_none]

/-- A text without unpaired surrogates is the text of its characters. -/
theorem ofChars_toChars {t : Text} (h : t.firstUnpaired = none) : ofChars t.toChars = t := by
  fun_induction toChars t with
  | case1 => rfl
  | case2 u =>
    by_cases hu : CodeUnit.isSurrogate u = true
    · simp [firstUnpaired, hu] at h
    · simp [ofChars, unitChar, hu, unitsOf_ofNat (Bool.eq_false_iff.2 hu)]
  | case3 u v rest hp ih =>
    simp only [firstUnpaired, hp, if_true, Option.map_eq_none_iff] at h
    rw [ofChars_cons, unitsOf_pairChar hp, ih h]
    rfl
  | case4 u v rest hp ih =>
    by_cases hu : CodeUnit.isSurrogate u = true
    · simp [firstUnpaired, hp, hu] at h
    · simp only [firstUnpaired, hp, hu] at h
      rw [ofChars_cons, ih (by simpa using h), unitChar, if_neg hu,
        unitsOf_ofNat (Bool.eq_false_iff.2 hu)]
      rfl

end Text

end UriRouting
