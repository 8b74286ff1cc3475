import UriRouting.Proofs.Component.Meaning
import UriRouting.Proofs.Component.Spelling

/-!
# Encoding as a prefix code

No correct way to write a character in a component is the beginning of a way to write another
character (`Spelling.eq_of_begins`); this rests on the same property of UTF-8. What a component
writes for characters is thus a prefix code, and the units of characters are one as well. In a prefix
code the text of one list begins the text of another exactly if the list begins the other
(`PrefixCode.flatMap_prefix_iff`). So encoding is an injective homomorphism from the values without
unpaired surrogates (`encode_append_injective`), although decoding does not undo it on all of them.
-/

namespace UriRouting

open scoped CodeUnit

section

variable {α β : Type} {f : α → List β}

/-- Letters are written as words of which none is empty or the beginning of another. -/
structure PrefixCode (f : α → List β) : Prop where
  ne_nil : ∀ a, f a ≠ []
  eq_of_begins : ∀ {a b}, f a <+: f b → a = b

/-- The first letter of a text is known, whatever follows. -/
theorem PrefixCode.eq_of_append_eq (h : PrefixCode f) {a b : α} {s t : List β}
    (heq : f a ++ s = f b ++ t) : a = b := by
  have ha : f a <+: f b ++ t := heq ▸ List.prefix_append _ _
  rcases List.prefix_or_prefix_of_prefix ha (List.prefix_append _ _) with hab | hba
  · exact h.eq_of_begins hab
  · exact (h.eq_of_begins hba).symm

/-- The text of some letters begins that of others exactly if the letters do. -/
theorem PrefixCode.flatMap_prefix_iff (h : PrefixCode f) {xs ys : List α} :
    xs.flatMap f <+: ys.flatMap f ↔ xs <+: ys := by
  constructor
  · intro hbegin
    induction xs generalizing ys with
    | nil => exact List.nil_prefix
    | cons a xs ih =>
      obtain ⟨rest, hrest⟩ := hbegin
      rw [List.flatMap_cons, List.append_assoc] at hrest
      cases ys with
      | nil => exact absurd (List.append_eq_nil_iff.1 hrest).1 (h.ne_nil a)
      | cons b ys =>
        rw [List.flatMap_cons] at hrest
        obtain rfl := h.eq_of_append_eq hrest
        exact List.cons_prefix_cons.2 ⟨rfl, ih ⟨rest, List.append_cancel_left hrest⟩⟩
  · rintro ⟨zs, rfl⟩
    rw [List.flatMap_append]
    exact List.prefix_append _ _

/-- Only the same letters have the same text. -/
theorem PrefixCode.flatMap_eq_iff (h : PrefixCode f) {xs ys : List α} :
    xs.flatMap f = ys.flatMap f ↔ xs = ys := by
  constructor
  · intro heq
    have hxs : xs <+: ys := h.flatMap_prefix_iff.1 (heq ▸ List.prefix_refl _)
    have hys : ys <+: xs := h.flatMap_prefix_iff.1 (heq ▸ List.prefix_refl _)
    exact hxs.eq_of_length_le hys.length_le
  · rintro rfl
    rfl

end

namespace Text

/-- The units of characters are a prefix code. -/
theorem prefixCode_unitsOf : PrefixCode unitsOf where
  ne_nil c := by
    rw [unitsOf]
    split_ifs <;> exact List.cons_ne_nil _ _
  eq_of_begins := by
    rintro c d ⟨rest, hrest⟩
    have hchars := congrArg toChars hrest
    rw [toChars_unitsOf_append, ← List.append_nil (unitsOf d), toChars_unitsOf_append] at hchars
    exact (List.cons_eq_cons.1 hchars).1

/-- The text of two lists of characters one after the other. -/
theorem ofChars_append (cs ds : List Char) : ofChars (cs ++ ds) = ofChars cs ++ ofChars ds :=
  List.flatMap_append

end Text

namespace Utf8

/-- The bytes of characters are a prefix code. -/
theorem prefixCode_encodeChar : PrefixCode String.utf8EncodeChar where
  ne_nil c := by
    obtain ⟨b, rest, hc, -⟩ := exists_encodeChar_eq c
    rw [hc]
    exact List.cons_ne_nil b rest
  eq_of_begins := by
    rintro c d ⟨rest, hrest⟩
    have hchars := congrArg (decodeFrom none) hrest
    rw [decodeFrom_encodeChar, ← List.append_nil (String.utf8EncodeChar d),
      decodeFrom_encodeChar] at hchars
    exact (List.cons_eq_cons.1 hchars).1

end Utf8

namespace Component

open Escape (Digits Item)

/-- The bytes that escapes stand for. -/
theorem map_byte?_item (digits : List Digits) :
    (digits.map Digits.item).map Item.byte? = (digits.map Digits.byte).map some := by
  rw [List.map_map, List.map_map]
  rfl

/-- No reading of a character begins a reading of another one. -/
theorem Reads.eq_of_begins {k : Component} {c d : Char} {items others : List Item}
    (h : k.Reads c items) (h' : k.Reads d others) (hbegin : items <+: others) : c = d := by
  cases h with
  | char hpercent hread =>
    cases h' with
    | char hpercent' hread' =>
      obtain rfl := Item.char.inj (List.cons_prefix_cons.1 hbegin).1
      exact Text.prefixCode_unitsOf.eq_of_begins (hread.symm.trans hread' ▸ List.prefix_refl _)
    | escapes digits hbytes => simpa [Digits.item] using hbegin.subset List.mem_cons_self
  | escapes digits hbytes =>
    have hmap := hbegin.map Item.byte?
    rw [map_byte?_item, hbytes] at hmap
    cases h' with
    | char hpercent' hread' =>
      -- Escapes begin with a byte, and a character that stands for itself is none.
      obtain ⟨b, rest, hc, -⟩ := Utf8.exists_encodeChar_eq c
      simp [Utf8.encode, hc, Item.byte?] at hmap
    | escapes digits' hbytes' =>
      rw [map_byte?_item, hbytes',
        List.prefix_map_iff_of_injective fun _ _ => Option.some.inj] at hmap
      have hbegins : [c] <+: [d] := Utf8.prefixCode_encodeChar.flatMap_prefix_iff.1 hmap
      exact (List.cons_prefix_cons.1 hbegins).1

/-- No spelling of a character begins a spelling of another one. -/
theorem Spelling.eq_of_begins {k : Component} {c d : Char} {s t : Text} (h : k.Spelling c s)
    (h' : k.Spelling d t) (hbegin : s <+: t) : c = d := by
  obtain ⟨items, hreads, hcut⟩ := h.exists_items
  obtain ⟨others, hreads', hcut'⟩ := h'.exists_items
  obtain ⟨rest, rfl⟩ := hbegin
  have hothers := hcut' []
  rw [List.append_nil, hcut] at hothers
  refine hreads.eq_of_begins hreads' ⟨Escape.items rest, ?_⟩
  simpa [Escape.items] using hothers

/-- The encoder writes each character in a correct way. -/
theorem spelling_code (k : Component) (c : Char) : k.Spelling c (k.code c) := by
  rw [code]
  split_ifs with hallows hspace
  · have hpercent : c ≠ '%' := fun heq => by rw [heq, allows_percent] at hallows; cases hallows
    exact .plain hpercent (ne_plus_of_allows hallows)
  · exact .plus hspace.1 hspace.2
  · have hdigits : Escape.ofChar c =
        ((Utf8.encode [c]).map Digits.ofByte).flatMap Digits.text := by
      rw [List.flatMap_map]
      rfl
    rw [hdigits]
    refine .escaped _ ?_
    rw [List.map_map]
    exact List.map_id'' Escape.byte_ofHexValue _

/-- What a component writes for characters is a prefix code. -/
theorem prefixCode_code (k : Component) : PrefixCode k.code where
  ne_nil c := by
    have hlength : (Text.unitsOf c).length ≤ (k.code c).length := k.length_units_le (.char c)
    exact List.ne_nil_of_length_pos <|
      Nat.lt_of_lt_of_le (List.length_pos_of_ne_nil (Text.prefixCode_unitsOf.ne_nil c)) hlength
  eq_of_begins := fun {c d} => (k.spelling_code c).eq_of_begins (k.spelling_code d)

/-- The characters of a text are encoded one by one. -/
theorem encode_ofChars (k : Component) (cs : List Char) :
    k.encode (Text.ofChars cs) = .ok (cs.flatMap k.code) := by
  rw [encode, Text.firstUnpaired_ofChars, Text.toChars_ofChars]

/-- Values without unpaired surrogates are encoded one after the other, and one encoded value is the
beginning of another, or the same, exactly if the values are. -/
theorem encode_append_injective (k : Component) {v w : Text} (hv : v.firstUnpaired = none)
    (hw : w.firstUnpaired = none) :
    ∃ x y, k.encode v = .ok x ∧ k.encode w = .ok y ∧ k.encode (v ++ w) = .ok (x ++ y) ∧
      (x <+: y ↔ v <+: w) ∧ (x = y ↔ v = w) := by
  obtain ⟨cs, rfl⟩ : ∃ cs, Text.ofChars cs = v := ⟨_, Text.ofChars_toChars hv⟩
  obtain ⟨ds, rfl⟩ : ∃ ds, Text.ofChars ds = w := ⟨_, Text.ofChars_toChars hw⟩
  have hcode := k.prefixCode_code
  have hunits := Text.prefixCode_unitsOf
  refine ⟨_, _, k.encode_ofChars cs, k.encode_ofChars ds, ?_, ?_, ?_⟩
  · rw [← Text.ofChars_append, encode_ofChars, List.flatMap_append]
  · exact hcode.flatMap_prefix_iff.trans hunits.flatMap_prefix_iff.symm
  · exact hcode.flatMap_eq_iff.trans hunits.flatMap_eq_iff.symm

/-- Query parameters of a character above `U+FFFF` and a space, and of a plus sign and a digit. -/
theorem encode_append_plus :
    Text.firstUnpaired (Text.ofChars [Char.ofNat 0x1F600, ' ']) = none ∧
      Text.firstUnpaired "+1" = none ∧
      queryParam.encode (Text.ofChars [Char.ofNat 0x1F600, ' ']) = .ok "%F0%9F%98%80+" ∧
      queryParam.encode "+1" = .ok "%2B1" ∧
      queryParam.encode (Text.ofChars [Char.ofNat 0x1F600, ' '] ++ "+1") =
        .ok ("%F0%9F%98%80+" ++ "%2B1") ∧
      ¬ (↑"%F0%9F%98%80+" : Text) <+: "%2B1" ∧ (↑"%F0%9F%98%80+" : Text) ≠ "%2B1" := by
  have hv : Text.firstUnpaired (Text.ofChars [Char.ofNat 0x1F600, ' ']) = none := by decide
  have hw : Text.firstUnpaired "+1" = none := by decide
  have hdiffer : ¬ Text.ofChars [Char.ofNat 0x1F600, ' '] <+: "+1" := by decide
  have hfirst : queryParam.encode (Text.ofChars [Char.ofNat 0x1F600, ' ']) =
      .ok "%F0%9F%98%80+" := by
    rw [encode_ofChars]
    exact congrArg Except.ok (by decide +kernel)
  have hsecond : queryParam.encode "+1" = .ok "%2B1" := by rfl
  obtain ⟨x, y, hx, hy, hxy, hbegins, hsame⟩ := encode_append_injective queryParam hv hw
  obtain rfl := Except.ok.inj (hx.symm.trans hfirst)
  obtain rfl := Except.ok.inj (hy.symm.trans hsecond)
  exact ⟨hv, hw, hx, hy, hxy, fun h => hdiffer (hbegins.1 h),
    fun h => hdiffer (hsame.1 h ▸ List.prefix_refl _)⟩

end Component

end UriRouting
