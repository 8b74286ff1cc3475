import UriRouting.Proofs.Component.Positions
import UriRouting.Proofs.Component.PrefixCode
import Mathlib.Data.Nat.Find
import Mathlib.Data.Set.List

/-!
# What stands between the escapes

A value can be divided into its escapes and the texts in front of, between and behind them
(`Division`). A division is complete if its escapes are all those that begin anywhere in the value;
every value has exactly one (`exists_complete`, `Complete.unique`). Encoding a value with its escapes
kept encodes the texts of this division and copies the escapes between them, so it is encoding as
such exactly if the value holds no escape (`contextualEncode_division`).
-/

namespace UriRouting

open scoped CodeUnit

namespace Escape

/-- A text without escapes. -/
def Free (t : Text) : Prop := ∀ i, ¬ EscapeAt t i

/-- The text of an escape shows its digits. -/
theorem Digits.eq_of_text_eq {d d' : Digits} (h : d.text = d'.text) : d = d' := by
  cases d
  cases d'
  obtain ⟨hhigh, hlow⟩ := List.cons.inj (List.cons.inj h).2
  cases hhigh
  cases hlow
  rfl

/-- What begins in front of a percent sign is an escape only if it ends there. -/
theorem startsEscape_append_percent (u : CodeUnit) (more rest : Text) :
    startsEscape (u :: (more ++ ('%' :: rest : Text))) = startsEscape (u :: more) := by
  rcases more with _ | ⟨v, _ | ⟨w, more⟩⟩
  · cases rest with
    | nil => rfl
    | cons v rest => exact (isEscape_percent u v).1
  · exact (isEscape_percent u v).2
  · rfl

/-- The escapes around an escape: those in front of it, itself, and those behind it. -/
theorem escapeAt_around (front : Text) (d : Digits) (back : Text) (i : Nat) :
    EscapeAt (front ++ (d.text ++ back)) i ↔
      EscapeAt front i ∨ i = front.length ∨
        ∃ j, EscapeAt back j ∧ j + (front ++ d.text).length = i := by
  have hlength : (front ++ d.text).length = front.length + 3 := List.length_append
  rw [hlength]
  obtain hlt | hle := Nat.lt_or_ge i front.length
  · have hfront : EscapeAt (front ++ (d.text ++ back)) i ↔ EscapeAt front i := by
      rw [EscapeAt, EscapeAt, List.drop_append_of_le_length (Nat.le_of_lt hlt),
        List.drop_eq_getElem_cons hlt]
      exact Eq.congr_left (startsEscape_append_percent _ _ _)
    rw [hfront, or_iff_left]
    rintro (rfl | ⟨j, -, rfl⟩) <;> omega
  · have hbehind : ¬ EscapeAt front i := fun h => absurd h.lt_length (Nat.not_lt.2 hle)
    obtain ⟨k, rfl⟩ := Nat.exists_eq_add_of_le' hle
    rw [escapeAt_append, or_iff_right hbehind]
    -- The second and the third unit of the escape are digits, and none begins there.
    have hdigit (u : CodeUnit) (hu : CodeUnit.isHexDigit u = true) (j : Nat)
        (hj : (d.text ++ back)[j]? = some u) : ¬ EscapeAt (d.text ++ back) j := fun h =>
      ne_percent_of_isHexDigit hu (Option.some.inj (hj.symm.trans h.getElem?))
    obtain hinside | hafter := Nat.lt_or_ge k 3
    · obtain rfl | rfl | rfl : k = 0 ∨ k = 1 ∨ k = 2 := by omega
      · exact iff_of_true (startsEscape_iff.2 ⟨d, back, rfl⟩) (.inl (Nat.zero_add _))
      · refine iff_of_false (hdigit d.high d.isHexDigit_high 1 rfl) ?_
        rintro (h | ⟨j, -, h⟩) <;> omega
      · refine iff_of_false (hdigit d.low d.isHexDigit_low 2 rfl) ?_
        rintro (h | ⟨j, -, h⟩) <;> omega
    · obtain ⟨m, rfl⟩ := Nat.exists_eq_add_of_le' hafter
      refine (escapeAt_append d.text back m).trans ⟨fun h => .inr ⟨m, h, by omega⟩, ?_⟩
      rintro (h | ⟨j, hj, h⟩)
      · omega
      · obtain rfl : j = m := by omega
        exact hj

end Escape

open Escape (Digits Item EscapeAt)

/-- A text in front of an escape and what stands behind it, or a last text. -/
inductive Division where
  | last (t : Text)
  | before (t : Text) (d : Digits) (rest : Division)

namespace Division

/-- The text that is divided. -/
def text : Division → Text
  | last t => t
  | before t d rest => t ++ (d.text ++ rest.text)

/-- The texts in front of, between and behind the escapes. -/
def texts : Division → List Text
  | last t => [t]
  | before t _ rest => t :: rest.texts

/-- The escapes. -/
def escapes : Division → List Digits
  | last _ => []
  | before _ d rest => d :: rest.escapes

/-- The positions of the escapes in the text. -/
def positions : Division → List Nat
  | last _ => []
  | before t d rest => t.length :: rest.positions.map (· + (t ++ d.text).length)

/-- The escapes are all those of the text. -/
def Complete (s : Division) : Prop := ∀ i, EscapeAt s.text i ↔ i ∈ s.positions

/-- Write something else for each of the texts. -/
def map (f : Text → Text) : Division → Division
  | last t => last (f t)
  | before t d rest => before (f t) d (rest.map f)

/-- The escapes stay. -/
theorem escapes_map (f : Text → Text) (s : Division) : (s.map f).escapes = s.escapes := by
  induction s with
  | last t => rfl
  | before t d rest ih => rw [map, escapes, escapes, ih]

/-- The texts are replaced one by one. -/
theorem texts_map (f : Text → Text) (s : Division) : (s.map f).texts = s.texts.map f := by
  induction s with
  | last t => rfl
  | before t d rest ih => rw [map, texts, texts, ih, List.map_cons]

/-- A single text is completely divided if it holds no escape. -/
theorem complete_last_iff {t : Text} : (last t).Complete ↔ Escape.Free t := by
  simp [Complete, positions, text, Escape.Free]

/-- A division into several texts is complete if the first text holds no escape and what stands
behind the first escape is completely divided. -/
theorem complete_before_iff {t : Text} {d : Digits} {rest : Division} :
    (before t d rest).Complete ↔ Escape.Free t ∧ rest.Complete := by
  have hlength : (t ++ d.text).length = t.length + 3 := List.length_append
  have hsplit (i : Nat) : EscapeAt (before t d rest).text i ↔ EscapeAt t i ∨ i = t.length ∨
      ∃ j, EscapeAt rest.text j ∧ j + (t ++ d.text).length = i :=
    Escape.escapeAt_around t d rest.text i
  have hpositions (i : Nat) : i ∈ (before t d rest).positions ↔ i = t.length ∨
      ∃ j, j ∈ rest.positions ∧ j + (t ++ d.text).length = i := by
    rw [positions, List.mem_cons, List.mem_map]
  constructor
  · intro h
    constructor
    · intro i hi
      have hlt := hi.lt_length
      obtain rfl | ⟨j, -, rfl⟩ := (hpositions i).1 ((h i).1 ((hsplit i).2 (.inl hi))) <;> omega
    · intro i
      have hbehind := h (i + (t ++ d.text).length)
      rw [hsplit, hpositions] at hbehind
      constructor
      · intro hi
        obtain heq | ⟨j, hj, heq⟩ := hbehind.1 (.inr (.inr ⟨i, hi, rfl⟩))
        · omega
        · obtain rfl : j = i := Nat.add_right_cancel heq
          exact hj
      · intro hi
        obtain hfront | heq | ⟨j, hj, heq⟩ := hbehind.2 (.inr ⟨i, hi, rfl⟩)
        · have hlt := hfront.lt_length
          omega
        · omega
        · obtain rfl : j = i := Nat.add_right_cancel heq
          exact hj
  · rintro ⟨hfree, hrest⟩ i
    rw [hsplit, hpositions, or_iff_right (hfree i)]
    simp only [hrest _]

/-- In a complete division none of the texts holds an escape. -/
theorem Complete.free {s : Division} (h : s.Complete) : ∀ t ∈ s.texts, Escape.Free t := by
  induction s with
  | last t => simpa [texts] using complete_last_iff.1 h
  | before t d rest ih =>
    obtain ⟨ht, hrest⟩ := complete_before_iff.1 h
    exact List.forall_mem_cons.2 ⟨ht, ih hrest⟩

/-- Every text has a complete division. -/
theorem exists_complete (t : Text) : ∃ s : Division, s.text = t ∧ s.Complete := by
  induction hlength : t.length using Nat.strong_induction_on generalizing t with
  | _ length ih =>
    subst hlength
    by_cases hfree : Escape.Free t
    · exact ⟨last t, rfl, complete_last_iff.2 hfree⟩
    · -- The first escape ends a text without escapes.
      have hescape : ∃ i, EscapeAt t i := Classical.not_forall_not.1 hfree
      let first := Nat.find hescape
      obtain ⟨d, back, ht, hfirst⟩ := (Nat.find_spec hescape).exists_append
      have hfront : Escape.Free (t.take first) := by
        intro i hi
        have hmin := Nat.find_min hescape (hi.lt_length.trans_eq hfirst)
        rw [ht] at hmin
        exact hmin ((Escape.escapeAt_around _ d back i).2 (.inl hi))
      have hshorter : back.length < t.length := by
        rw [ht, List.length_append, List.length_append]
        exact Nat.lt_of_lt_of_le (Nat.lt_add_of_pos_left (Nat.succ_pos 2)) (Nat.le_add_left _ _)
      obtain ⟨rest, rfl, hrest⟩ := ih _ hshorter back rfl
      exact ⟨before (t.take first) d rest, ht.symm, complete_before_iff.2 ⟨hfront, hrest⟩⟩

/-- Of complete divisions of one text there is only one. -/
theorem Complete.unique {s s' : Division} (h : s.Complete) (h' : s'.Complete)
    (htext : s.text = s'.text) : s = s' := by
  -- In a complete division no escape begins before the first one that it names.
  have first_le {t : Text} {d : Digits} {rest : Division} {i : Nat}
      (hcomplete : (before t d rest).Complete) (hi : EscapeAt (before t d rest).text i) :
      t.length ≤ i := by
    have hposition := (hcomplete i).1 hi
    rw [positions, List.mem_cons, List.mem_map] at hposition
    obtain rfl | ⟨j, -, rfl⟩ := hposition
    · exact Nat.le_refl _
    · rw [List.length_append]
      omega
  have escapeAt_first {t : Text} {d : Digits} {rest : Division}
      (hcomplete : (before t d rest).Complete) : EscapeAt (before t d rest).text t.length :=
    (hcomplete _).2 List.mem_cons_self
  induction s generalizing s' with
  | last t =>
    cases s' with
    | last t' => rw [show t = t' from htext]
    | before t' d' rest' =>
      have hescape := escapeAt_first h'
      rw [← htext] at hescape
      exact absurd ((h _).1 hescape) List.not_mem_nil
  | before t d rest ih =>
    cases s' with
    | last t' =>
      have hescape := escapeAt_first h
      rw [htext] at hescape
      exact absurd ((h' _).1 hescape) List.not_mem_nil
    | before t' d' rest' =>
      have hle : t'.length ≤ t.length := first_le h' (htext ▸ escapeAt_first h)
      have hge : t.length ≤ t'.length := first_le h (htext ▸ escapeAt_first h')
      obtain ⟨rfl, hbehind⟩ := List.append_inj htext (Nat.le_antisymm hge hle)
      obtain ⟨hdigits, hrest⟩ := List.append_inj hbehind rfl
      rw [Digits.eq_of_text_eq hdigits, ih (complete_before_iff.1 h).2 (complete_before_iff.1 h').2 hrest]

/-- The items of the texts are items of the whole. -/
theorem items_subset {s : Division} {t : Text} (ht : t ∈ s.texts) :
    Escape.items t ⊆ Escape.items s.text := by
  induction s with
  | last t' =>
    obtain rfl := List.mem_singleton.1 ht
    exact List.Subset.refl _
  | before t' d rest ih =>
    rw [text, Escape.items_append_digits]
    obtain rfl | ht := List.mem_cons.1 ht
    · exact List.subset_append_left _ _
    · intro item hitem
      exact List.mem_append_right _ (List.mem_cons_of_mem _ (ih ht hitem))

end Division

namespace Component

/-- A text of which all items are characters is the text of these. -/
theorem exists_chars {t : Text} (h : ∀ item ∈ Escape.items t, ∃ c, item = .char c) :
    ∃ cs : List Char, Escape.items t = cs.map Item.char ∧ t = Text.ofChars cs := by
  have hrange : Escape.items t ∈ Set.range (List.map Item.char) := by
    rw [Set.range_list_map]
    intro item hitem
    obtain ⟨c, rfl⟩ := h item hitem
    exact ⟨c, rfl⟩
  obtain ⟨cs, hcs⟩ := hrange
  refine ⟨cs, hcs.symm, ?_⟩
  rw [← Escape.units_items t, ← hcs, List.flatMap_map]
  rfl

/-- What a divided text is written as: the escapes, and what the texts between them are written
as. -/
theorem flatMap_contextualCode_text (k : Component) (s : Division) :
    (Escape.items s.text).flatMap k.contextualCode =
      (s.map fun t => (Escape.items t).flatMap k.contextualCode).text := by
  induction s with
  | last t => rfl
  | before t d rest ih =>
    rw [Division.text, Escape.items_append_digits, List.flatMap_append, List.flatMap_cons, ih]
    rfl

section

variable (k : Component) {t : Text}
  (hitems : ∀ item ∈ Escape.items t, (∃ d : Digits, item = d.item) ∨ ∃ c, item = .char c)

include hitems

/-- A text without escapes is encoded character by character. -/
theorem encode_of_free (hfree : Escape.Free t) :
    k.encode t = .ok ((Escape.items t).flatMap k.contextualCode) := by
  have hchars : ∀ item ∈ Escape.items t, ∃ c, item = .char c := by
    intro item hitem
    obtain ⟨d, rfl⟩ | hchar := hitems item hitem
    · obtain ⟨i, hi⟩ := Escape.exists_escapeAt_iff.2 ⟨d, hitem⟩
      exact absurd hi (hfree i)
    · exact hchar
  obtain ⟨cs, hcs, rfl⟩ := exists_chars hchars
  rw [encode_ofChars, hcs, List.flatMap_map]
  rfl

/-- Encoding writes the units of an escape like those of any other text. -/
theorem encode_eq_flatMap_items :
    k.encode t = .ok ((Escape.items t).flatMap fun item => item.units.toChars.flatMap k.code) := by
  have hpaired : ∀ item ∈ Escape.items t, item.units.firstUnpaired = none := by
    intro item hitem
    obtain ⟨d, rfl⟩ | ⟨c, rfl⟩ := hitems item hitem
    · exact Text.firstUnpaired_of_no_surrogate fun u hu =>
        isSurrogate_of_writes (k.writes_digits d u hu)
    · have hchar := Text.firstUnpaired_ofChars [c]
      rwa [Text.ofChars, List.flatMap_singleton] at hchar
  have hchars : t = Text.ofChars ((Escape.items t).flatMap fun item => item.units.toChars) :=
    calc t = (Escape.items t).flatMap Item.units := (Escape.units_items t).symm
      _ = (Escape.items t).flatMap fun item => Text.ofChars item.units.toChars :=
          List.flatMap_congr fun item hitem => (Text.ofChars_toChars (hpaired item hitem)).symm
      _ = _ := List.flatMap_assoc.symm
  calc k.encode t
      = k.encode (Text.ofChars ((Escape.items t).flatMap fun item => item.units.toChars)) :=
        congrArg k.encode hchars
    _ = _ := by rw [encode_ofChars, List.flatMap_assoc]

end

/-- An escape gets longer when its percent sign is escaped. -/
theorem length_text_lt (k : Component) (d : Digits) :
    d.text.length < (d.text.toChars.flatMap k.code).length := by
  have hhigh := CodeUnit.isSurrogate_of_isHexDigit d.isHexDigit_high
  have hlow := CodeUnit.isSurrogate_of_isHexDigit d.isHexDigit_low
  have hchars : d.text.toChars =
      ['%', Char.ofNat d.high.toNat, Char.ofNat d.low.toNat] := by
    have hfirst : d.text.toChars = '%' :: Text.toChars [d.high, d.low] :=
      Text.toChars_unitsOf_append '%' [d.high, d.low]
    rw [hfirst, Text.toChars, if_neg (Bool.eq_false_iff.1 (Text.isPair_eq_false hhigh _)),
      Text.toChars, Text.unitChar, Text.unitChar, hhigh, hlow]
    rfl
  have hpercent : (k.code '%').length = 3 := by
    rw [code, k.allows_percent]
    rfl
  have hpos := List.length_pos_of_ne_nil (k.prefixCode_code.ne_nil (Char.ofNat d.high.toNat))
  rw [hchars, List.flatMap_cons, List.flatMap_cons, List.length_append, List.length_append, hpercent]
  change 3 < _
  omega

/-- Keeping the escapes makes no difference exactly if there are none. -/
theorem contextualEncode_eq_encode_iff (k : Component) {value : Text}
    (h : value.firstUnpaired = none) :
    k.contextualEncode value = k.encode value ↔ Escape.Free value := by
  have hitems : ∀ item ∈ Escape.items value, (∃ d : Digits, item = d.item) ∨ ∃ c, item = .char c :=
    fun _ => Escape.mem_items_cases h
  have hkept : k.contextualEncode value =
      .ok ((Escape.items value).flatMap k.contextualCode) := by
    rw [contextualEncode, h]
  have hle : ∀ item ∈ Escape.items value,
      (k.contextualCode item).length ≤ (item.units.toChars.flatMap k.code).length := by
    intro item hitem
    obtain ⟨d, rfl⟩ | ⟨c, rfl⟩ := hitems item hitem
    · exact Nat.le_of_lt (k.length_text_lt d)
    · have hchar := Text.toChars_ofChars [c]
      rw [Text.ofChars, List.flatMap_singleton] at hchar
      rw [Item.units, hchar, List.flatMap_singleton]
      exact Nat.le_refl _
  constructor
  · intro heq i hi
    rw [hkept, k.encode_eq_flatMap_items hitems, Except.ok.injEq, flatMap_eq_flatMap_iff hle] at heq
    obtain ⟨d, hd⟩ := Escape.exists_escapeAt_iff.1 ⟨i, hi⟩
    have hlength := congrArg List.length (heq _ hd)
    exact absurd hlength (Nat.ne_of_lt (k.length_text_lt d))
  · intro hfree
    rw [hkept, k.encode_of_free hitems hfree]

/-- A value without unpaired surrogates has one complete division, that is one whose escapes are all
those of the value. Keeping the escapes, it is written as these escapes with what its texts are
encoded as between them. This is what it is encoded as exactly if it holds no escape. -/
theorem contextualEncode_division (k : Component) {value : Text} (h : value.firstUnpaired = none) :
    ∃ s written : Division, s.text = value ∧ s.Complete ∧
      (∀ other : Division, other.text = value → other.Complete → other = s) ∧
      written.escapes = s.escapes ∧
      List.Forall₂ (fun t encoded => k.encode t = .ok encoded) s.texts written.texts ∧
      k.contextualEncode value = .ok written.text ∧
      (k.contextualEncode value = k.encode value ↔ ∀ i, ¬ EscapeAt value i) := by
  obtain ⟨s, rfl, hcomplete⟩ := Division.exists_complete value
  let write (t : Text) : Text := (Escape.items t).flatMap k.contextualCode
  refine ⟨s, s.map write, rfl, hcomplete, fun other htext hother => hother.unique hcomplete htext,
    s.escapes_map write, ?_, ?_, k.contextualEncode_eq_encode_iff h⟩
  · rw [s.texts_map, List.forall₂_map_right_iff, List.forall₂_same]
    intro t ht
    exact k.encode_of_free
      (fun item hitem => Escape.mem_items_cases h (Division.items_subset ht hitem))
      (hcomplete.free t ht)
  · rw [contextualEncode, h, ← flatMap_contextualCode_text]

/-- A query of two stray percent signs, one of them in front of a digit, with two escapes and a space
behind them. -/
theorem contextualEncode_division_stray :
    Text.firstUnpaired "%%4%c3%A9 b" = none ∧
      (∃ s written : Division, s.text = "%%4%c3%A9 b" ∧ s.Complete ∧ written.escapes = s.escapes ∧
        List.Forall₂ (fun t encoded => query.encode t = .ok encoded) s.texts written.texts ∧
        written.text = "%25%254%c3%A9%20b") ∧
      query.contextualEncode "%%4%c3%A9 b" ≠ query.encode "%%4%c3%A9 b" := by
  have hpaired : Text.firstUnpaired "%%4%c3%A9 b" = none := by decide
  have hescape : EscapeAt "%%4%c3%A9 b" 3 := by decide
  have hwritten : query.contextualEncode "%%4%c3%A9 b" = .ok "%25%254%c3%A9%20b" := by rfl
  obtain ⟨s, written, htext, hcomplete, -, hescapes, htexts, hkept, hsame⟩ :=
    contextualEncode_division query hpaired
  have hresult := Except.ok.inj (hkept.symm.trans hwritten)
  exact ⟨hpaired, ⟨s, written, htext, hcomplete, hescapes, htexts, hresult⟩,
    fun heq => hsame.1 heq 3 hescape⟩

end Component

end UriRouting
