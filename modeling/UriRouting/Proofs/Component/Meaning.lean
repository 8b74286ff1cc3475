import UriRouting.Proofs.Component.Positions
import UriRouting.Proofs.Component.Reencoding
import Mathlib.Data.List.Infix

/-!
# The meaning of a partly encoded value

Encoding with the escapes kept writes the characters between two runs of escapes as escapes where
the component does not allow them, and so joins the runs. The runs may be ill-formed or truncated
UTF-8; since a character cuts off whatever sequence is open before it, the joined run is still read
as the texts of its parts (`runText_append`), unless a byte order mark is involved, which is dropped
only at the start of a run. So what is decoded afterwards is what was decoded before
(`decode_contextualEncode`).
-/

namespace UriRouting

open scoped CodeUnit

namespace Escape

/-- The byte of an escape. -/
def Item.byte? : Item → Option UInt8
  | escape high low => some (byte high low)
  | char _ => none
  | unpaired _ => none

end Escape

namespace Component

open Escape (Digits Item)

/-- The bytes of a byte order mark stand side by side in the run that is open and the escapes behind
it. -/
def MarkInRow (run : List UInt8) (items : List Item) : Prop :=
  (String.utf8EncodeChar Utf8.mark).map some <:+: run.map some ++ items.map Item.byte?

/-- An escape extends the run that is open. -/
theorem markInRow_escape (run : List UInt8) (high low : CodeUnit) (rest : List Item) :
    MarkInRow run (.escape high low :: rest) ↔ MarkInRow (run ++ [Escape.byte high low]) rest := by
  simp [MarkInRow, Item.byte?]

/-- A mark in the items behind a run and an item is one in all of them. -/
theorem MarkInRow.cons {items : List Item} (h : MarkInRow [] items) (run : List UInt8)
    (item : Item) : MarkInRow run (item :: items) := by
  rw [MarkInRow, List.map_nil, List.nil_append] at h
  rw [MarkInRow, List.map_cons]
  exact h.trans (((List.suffix_cons _ _).trans (List.suffix_append _ _)).isInfix)

/-- A mark at the start of a run is one in a row. -/
theorem markInRow_of_marked {run : List UInt8} (h : Utf8.Marked run)
    (items : List Item) : MarkInRow run items :=
  ((h.map some).trans (List.prefix_append _ _)).isInfix

/-- A run that does not begin with a mark is read as UTF-8. -/
theorem runText_of_not_marked {bytes : List UInt8}
    (h : ¬ Utf8.Marked bytes) :
    runText bytes = Text.ofChars (Utf8.decode bytes) := by
  rw [runText, Utf8.dropMark_of_not_marked h]

/-- A run with a character in its middle is read as what stands before it, the character and what
stands behind it. -/
theorem runText_append {bytes rest : List UInt8} {c : Char}
    (hbytes : ¬ Utf8.Marked bytes) (hc : c ≠ Utf8.mark)
    (hrest : ¬ Utf8.Marked rest) :
    runText (bytes ++ (String.utf8EncodeChar c ++ rest)) =
      runText bytes ++ Text.unitsOf c ++ runText rest := by
  rw [runText_of_not_marked (Utf8.not_marked_append hbytes hc rest),
    runText_of_not_marked hbytes, runText_of_not_marked hrest, Utf8.decode,
    Utf8.decodeFrom_append_encodeChar (by simp [Utf8.ExpectsTail])]
  simp [Text.ofChars, Utf8.decode]

/-- Bytes that are read as a text at the start of a run, whatever follows but a byte order mark. -/
def ReadsAs (bytes : List UInt8) (text : Text) : Prop :=
  ∀ rest, ¬ Utf8.Marked rest →
    runText (bytes ++ rest) = text ++ runText rest

/-- No bytes are read as no text. -/
theorem readsAs_nil : ReadsAs [] [] := fun _ _ => rfl

/-- A run and a character behind it are read in this way, also behind other bytes that are. -/
theorem ReadsAs.append {bytes run : List UInt8} {text : Text} {c : Char} (h : ReadsAs bytes text)
    (hrun : ¬ Utf8.Marked run) (hc : c ≠ Utf8.mark) :
    ReadsAs (bytes ++ run ++ String.utf8EncodeChar c) (text ++ runText run ++ Text.unitsOf c) := by
  intro rest hrest
  rw [List.append_assoc, List.append_assoc, h _ (Utf8.not_marked_append hrun hc rest),
    runText_append hrun hc hrest]
  simp

/-- Encoded items are read as the items are, also behind bytes that join the run that is open. -/
theorem decodeItems_contextualItems {k : Component} (hkind : k ≠ queryParam)
    {bytes run : List UInt8} {text : Text} {items : List Item} (hbytes : ReadsAs bytes text)
    (hrow : ¬ MarkInRow run items) (hmark : Item.char Utf8.mark ∉ items) :
    k.decodeItems (bytes ++ run).reverse (items.flatMap k.contextualItems) =
      text ++ k.decodeItems run.reverse items := by
  have plain (c : Char) : k.plainText c = Text.unitsOf c := if_neg fun h => hkind h.2
  induction items generalizing bytes run text with
  | nil =>
    have hrun : ¬ Utf8.Marked run := fun h => hrow (markInRow_of_marked h [])
    simpa [decodeItems] using hbytes run hrun
  | cons item rest ih =>
    have hrun : ¬ Utf8.Marked run := fun h => hrow (markInRow_of_marked h _)
    have hrow' : ¬ MarkInRow [] rest := fun h => hrow (h.cons run item)
    rw [List.mem_cons, not_or] at hmark
    have hrest : k.decodeItems [] (rest.flatMap k.contextualItems) = k.decodeItems [] rest :=
      ih readsAs_nil hrow' hmark.2
    rw [List.flatMap_cons]
    cases item with
    | escape high low =>
      rw [markInRow_escape] at hrow
      have hnext := ih hbytes hrow hmark.2
      simpa [contextualItems, decodeItems] using hnext
    | unpaired u =>
      rw [contextualItems, List.singleton_append, decodeItems, decodeItems, List.reverse_reverse,
        List.reverse_reverse, hbytes run hrun, hrest, List.append_assoc]
    | char c =>
      by_cases hallows : k.allows c = true
      · rw [contextualItems, codeItems, if_pos hallows, List.singleton_append, decodeItems,
          decodeItems, List.reverse_reverse, List.reverse_reverse, hbytes run hrun, hrest]
        simp
      · have hc : c ≠ Utf8.mark := fun heq => hmark.1 (heq ▸ rfl)
        have hnext := ih (hbytes.append hrun hc) hrow' hmark.2
        rw [contextualItems, codeItems, if_neg hallows, if_neg fun h => hkind h.2,
          decodeItems_ofByte, decodeItems, plain, List.reverse_reverse]
        simpa [Utf8.encode] using hnext

/-- What items are written as holds no stray percent sign. -/
theorem firstStray_contextualItems (k : Component) (items : List Item) :
    Escape.firstStray (items.flatMap k.contextualItems) = none := by
  rw [Escape.firstStray_eq_none_iff]
  intro hmem
  obtain ⟨item, -, hitem⟩ := List.mem_flatMap.1 hmem
  cases item with
  | escape high low => simp [contextualItems] at hitem
  | unpaired u => simp [contextualItems] at hitem
  | char c =>
    have hcode := k.firstStray_codeItems [c]
    rw [Escape.firstStray_eq_none_iff, List.flatMap_singleton] at hcode
    exact hcode hitem

/-- Items that are the escapes of some bytes have their digits. -/
theorem exists_digits {items : List Item} {bytes : List UInt8}
    (hitems : ∀ item ∈ items, (∃ d : Digits, item = d.item) ∨ ∃ c, item = .char c)
    (h : items.map Item.byte? = bytes.map some) :
    ∃ digits : List Digits, items = digits.map Digits.item ∧ digits.map Digits.byte = bytes := by
  induction items generalizing bytes with
  | nil => exact ⟨[], rfl, (List.map_eq_nil_iff.1 h.symm).symm⟩
  | cons item rest ih =>
    obtain ⟨b, more, rfl, hb, hmore⟩ := List.map_eq_cons_iff.1 h.symm
    rw [List.forall_mem_cons] at hitems
    obtain ⟨digits, rfl, rfl⟩ := ih hitems.2 hmore.symm
    rcases hitems.1 with ⟨d, rfl⟩ | ⟨c, rfl⟩
    · exact ⟨d :: digits, rfl, by rw [List.map_cons, Option.some.inj hb]; rfl⟩
    · cases hb

/-- Where the bytes of a mark stand in a row among the items of a value, their escapes stand in a
row in the value. -/
theorem exists_infix_of_markInRow {value : Text} (hpaired : value.firstUnpaired = none)
    (h : MarkInRow [] (Escape.items value)) :
    ∃ digits : List Digits, digits.map Digits.byte = Utf8.encode [Utf8.mark] ∧
      digits.flatMap Digits.text <:+: value := by
  obtain ⟨front, back, hsplit⟩ := h
  rw [List.map_nil, List.nil_append] at hsplit
  obtain ⟨before, after, hitems, hbefore, -⟩ := List.map_eq_append_iff.1 hsplit.symm
  obtain ⟨outer, escapes, rfl, -, hescapes⟩ := List.map_eq_append_iff.1 hbefore
  obtain ⟨digits, rfl, hbytes⟩ := exists_digits (fun item hitem => Escape.mem_items_cases hpaired
    (by rw [hitems]; simp [hitem])) hescapes
  refine ⟨digits, by rw [hbytes]; rfl, outer.flatMap Item.units, after.flatMap Item.units, ?_⟩
  rw [← Escape.units_items value, hitems, List.flatMap_append, List.flatMap_append,
    List.flatMap_map]
  rfl

/-- Keeping the escapes, the encoder does not change what a value is decoded as, if every percent
sign of the value begins an escape and the value holds no byte order mark, neither as a unit nor as
escapes of its bytes. The escapes may be those of any other bytes. Query parameters are left out:
there a plus sign is decoded as a space and is encoded as an escape. -/
theorem decode_contextualEncode {k : Component} (hkind : k ≠ queryParam) {value : Text}
    (hpaired : value.firstUnpaired = none)
    (hescapes : ∀ rest, rest <:+ value → rest.head? = some ('%' : CodeUnit) →
      Escape.startsEscape rest = true)
    (hmark : (0xFEFF : CodeUnit) ∉ value)
    (hrow : ∀ digits : List Digits, digits.map Digits.byte = Utf8.encode [Utf8.mark] →
      ¬ digits.flatMap Digits.text <:+: value) :
    ∃ encoded text, k.contextualEncode value = .ok encoded ∧ k.decode value = .ok text ∧
      k.decode encoded = .ok text := by
  have hencoded : k.contextualEncode value =
      .ok ((Escape.items value).flatMap k.contextualCode) := by
    rw [contextualEncode, hpaired]
  have hitems := k.items_flatMap_contextualCode fun item => Escape.mem_items_cases hpaired
  have hstray := (Escape.firstStray_eq_none_iff _).2 (Escape.percent_not_mem_items hescapes)
  have hstray' := k.firstStray_contextualItems (Escape.items value)
  have hchar : Item.char Utf8.mark ∉ Escape.items value := by
    intro hmem
    apply hmark
    rw [← Escape.units_items value]
    exact List.mem_flatMap.2 ⟨_, hmem, List.mem_singleton.2 rfl⟩
  have hrow' : ¬ MarkInRow [] (Escape.items value) := by
    intro h
    obtain ⟨digits, hbytes, hinfix⟩ := exists_infix_of_markInRow hpaired h
    exact hrow digits hbytes hinfix
  refine ⟨_, _, hencoded, by rw [decode, hstray], ?_⟩
  rw [decode, hitems, hstray']
  exact congrArg Except.ok (decodeItems_contextualItems hkind readsAs_nil hrow' hchar)

/-- A path with an accented letter between the truncated first byte of another one and a stray
second byte: the three become one run, which is read as they were. -/
theorem decode_contextualEncode_truncated :
    Text.firstUnpaired "%C3\u00E9%A9" = none ∧ (0xFEFF : CodeUnit) ∉ (↑"%C3\u00E9%A9" : Text) ∧
      path.contextualEncode "%C3\u00E9%A9" = .ok "%C3%C3%A9%A9" ∧
      path.decode "%C3\u00E9%A9" = .ok "\uFFFD\u00E9\uFFFD" ∧
      path.decode "%C3%C3%A9%A9" = .ok "\uFFFD\u00E9\uFFFD" := by
  have hpaired : Text.firstUnpaired "%C3\u00E9%A9" = none := by decide
  have hmark : (0xFEFF : CodeUnit) ∉ (↑"%C3\u00E9%A9" : Text) := by decide
  have hescapes : ∀ rest ∈ List.tails (↑"%C3\u00E9%A9" : Text),
      rest.head? = some ('%' : CodeUnit) → Escape.startsEscape rest = true := by
    decide
  have hrow (digits : List Digits) (hbytes : digits.map Digits.byte = Utf8.encode [Utf8.mark]) :
      ¬ digits.flatMap Digits.text <:+: (↑"%C3\u00E9%A9" : Text) := by
    -- The escapes of a mark are longer than the value.
    intro hinfix
    have hlength : digits.length = 3 := by
      rw [← List.length_map Digits.byte, hbytes]
      rfl
    have htext : (digits.flatMap Digits.text).length = 9 := by
      simp [List.length_flatMap, Digits.text, List.map_const', hlength]
    have hle := hinfix.length_le
    rw [htext] at hle
    exact absurd hle (by decide)
  obtain ⟨encoded, text, hencoded, htext, hagain⟩ := decode_contextualEncode
    (show path ≠ queryParam by decide) hpaired
    (fun rest hrest => hescapes rest ((List.mem_tails ..).2 hrest)) hmark hrow
  have hwritten : path.contextualEncode "%C3\u00E9%A9" = .ok "%C3%C3%A9%A9" := by rfl
  have hread : path.decode "%C3\u00E9%A9" = .ok "\uFFFD\u00E9\uFFFD" := by rfl
  obtain rfl := Except.ok.inj (hencoded.symm.trans hwritten)
  obtain rfl := Except.ok.inj (htext.symm.trans hread)
  exact ⟨hpaired, hmark, hwritten, hread, hagain⟩

end Component

end UriRouting
