import UriRouting.Proofs.Component.RoundTrip
import Mathlib.Data.List.Forall2

/-!
# The spellings of a component

A value can be spelled in a component in many ways: each character as itself or as the escapes of its
bytes, with digits of either case, and a space of a query parameter as a plus sign as well
(`Spelling`). Decoding reads all of them as the value (`decode_of_spelling`), wherever literal and
escaped characters alternate: a run of escapes ends between two characters, so its bytes are whole
characters and are read as these.
-/

namespace UriRouting

open scoped CodeUnit

namespace Component

open Escape (Digits Item)

/-- A correct way to write a character in a component. A percent sign does not stand for itself, and
neither does a plus sign in a query parameter. -/
inductive Spelling (k : Component) (c : Char) : Text → Prop
  | plain (hpercent : c ≠ '%') (hplus : ¬ (c = '+' ∧ k = queryParam)) : Spelling k c (Text.unitsOf c)
  | escaped (digits : List Digits) (hbytes : digits.map Digits.byte = Utf8.encode [c]) :
      Spelling k c (digits.flatMap Digits.text)
  | plus (hspace : c = ' ') (hkind : k = queryParam) : Spelling k c ['+']

/-- Other characters than the byte order mark are not lost at the start of a run. -/
theorem afterMark_of_not_mem {run : List Char} (h : Utf8.mark ∉ run) : Utf8.afterMark run = run := by
  cases run with
  | nil => rfl
  | cons c rest =>
    rw [List.mem_cons, not_or] at h
    rw [Utf8.afterMark, if_neg (Ne.symm h.1)]

/-- The items of a spelling: a character that is read as the one that is spelled, or the escapes of
its bytes. -/
inductive Reads (k : Component) (c : Char) : List Item → Prop
  | char {d : Char} (hpercent : d ≠ '%') (hread : k.plainText d = Text.unitsOf c) :
      Reads k c [.char d]
  | escapes (digits : List Digits) (hbytes : digits.map Digits.byte = Utf8.encode [c]) :
      Reads k c (digits.map Digits.item)

/-- A spelling is cut off whatever follows. -/
theorem Spelling.exists_items {k : Component} {c : Char} {text : Text} (h : k.Spelling c text) :
    ∃ items, k.Reads c items ∧ ∀ rest, Escape.items (text ++ rest) = items ++ Escape.items rest := by
  cases h with
  | plain hpercent hplus =>
    exact ⟨_, .char hpercent (if_neg hplus), Escape.items_unitsOf_append hpercent⟩
  | escaped digits hbytes => exact ⟨_, .escapes digits hbytes, Escape.items_digits digits⟩
  | plus hspace hkind =>
    refine ⟨[.char '+'], .char (by decide) ?_, Escape.items_unitsOf_append (c := '+') (by decide)⟩
    rw [plainText, if_pos ⟨rfl, hkind⟩, hspace]
    rfl

/-- Spellings one after the other are cut into the items of each. -/
theorem exists_items_of_spellings {k : Component} {cs : List Char} {spellings : List Text}
    (h : List.Forall₂ k.Spelling cs spellings) :
    ∃ parts, List.Forall₂ k.Reads cs parts ∧ Escape.items spellings.flatten = parts.flatten := by
  induction h with
  | nil => exact ⟨[], .nil, rfl⟩
  | cons hfirst _ ih =>
    obtain ⟨items, hitems, hcut⟩ := hfirst.exists_items
    obtain ⟨parts, hparts, hrest⟩ := ih
    exact ⟨items :: parts, .cons hitems hparts, by rw [List.flatten_cons, hcut, hrest]; rfl⟩

/-- The items of a spelling hold no stray percent sign. -/
theorem Reads.not_mem {k : Component} {c : Char} {items : List Item} (h : k.Reads c items) :
    Item.char '%' ∉ items := by
  cases h with
  | char hpercent hread => simpa using Ne.symm hpercent
  | escapes digits hbytes => simp [Digits.item]

/-- The items of spellings are read as the characters behind those of the run that is open. -/
theorem decodeItems_of_reads {k : Component} {run cs : List Char} {parts : List (List Item)}
    (hrun : Utf8.mark ∉ run) (hmark : Utf8.mark ∉ cs) (h : List.Forall₂ k.Reads cs parts) :
    k.decodeItems (Utf8.encode run).reverse parts.flatten = Text.ofChars (run ++ cs) := by
  induction h generalizing run with
  | nil =>
    rw [List.flatten_nil, decodeItems, List.reverse_reverse, runText_encode,
      afterMark_of_not_mem hrun, List.append_nil]
  | @cons c items cs parts hfirst _ ih =>
    rw [List.mem_cons, not_or] at hmark
    rw [List.flatten_cons]
    cases hfirst with
    | char hpercent hread =>
      have hrest := ih (List.not_mem_nil) hmark.2
      change k.decodeItems [] parts.flatten = Text.ofChars cs at hrest
      rw [List.singleton_append, decodeItems, List.reverse_reverse, runText_encode,
        afterMark_of_not_mem hrun, hread, hrest]
      simp [Text.ofChars]
    | escapes digits hbytes =>
      have hextended : Utf8.mark ∉ run ++ [c] := by simp [hrun, hmark.1]
      rw [decodeItems_digits, hbytes, ← List.reverse_append, ← Utf8.encode_append,
        ih hextended hmark.2, List.append_assoc, List.singleton_append]

/-- Decoding reads every spelling of a value as the value, if the value has neither an unpaired
surrogate nor a byte order mark. -/
theorem decode_of_spelling (k : Component) {value : Text} {spellings : List Text}
    (hpaired : value.firstUnpaired = none) (hmark : (0xFEFF : CodeUnit) ∉ value)
    (h : List.Forall₂ k.Spelling value.toChars spellings) :
    k.decode spellings.flatten = .ok value := by
  have hchars : Utf8.mark ∉ value.toChars := by
    intro hmem
    apply hmark
    rw [← Text.ofChars_toChars hpaired]
    exact List.mem_flatMap.2 ⟨Utf8.mark, hmem, List.mem_singleton.2 rfl⟩
  obtain ⟨parts, hparts, hitems⟩ := exists_items_of_spellings h
  have hstray : Escape.firstStray (Escape.items spellings.flatten) = none := by
    rw [Escape.firstStray_eq_none_iff, hitems, List.mem_flatten]
    intro hmem
    obtain ⟨items, hmem, hpercent⟩ := hmem
    obtain ⟨i, hi, rfl⟩ := List.getElem_of_mem hmem
    exact (hparts.get (hparts.length_eq ▸ hi) hi).not_mem hpercent
  have hread := decodeItems_of_reads List.not_mem_nil hchars hparts
  rw [List.nil_append, Text.ofChars_toChars hpaired] at hread
  rw [decode, hstray, hitems]
  exact congrArg Except.ok hread

/-- A query parameter of two accented letters, a space, a plus sign and a letter: the first letter as
it is, the second as escapes of mixed case, the space as a plus sign. -/
theorem decode_of_spelling_accented :
    Text.firstUnpaired "\u00E9\u00E9 +x" = none ∧ (0xFEFF : CodeUnit) ∉ (↑"\u00E9\u00E9 +x" : Text) ∧
      queryParam.decode "\u00E9%c3%A9+%2Bx" = .ok "\u00E9\u00E9 +x" := by
  have hpaired : Text.firstUnpaired "\u00E9\u00E9 +x" = none := by decide
  have hmark : (0xFEFF : CodeUnit) ∉ (↑"\u00E9\u00E9 +x" : Text) := by decide
  have hspelled : List.Forall₂ queryParam.Spelling (Text.toChars "\u00E9\u00E9 +x")
      ["\u00E9", "%c3%A9", "+", "%2B", "x"] := by
    have hchars : Text.toChars "\u00E9\u00E9 +x" = ['\u00E9', '\u00E9', ' ', '+', 'x'] := by decide
    rw [hchars]
    refine .cons (.plain (by decide) (by decide)) (.cons ?_ (.cons (.plus rfl rfl) (.cons ?_
      (.cons (.plain (by decide) (by decide)) .nil))))
    · exact .escaped [⟨'c', '3', by decide, by decide⟩, ⟨'A', '9', by decide, by decide⟩] (by decide)
    · exact .escaped [⟨'2', 'B', by decide, by decide⟩] (by decide)
  have hread := decode_of_spelling queryParam hpaired hmark hspelled
  exact ⟨hpaired, hmark, hread⟩

end Component

end UriRouting
