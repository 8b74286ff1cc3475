import UriRouting.Component.Encoding
import UriRouting.Proofs.Text.Utf8

/-!
# Decoding what has been encoded

An encoded value is cut into the items of its characters: an allowed character is an item of its
own, a space of a query parameter is a plus sign, and every other character gives one escape for
each of its bytes (`items_flatMap_code`). Decoding reads each run of escapes as UTF-8 on its own and
drops a byte order mark at its start. So the encoder and the decoder are inverse to each other
exactly on the values in which every byte order mark stands behind another escaped character
(`decode_encode_iff`).
-/

namespace UriRouting

open scoped CodeUnit

namespace Escape

/-- The item of the escape of a byte. -/
def Item.ofByte (b : UInt8) : Item :=
  .escape (CodeUnit.ofHexValue (b.toNat / 16)) (CodeUnit.ofHexValue (b.toNat % 16))

/-- A value below sixteen is written as the digit that has it. -/
theorem hexValue_ofHexValue {n : Nat} (h : n < 16) :
    CodeUnit.isHexDigit (CodeUnit.ofHexValue n) = true ∧
      CodeUnit.hexValue (CodeUnit.ofHexValue n) = n := by
  have hall : ∀ n < 16, CodeUnit.isHexDigit (CodeUnit.ofHexValue n) = true ∧
      CodeUnit.hexValue (CodeUnit.ofHexValue n) = n := by
    decide
  exact hall n h

/-- The digits of the escape of a byte name that byte. -/
theorem byte_ofHexValue (b : UInt8) :
    byte (CodeUnit.ofHexValue (b.toNat / 16)) (CodeUnit.ofHexValue (b.toNat % 16)) = b := by
  have hb := b.toNat_lt
  rw [byte, (hexValue_ofHexValue (by omega)).2, (hexValue_ofHexValue (by omega)).2,
    Nat.div_add_mod', UInt8.ofNat_toNat]

/-- The two digits of an escape, of either case. -/
structure Digits where
  high : CodeUnit
  low : CodeUnit
  isHexDigit_high : CodeUnit.isHexDigit high = true
  isHexDigit_low : CodeUnit.isHexDigit low = true

namespace Digits

/-- The escape that is written with the digits. -/
def text (d : Digits) : Text := ['%', d.high, d.low]

/-- The item of the escape. -/
def item (d : Digits) : Item := .escape d.high d.low

/-- The byte that the digits name. -/
def byte (d : Digits) : UInt8 := Escape.byte d.high d.low

/-- The digits of a byte, of upper case. -/
def ofByte (b : UInt8) : Digits where
  high := CodeUnit.ofHexValue (b.toNat / 16)
  low := CodeUnit.ofHexValue (b.toNat % 16)
  isHexDigit_high := (hexValue_ofHexValue (by have := b.toNat_lt; omega)).1
  isHexDigit_low := (hexValue_ofHexValue (by omega)).1

end Digits

/-- Escapes one after the other are cut off whatever follows. -/
theorem items_digits (digits : List Digits) (rest : Text) :
    items (digits.flatMap Digits.text ++ rest) = digits.map Digits.item ++ items rest := by
  induction digits with
  | nil => rfl
  | cons d more ih =>
    rw [List.flatMap_cons, List.append_assoc, List.map_cons, List.cons_append, ← ih]
    exact items_escape d.isHexDigit_high d.isHexDigit_low _

/-- A text has no stray percent sign exactly if none of its items is one. -/
theorem firstStray_eq_none_iff (items : List Item) :
    firstStray items = none ↔ Item.char '%' ∉ items := by
  induction items with
  | nil => simp [firstStray]
  | cons item rest ih =>
    rw [List.mem_cons, not_or, ← ih]
    by_cases h : item = .char '%'
    · simp [firstStray, h]
    · rw [firstStray]
      · simp [Ne.symm h]
      · exact h

end Escape

namespace Component

open Escape (Item)

/-- A character that is written as the escapes of its bytes. -/
def Escapes (k : Component) (c : Char) : Prop :=
  k.allows c = false ∧ ¬ (c = ' ' ∧ k = queryParam)

instance (k : Component) (c : Char) : Decidable (k.Escapes c) := by
  unfold Escapes
  infer_instance

/-- The items that a character is written as. -/
def codeItems (k : Component) (c : Char) : List Item :=
  if k.allows c then [.char c]
  else if c = ' ' ∧ k = queryParam then [.char '+']
  else (Utf8.encode [c]).map Item.ofByte

/-- No component allows a percent sign. -/
theorem allows_percent (k : Component) : k.allows '%' = false := by
  cases k <;> decide

/-- A query parameter allows no plus sign. -/
theorem ne_plus_of_allows {k : Component} {c : Char} (h : k.allows c = true) :
    ¬ (c = '+' ∧ k = queryParam) := by
  rintro ⟨rfl, rfl⟩
  revert h
  decide

/-- The code of a character is cut off whatever follows. -/
theorem items_code_append (k : Component) (c : Char) (rest : Text) :
    Escape.items (k.code c ++ rest) = k.codeItems c ++ Escape.items rest := by
  rw [code, codeItems]
  split_ifs with hallows hspace
  · have hne : c ≠ '%' := fun h => by rw [h, allows_percent] at hallows; cases hallows
    exact Escape.items_unitsOf_append hne rest
  · exact Escape.items_unitsOf_append (c := '+') (by decide) rest
  · have hdigits := Escape.items_digits ((Utf8.encode [c]).map Escape.Digits.ofByte) rest
    rwa [List.flatMap_map, List.map_map] at hdigits

/-- The items of encoded characters are those of the characters, one after the other. -/
theorem items_flatMap_code (k : Component) (cs : List Char) :
    Escape.items (cs.flatMap k.code) = cs.flatMap k.codeItems := by
  induction cs with
  | nil => rfl
  | cons c rest ih => rw [List.flatMap_cons, List.flatMap_cons, items_code_append, ih]

/-- What has been encoded holds no stray percent sign. -/
theorem firstStray_codeItems (k : Component) (cs : List Char) :
    Escape.firstStray (cs.flatMap k.codeItems) = none := by
  rw [Escape.firstStray_eq_none_iff]
  intro hmem
  obtain ⟨c, -, hc⟩ := List.mem_flatMap.1 hmem
  rw [codeItems] at hc
  split_ifs at hc with hallows
  · obtain rfl : '%' = c := by simpa using hc
    rw [allows_percent] at hallows
    cases hallows
  · simp at hc
  · simp [Item.ofByte] at hc

/-- The text of a run of escapes is that of the characters behind a byte order mark at its start. -/
theorem runText_encode (cs : List Char) :
    runText (Utf8.encode cs) = Text.ofChars (Utf8.afterMark cs) := by
  rw [runText, Utf8.dropMark_encode, Utf8.decode_encode]

/-- Escapes extend the run that is open by their bytes. -/
theorem decodeItems_digits (k : Component) (run : List UInt8) (digits : List Escape.Digits)
    (rest : List Item) :
    k.decodeItems run (digits.map Escape.Digits.item ++ rest) =
      k.decodeItems ((digits.map Escape.Digits.byte).reverse ++ run) rest := by
  induction digits generalizing run with
  | nil => rfl
  | cons d more ih =>
    rw [List.map_cons, List.cons_append, Escape.Digits.item, decodeItems, ← Escape.Digits.byte, ih,
      List.map_cons, List.reverse_cons, List.append_assoc, List.singleton_append]

/-- The escapes of bytes extend the run that is open by the bytes. -/
theorem decodeItems_ofByte (k : Component) (run bytes : List UInt8) (rest : List Item) :
    k.decodeItems run (bytes.map Item.ofByte ++ rest) = k.decodeItems (bytes.reverse ++ run) rest := by
  induction bytes generalizing run with
  | nil => rfl
  | cons b more ih =>
    rw [List.map_cons, List.cons_append, Item.ofByte, decodeItems, Escape.byte_ofHexValue, ih,
      List.reverse_cons, List.append_assoc, List.singleton_append]

/-- A character that is written as escapes extends the run that is open. -/
theorem decodeItems_of_escapes {k : Component} {c : Char} (h : k.Escapes c) (run : List Char)
    (rest : List Item) :
    k.decodeItems (Utf8.encode run).reverse (k.codeItems c ++ rest) =
      k.decodeItems (Utf8.encode (run ++ [c])).reverse rest := by
  rw [codeItems, if_neg (Bool.eq_false_iff.1 h.1), if_neg h.2, decodeItems_ofByte,
    Utf8.encode_append, List.reverse_append]

/-- Any other character ends the run that is open and reads as itself. -/
theorem decodeItems_of_not_escapes {k : Component} {c : Char} (h : ¬ k.Escapes c)
    (run : List Char) (rest : List Item) :
    k.decodeItems (Utf8.encode run).reverse (k.codeItems c ++ rest) =
      Text.ofChars (Utf8.afterMark run ++ [c]) ++ k.decodeItems [] rest := by
  have hread (d : Char) : k.decodeItems (Utf8.encode run).reverse ([.char d] ++ rest) =
      Text.ofChars (Utf8.afterMark run) ++ k.plainText d ++ k.decodeItems [] rest := by
    rw [List.singleton_append, decodeItems, List.reverse_reverse, runText_encode]
  have hchars : Text.ofChars (Utf8.afterMark run ++ [c]) =
      Text.ofChars (Utf8.afterMark run) ++ Text.unitsOf c := by
    simp [Text.ofChars]
  rw [hchars, codeItems]
  split_ifs with hallows hspace
  · rw [hread, plainText, if_neg (ne_plus_of_allows hallows)]
  · rw [hread, plainText, if_pos ⟨rfl, hspace.2⟩, hspace.1]
    rfl
  · exact absurd ⟨Bool.eq_false_iff.2 hallows, hspace⟩ h

/-- The characters that are read back: a byte order mark is lost where it begins a run of characters
that are written as escapes. -/
def readBack (k : Component) : Bool → List Char → List Char
  | _, [] => []
  | inRun, c :: rest =>
    if k.Escapes c then
      if inRun = false ∧ c = Utf8.mark then readBack k true rest else c :: readBack k true rest
    else c :: readBack k false rest

/-- Decoding encoded characters behind a run reads the characters back. -/
theorem decodeItems_codeItems (k : Component) (run cs : List Char) :
    k.decodeItems (Utf8.encode run).reverse (cs.flatMap k.codeItems) =
      Text.ofChars (Utf8.afterMark run ++ k.readBack (!run.isEmpty) cs) := by
  induction cs generalizing run with
  | nil => rw [List.flatMap_nil, decodeItems, List.reverse_reverse, runText_encode, readBack,
      List.append_nil]
  | cons c rest ih =>
    rw [List.flatMap_cons, readBack]
    by_cases h : k.Escapes c
    · rw [decodeItems_of_escapes h, ih, if_pos h]
      cases run with
      | nil =>
        by_cases hmark : c = Utf8.mark <;> simp [Utf8.afterMark, hmark]
      | cons first more =>
        by_cases hmark : first = Utf8.mark <;> simp [Utf8.afterMark, hmark]
    · have hrest := ih []
      rw [decodeItems_of_not_escapes h, if_neg h]
      change k.decodeItems [] _ = Text.ofChars (k.readBack false rest) at hrest
      rw [hrest]
      simp [Text.ofChars]

/-- Whether a byte order mark stands behind characters that do not end with one written as escapes;
the characters may themselves stand behind a run of such. -/
def LosesMark (k : Component) (inRun : Bool) (cs : List Char) : Prop :=
  ∃ before after, cs = before ++ Utf8.mark :: after ∧
    match before.getLast? with
    | none => inRun = false
    | some c => ¬ k.Escapes c

/-- No component allows a byte order mark. -/
theorem escapes_mark (k : Component) : k.Escapes Utf8.mark := by
  cases k <;> decide

/-- A byte order mark is lost at the start or behind the first character. -/
theorem losesMark_cons (k : Component) (inRun : Bool) (c : Char) (rest : List Char) :
    k.LosesMark inRun (c :: rest) ↔
      (inRun = false ∧ c = Utf8.mark) ∨ k.LosesMark (decide (k.Escapes c)) rest := by
  constructor
  · rintro ⟨before, after, hsplit, hlast⟩
    cases before with
    | nil => exact .inl ⟨hlast, (List.cons_eq_cons.1 hsplit).1⟩
    | cons first more =>
      obtain ⟨rfl, rfl⟩ := List.cons_eq_cons.1 hsplit
      refine .inr ⟨more, after, rfl, ?_⟩
      cases hmore : more.getLast? with
      | none => simpa [List.getLast?_cons, hmore] using hlast
      | some d => simpa [List.getLast?_cons, hmore] using hlast
  · rintro (⟨hrun, rfl⟩ | ⟨before, after, rfl, hlast⟩)
    · exact ⟨[], rest, rfl, hrun⟩
    · refine ⟨c :: before, after, rfl, ?_⟩
      cases hbefore : before.getLast? with
      | none => simpa [List.getLast?_cons, hbefore] using hlast
      | some d => simpa [List.getLast?_cons, hbefore] using hlast

/-- No characters are added. -/
theorem length_readBack_le (k : Component) (inRun : Bool) (cs : List Char) :
    (k.readBack inRun cs).length ≤ cs.length := by
  fun_induction readBack k inRun cs with
  | case1 => exact Nat.le_refl _
  | case2 inRun c rest _ _ ih => exact Nat.le_succ_of_le ih
  | case3 inRun c rest _ _ ih => exact Nat.succ_le_succ ih
  | case4 inRun c rest _ ih => exact Nat.succ_le_succ ih

/-- Characters are read back as they are exactly if no byte order mark is lost. -/
theorem readBack_eq_self_iff (k : Component) (inRun : Bool) (cs : List Char) :
    k.readBack inRun cs = cs ↔ ¬ k.LosesMark inRun cs := by
  induction cs generalizing inRun with
  | nil => simp [readBack, LosesMark]
  | cons c rest ih =>
    rw [readBack, losesMark_cons, not_or, ← ih]
    by_cases hescapes : k.Escapes c
    · rw [if_pos hescapes, decide_eq_true hescapes]
      by_cases hmark : inRun = false ∧ c = Utf8.mark
      · rw [if_pos hmark]
        have hlength := k.length_readBack_le true rest
        refine iff_of_false (fun heq => ?_) (fun h => h.1 hmark)
        rw [heq, List.length_cons] at hlength
        omega
      · simp [hmark]
    · have hne : c ≠ Utf8.mark := fun h => hescapes (h ▸ k.escapes_mark)
      simp [hescapes, hne]

/-- No byte order mark is lost exactly if each stands directly behind a character that is written as
escapes. -/
theorem not_losesMark_iff (k : Component) (cs : List Char) :
    ¬ k.LosesMark false cs ↔
      ∀ before after, cs = before ++ Utf8.mark :: after → ∃ c ∈ before.getLast?, k.Escapes c := by
  constructor
  · intro hkept before after hsplit
    cases hbefore : before.getLast? with
    | none => exact absurd ⟨before, after, hsplit, by rw [hbefore]⟩ hkept
    | some c =>
      refine ⟨c, rfl, Classical.byContradiction fun hescapes => ?_⟩
      exact hkept ⟨before, after, hsplit, by rw [hbefore]; exact hescapes⟩
  · rintro hkept ⟨before, after, hsplit, hlast⟩
    obtain ⟨c, hc, hescapes⟩ := hkept before after hsplit
    rw [Option.mem_def] at hc
    rw [hc] at hlast
    exact hlast hescapes

/-- Encoding a value without unpaired surrogates succeeds, and so does decoding what comes out. It
gives the value back exactly if every byte order mark in the value stands directly behind a character
that is written as escapes. -/
theorem decode_encode_iff (k : Component) {value : Text} (h : value.firstUnpaired = none) :
    ∃ encoded, k.encode value = .ok encoded ∧
      k.decode encoded = .ok (Text.ofChars (k.readBack false value.toChars)) ∧
      (k.decode encoded = .ok value ↔
        ∀ before after, value.toChars = before ++ Utf8.mark :: after →
          ∃ c ∈ before.getLast?, k.Escapes c) := by
  have hencode : k.encode value = .ok (value.toChars.flatMap k.code) := by rw [encode, h]
  have hdecode : k.decode (value.toChars.flatMap k.code) =
      .ok (Text.ofChars (k.readBack false value.toChars)) := by
    rw [decode, items_flatMap_code, firstStray_codeItems]
    exact congrArg Except.ok (k.decodeItems_codeItems [] value.toChars)
  have hsame : Text.ofChars (k.readBack false value.toChars) = value ↔
      k.readBack false value.toChars = value.toChars := by
    constructor
    · intro hvalue
      rw [← Text.toChars_ofChars (k.readBack false value.toChars), hvalue]
    · intro hchars
      rw [hchars, Text.ofChars_toChars h]
  refine ⟨_, hencode, hdecode, ?_⟩
  rw [hdecode, Except.ok.injEq, hsame, readBack_eq_self_iff, not_losesMark_iff]

/-- A query parameter with a byte order mark behind an accented letter, a space and a plus sign. -/
theorem decode_encode_accented :
    Text.firstUnpaired "\u00E9\uFEFF 1+1" = none ∧
      ∃ encoded, queryParam.encode "\u00E9\uFEFF 1+1" = .ok encoded ∧
        queryParam.decode encoded = .ok "\u00E9\uFEFF 1+1" := by
  have hnone : Text.firstUnpaired "\u00E9\uFEFF 1+1" = none := by decide
  obtain ⟨encoded, hencode, hdecode, -⟩ := decode_encode_iff queryParam hnone
  have hread : Text.ofChars (queryParam.readBack false (Text.toChars "\u00E9\uFEFF 1+1")) =
      "\u00E9\uFEFF 1+1" := by
    decide
  exact ⟨hnone, encoded, hencode, hread ▸ hdecode⟩

/-- A value that is a byte order mark is lost. -/
theorem decode_encode_mark :
    Text.firstUnpaired "\uFEFF" = none ∧ path.encode "\uFEFF" = .ok "%EF%BB%BF" ∧
      path.decode "%EF%BB%BF" = .ok "" ∧ path.decode "%EF%BB%BF" ≠ .ok "\uFEFF" := by
  have hdecode : path.decode "%EF%BB%BF" = .ok "" := by rfl
  refine ⟨by decide, by rfl, hdecode, ?_⟩
  rw [hdecode]
  intro heq
  exact absurd (Except.ok.inj heq) (by decide)

end Component

end UriRouting
