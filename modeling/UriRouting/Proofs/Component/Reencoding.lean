import UriRouting.Proofs.Component.Alphabet
import Mathlib.Tactic.ByContra

/-!
# Encoding what is already encoded

Keeping the escapes, the encoder leaves a text alone exactly if it holds nothing but escapes and
characters that the component allows (`contextualEncode_eq_self_iff`). What an encoder has written
is such a text, with one exception: a query parameter writes a space as a plus sign and does not
allow the plus sign. So encoding once more changes nothing except where a query parameter held a
space (`contextualEncode_encoded_iff`).
-/

namespace UriRouting

open scoped CodeUnit

/-- If one of two codes is never the longer one, the codes of a list are the same only if those of
all its members are. -/
theorem flatMap_eq_flatMap_iff {α β : Type} {f g : α → List β} {l : List α}
    (hle : ∀ a ∈ l, (f a).length ≤ (g a).length) :
    l.flatMap f = l.flatMap g ↔ ∀ a ∈ l, f a = g a := by
  have length_le (l : List α) (hle : ∀ a ∈ l, (f a).length ≤ (g a).length) :
      (l.flatMap f).length ≤ (l.flatMap g).length := by
    induction l with
    | nil => exact Nat.le_refl _
    | cons a rest ih =>
      rw [List.forall_mem_cons] at hle
      rw [List.flatMap_cons, List.flatMap_cons, List.length_append, List.length_append]
      exact Nat.add_le_add hle.1 (ih hle.2)
  induction l with
  | nil => simp
  | cons a rest ih =>
    rw [List.forall_mem_cons] at hle
    rw [List.flatMap_cons, List.flatMap_cons, List.forall_mem_cons]
    constructor
    · intro h
      have hrest := length_le rest hle.2
      have hlength := congrArg List.length h
      rw [List.length_append, List.length_append] at hlength
      obtain ⟨ha, hsame⟩ := List.append_inj h (by omega)
      exact ⟨ha, (ih hle.2).1 hsame⟩
    · intro h
      rw [h.1, (ih hle.2).2 h.2]

/-- Only one character is written with a given unit that is no surrogate. -/
theorem Text.mem_unitsOf_iff {u : CodeUnit} (h : CodeUnit.isSurrogate u = false) (c : Char) :
    u ∈ unitsOf c ↔ c = Char.ofNat u.toNat := by
  constructor
  · intro hu
    obtain ⟨v, -, rfl, hc⟩ | ⟨high, low, hpair, -, hc⟩ := unitsOf_cases c
    · rw [hc, List.mem_singleton] at hu
      rw [hu]
    · rw [isPair, Bool.and_eq_true, CodeUnit.isHighSurrogate_eq, CodeUnit.isLowSurrogate_eq,
        decide_eq_true_eq, decide_eq_true_eq] at hpair
      rw [CodeUnit.isSurrogate_eq, decide_eq_false_iff_not] at h
      simp only [hc, List.mem_cons, List.not_mem_nil, or_false] at hu
      rcases hu with rfl | rfl <;> omega
  · rintro rfl
    rw [unitsOf_ofNat h]
    exact List.mem_singleton.2 rfl

/-- A text without surrogates has no unpaired one. -/
theorem Text.firstUnpaired_of_no_surrogate {t : Text}
    (h : ∀ u ∈ t, CodeUnit.isSurrogate u = false) : t.firstUnpaired = none := by
  induction t with
  | nil => rfl
  | cons u rest ih =>
    rw [List.forall_mem_cons] at h
    rw [firstUnpaired_cons h.1, ih h.2, Option.map_none]

namespace Component

open Escape (Digits Item)

/-- The items that an item is written as when escapes are kept. -/
def contextualItems (k : Component) : Item → List Item
  | .escape high low => [.escape high low]
  | .char c => k.codeItems c
  | .unpaired u => [.unpaired u]

section

variable (k : Component) {items : List Item}
  (hitems : ∀ item ∈ items, (∃ d : Digits, item = d.item) ∨ ∃ c, item = .char c)

include hitems

/-- What escapes and characters are written as is cut into the items of each. -/
theorem items_flatMap_contextualCode :
    Escape.items (items.flatMap k.contextualCode) = items.flatMap k.contextualItems := by
  induction items with
  | nil => rfl
  | cons item rest ih =>
    rw [List.forall_mem_cons] at hitems
    rw [List.flatMap_cons, List.flatMap_cons, ← ih hitems.2]
    rcases hitems.1 with ⟨d, rfl⟩ | ⟨c, rfl⟩
    · exact Escape.items_escape d.isHexDigit_high d.isHexDigit_low _
    · exact k.items_code_append c _

/-- Escapes hold no space, and only the space is written with one. -/
theorem space_mem_units_iff :
    (' ' : CodeUnit) ∈ items.flatMap Item.units ↔ Item.char ' ' ∈ items := by
  rw [List.mem_flatMap]
  constructor
  · rintro ⟨item, hitem, hspace⟩
    rcases hitems item hitem with ⟨d, rfl⟩ | ⟨c, rfl⟩
    · have hdigit : ¬ CodeUnit.isHexDigit ' ' = true := by decide
      simp only [Digits.item, Item.units, List.mem_cons, List.not_mem_nil, or_false] at hspace
      rcases hspace with hpercent | hhigh | hlow
      · exact absurd hpercent (by decide)
      · exact absurd (hhigh ▸ d.isHexDigit_high) hdigit
      · exact absurd (hlow ▸ d.isHexDigit_low) hdigit
    · obtain rfl : c = ' ' := (Text.mem_unitsOf_iff (by decide) c).1 hspace
      exact hitem
  · intro hitem
    exact ⟨_, hitem, List.mem_singleton.2 rfl⟩

end

/-- No unit that values are written in is a surrogate. -/
theorem isSurrogate_of_writes {k : Component} {u : CodeUnit} (h : k.Writes u) :
    CodeUnit.isSurrogate u = false := by
  rcases h with hallows | rfl | hdigit | ⟨rfl, -⟩
  · -- The unit of a surrogate stands for no character, and then counts as the null character.
    by_contra hsurrogate
    rw [Bool.not_eq_false, CodeUnit.isSurrogate_eq, decide_eq_true_eq] at hsurrogate
    have hinvalid : ¬ u.toNat.isValidChar := by
      unfold Nat.isValidChar
      omega
    rw [Char.ofNat, dif_neg hinvalid] at hallows
    revert hallows
    cases k <;> decide
  · decide
  · exact CodeUnit.isSurrogate_of_isHexDigit hdigit
  · decide

/-- The escapes of a character are longer than the character. -/
theorem length_unitsOf_lt (c : Char) : (Text.unitsOf c).length < (Escape.ofChar c).length := by
  have hbytes : (Escape.ofChar c).length = 3 * c.utf8Size := by
    simp [Escape.ofChar, Utf8.encode, List.length_flatMap, Escape.ofByte, List.map_const',
      Nat.mul_comm]
  have hsize := c.utf8Size_pos
  rw [Text.unitsOf]
  split_ifs <;> simp only [List.length_cons, List.length_nil] <;> omega

/-- A character is written as itself exactly if the component allows it. -/
theorem code_eq_unitsOf_iff (k : Component) (c : Char) :
    k.code c = Text.unitsOf c ↔ k.allows c = true := by
  rw [code]
  split_ifs with hallows hspace
  · exact iff_of_true rfl hallows
  · obtain ⟨rfl, -⟩ := hspace
    exact iff_of_false (by decide) hallows
  · refine iff_of_false (fun heq => ?_) hallows
    have hlt := length_unitsOf_lt c
    rw [heq] at hlt
    exact Nat.lt_irrefl _ hlt

/-- No item gets shorter. -/
theorem length_units_le (k : Component) (item : Item) :
    item.units.length ≤ (k.contextualCode item).length := by
  cases item with
  | escape high low => exact Nat.le_refl _
  | unpaired u => exact Nat.le_refl _
  | char c =>
    change (Text.unitsOf c).length ≤ (k.code c).length
    rw [code]
    split_ifs with hallows hspace
    · exact Nat.le_refl _
    · rw [hspace.1]
      exact Nat.le_refl _
    · exact Nat.le_of_lt (length_unitsOf_lt c)

/-- Keeping the escapes, the encoder leaves a text alone exactly if all its characters between the
escapes are allowed. -/
theorem contextualEncode_eq_self_iff (k : Component) {text : Text}
    (h : text.firstUnpaired = none) :
    k.contextualEncode text = .ok text ↔
      ∀ c, Item.char c ∈ Escape.items text → k.allows c = true := by
  have hsame : (Escape.items text).flatMap k.contextualCode = text ↔
      ∀ item ∈ Escape.items text, item.units = k.contextualCode item := by
    rw [← flatMap_eq_flatMap_iff fun item _ => k.length_units_le item, Escape.units_items, eq_comm]
  rw [contextualEncode, h]
  dsimp only
  rw [Except.ok.injEq, hsame]
  constructor
  · intro hkept c hc
    exact (k.code_eq_unitsOf_iff c).1 (hkept _ hc).symm
  · intro hallows item hitem
    rcases Escape.mem_items_cases h hitem with ⟨d, rfl⟩ | ⟨c, rfl⟩
    · rfl
    · exact ((k.code_eq_unitsOf_iff c).2 (hallows c hitem)).symm

/-- The characters that a character is written as are allowed, except for the plus sign that a query
parameter writes for a space. -/
theorem allows_of_char_mem_codeItems {k : Component} {c d : Char}
    (h : Item.char d ∈ k.codeItems c) : k.allows d = true ↔ ¬ (k = queryParam ∧ c = ' ') := by
  rw [codeItems] at h
  split_ifs at h with hallows hspace
  · obtain rfl : d = c := by simpa using h
    refine iff_of_true hallows fun hspace => ?_
    rw [hspace.1, hspace.2] at hallows
    revert hallows
    decide
  · obtain rfl : d = '+' := by simpa using h
    obtain ⟨rfl, rfl⟩ := hspace
    decide
  · simp [Item.ofByte] at h

/-- What escapes and characters have been written as holds no unpaired surrogate. -/
theorem firstUnpaired_written (k : Component) {items : List Item}
    (hitems : ∀ item ∈ items, (∃ d : Digits, item = d.item) ∨ ∃ c, item = .char c) :
    Text.firstUnpaired (items.flatMap k.contextualCode) = none :=
  Text.firstUnpaired_of_no_surrogate fun u hu =>
    isSurrogate_of_writes (k.writes_flatMap_contextualCode hitems u hu)

/-- Every character that escapes and characters have been written as is allowed, exactly if none of
them is a space of a query parameter. -/
theorem allows_written_iff (k : Component) {items : List Item}
    (hitems : ∀ item ∈ items, (∃ d : Digits, item = d.item) ∨ ∃ c, item = .char c) :
    (∀ c, Item.char c ∈ Escape.items (items.flatMap k.contextualCode) → k.allows c = true) ↔
      ¬ (k = queryParam ∧ (' ' : CodeUnit) ∈ items.flatMap Item.units) := by
  rw [k.items_flatMap_contextualCode hitems, space_mem_units_iff hitems]
  constructor
  · rintro hallows ⟨rfl, hspace⟩
    have hplus : Item.char '+' ∈ items.flatMap queryParam.contextualItems :=
      List.mem_flatMap.2 ⟨_, hspace, List.mem_singleton.2 rfl⟩
    exact absurd (hallows '+' hplus) (by decide)
  · intro hspace d hd
    obtain ⟨item, hitem, hd⟩ := List.mem_flatMap.1 hd
    rcases hitems item hitem with ⟨digits, rfl⟩ | ⟨c, rfl⟩
    · simp [contextualItems, Digits.item] at hd
    · rw [allows_of_char_mem_codeItems hd]
      rintro ⟨hkind, rfl⟩
      exact hspace ⟨hkind, hitem⟩

/-- What escapes and characters have been written as is left alone exactly if none of them is a
space of a query parameter. -/
theorem contextualEncode_written_iff (k : Component) (items : List Item)
    (hitems : ∀ item ∈ items, (∃ d : Digits, item = d.item) ∨ ∃ c, item = .char c) :
    k.contextualEncode (items.flatMap k.contextualCode) = .ok (items.flatMap k.contextualCode) ↔
      ¬ (k = queryParam ∧ (' ' : CodeUnit) ∈ items.flatMap Item.units) := by
  rw [contextualEncode_eq_self_iff k (k.firstUnpaired_written hitems), k.allows_written_iff hitems]

/-- Encoding writes the characters of a value. -/
theorem exists_items_of_encode (k : Component) {value : Text} (h : value.firstUnpaired = none) :
    ∃ items : List Item, (∀ item ∈ items, (∃ d : Digits, item = d.item) ∨ ∃ c, item = .char c) ∧
      items.flatMap Item.units = value ∧ k.encode value = .ok (items.flatMap k.contextualCode) := by
  refine ⟨value.toChars.map Item.char, ?_, ?_, ?_⟩
  · intro item hitem
    obtain ⟨c, -, rfl⟩ := List.mem_map.1 hitem
    exact .inr ⟨c, rfl⟩
  · rw [List.flatMap_map]
    exact Text.ofChars_toChars h
  · rw [encode, h, List.flatMap_map]
    rfl

/-- Encoding with the escapes kept writes the escapes and characters of a value. -/
theorem exists_items_of_contextualEncode (k : Component) {value : Text}
    (h : value.firstUnpaired = none) :
    ∃ items : List Item, (∀ item ∈ items, (∃ d : Digits, item = d.item) ∨ ∃ c, item = .char c) ∧
      items.flatMap Item.units = value ∧
      k.contextualEncode value = .ok (items.flatMap k.contextualCode) :=
  ⟨Escape.items value, fun _ => Escape.mem_items_cases h, Escape.units_items value, by
    rw [contextualEncode, h]⟩

/-- Encoding a value without unpaired surrogates succeeds in either way, and what comes out is left
alone when it is encoded with its escapes kept, exactly if the value is not one of a query parameter
that holds a space. -/
theorem contextualEncode_encoded_iff (k : Component) {value : Text}
    (h : value.firstUnpaired = none) :
    (∃ encoded, k.encode value = .ok encoded ∧
      (k.contextualEncode encoded = .ok encoded ↔ ¬ (k = queryParam ∧ (' ' : CodeUnit) ∈ value))) ∧
    ∃ encoded, k.contextualEncode value = .ok encoded ∧
      (k.contextualEncode encoded = .ok encoded ↔
        ¬ (k = queryParam ∧ (' ' : CodeUnit) ∈ value)) := by
  constructor
  · have hchars : (value.toChars.map Item.char).flatMap Item.units = value := by
      rw [List.flatMap_map]
      exact Text.ofChars_toChars h
    have hencoded : k.encode value =
        .ok ((value.toChars.map Item.char).flatMap k.contextualCode) := by
      rw [encode, h, List.flatMap_map]
      rfl
    have hwritten := k.contextualEncode_written_iff (value.toChars.map Item.char)
      fun item hitem => .inr ((List.mem_map.1 hitem).imp fun c hc => hc.2.symm)
    rw [hchars] at hwritten
    exact ⟨_, hencoded, hwritten⟩
  · have hencoded : k.contextualEncode value =
        .ok ((Escape.items value).flatMap k.contextualCode) := by
      rw [contextualEncode, h]
    have hwritten := k.contextualEncode_written_iff _ fun item => Escape.mem_items_cases h
    rw [Escape.units_items] at hwritten
    exact ⟨_, hencoded, hwritten⟩

/-- A query parameter with a plus sign, an escaped space and a stray percent sign, encoded in either
way and then once more. -/
theorem contextualEncode_encoded_sum :
    Text.firstUnpaired "1+1%20%" = none ∧ (' ' : CodeUnit) ∉ (↑"1+1%20%" : Text) ∧
      (∃ encoded, queryParam.encode "1+1%20%" = .ok encoded ∧
        queryParam.contextualEncode encoded = .ok encoded) ∧
      ∃ encoded, queryParam.contextualEncode "1+1%20%" = .ok encoded ∧
        queryParam.contextualEncode encoded = .ok encoded := by
  have hpaired : Text.firstUnpaired "1+1%20%" = none := by decide
  have hspace : (' ' : CodeUnit) ∉ (↑"1+1%20%" : Text) := by decide
  obtain ⟨⟨strict, hstrict, hagain⟩, ⟨kept, hkept, hagain'⟩⟩ :=
    contextualEncode_encoded_iff queryParam hpaired
  exact ⟨hpaired, hspace, ⟨strict, hstrict, hagain.2 fun h => hspace h.2⟩,
    ⟨kept, hkept, hagain'.2 fun h => hspace h.2⟩⟩

/-- A query parameter that is a space: the plus sign that it is written as is escaped by a second
pass. -/
theorem contextualEncode_space :
    Text.firstUnpaired " " = none ∧ queryParam.encode " " = .ok "+" ∧
      queryParam.contextualEncode " " = .ok "+" ∧ queryParam.contextualEncode "+" = .ok "%2B" ∧
      queryParam.contextualEncode "+" ≠ .ok "+" := by
  have hagain : queryParam.contextualEncode "+" = .ok "%2B" := by rfl
  refine ⟨by decide, by rfl, by rfl, hagain, ?_⟩
  rw [hagain]
  intro heq
  exact absurd (Except.ok.inj heq) (by decide)

end Component

end UriRouting
