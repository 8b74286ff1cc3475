import UriRouting.Text.Basic
import Mathlib.Data.List.Basic
import Mathlib.Data.List.TakeWhile
import Mathlib.Tactic.SplitIfs

/-!
# Trimming

Trimming drops the blanks around a text and nothing else: `trim_around` and `exists_around`. So a
text with blanks around a trimmed part can be split in one way only (`around_unique`), just as one
that begins with units which pass a test (`split_unique`).
-/

namespace UriRouting

open scoped CodeUnit

namespace Text

/-- A word unit is no blank. -/
theorem isBlank_of_isWord {u : CodeUnit} (h : CodeUnit.isWord u = true) :
    CodeUnit.isBlank u = false := by
  -- the word units lie between the digit zero and the letter z
  have hrange : 48 ≤ u.toNat ∧ u.toNat ≤ 122 := by
    simp only [CodeUnit.isWord, CodeUnit.isLetter, CodeUnit.isDigit, Bool.or_eq_true,
      Bool.and_eq_true, decide_eq_true_eq, UInt16.le_iff_toNat_le] at h
    have hbounds : ('A' : CodeUnit).toNat = 65 ∧ ('Z' : CodeUnit).toNat = 90 ∧
        ('a' : CodeUnit).toNat = 97 ∧ ('z' : CodeUnit).toNat = 122 ∧
        ('0' : CodeUnit).toNat = 48 ∧ ('9' : CodeUnit).toNat = 57 ∧ ('_' : CodeUnit).toNat = 95 :=
      ⟨rfl, rfl, rfl, rfl, rfl, rfl, rfl⟩
    rcases h with h | rfl <;> omega
  simp only [CodeUnit.isBlank, Bool.or_eq_false_iff, Bool.and_eq_false_iff, decide_eq_false_iff_not,
    UInt16.le_iff_toNat_le, ← UInt16.toNat_inj, UInt16.reduceToNat]
  omega

/-- A text with no blank at either end. -/
structure Trimmed (t : Text) : Prop where
  first : ∀ u ∈ t.head?, CodeUnit.isBlank u = false
  last : ∀ u ∈ t.getLast?, CodeUnit.isBlank u = false

/-- Nothing is dropped from a text whose first unit fails the test. -/
theorem dropWhile_eq_self {p : CodeUnit → Bool} {t : Text} (h : ∀ u ∈ t.head?, p u = false) :
    t.dropWhile p = t := by
  cases t with
  | nil => rfl
  | cons u rest => exact List.dropWhile_cons_of_neg (by simpa using h)

/-- Nothing is taken from a text whose first unit fails the test. -/
theorem takeWhile_eq_nil {p : CodeUnit → Bool} {t : Text} (h : ∀ u ∈ t.head?, p u = false) :
    t.takeWhile p = [] := by
  cases t with
  | nil => rfl
  | cons u rest => exact List.takeWhile_cons_of_neg (by simpa using h)

/-- The first unit that is not dropped fails the test. -/
theorem eq_false_of_mem_head?_dropWhile {p : CodeUnit → Bool} {t : Text} :
    ∀ u ∈ (t.dropWhile p).head?, p u = false := by
  intro u hu
  have := List.head?_dropWhile_not p t
  rwa [Option.mem_def.1 hu] at this

/-- A text can be split in one way only into units that pass a test and a rest that does not begin
with one. -/
theorem split_unique {p : CodeUnit → Bool} {front back front' back' : Text}
    (hfront : ∀ u ∈ front, p u = true) (hback : ∀ u ∈ back.head?, p u = false)
    (hfront' : ∀ u ∈ front', p u = true) (hback' : ∀ u ∈ back'.head?, p u = false)
    (h : front ++ back = front' ++ back') : front = front' ∧ back = back' := by
  have hsame : front = front' := by
    calc front = (front ++ back).takeWhile p := by
          rw [List.takeWhile_append_of_pos hfront, takeWhile_eq_nil hback, List.append_nil]
      _ = (front' ++ back').takeWhile p := by rw [h]
      _ = front' := by
          rw [List.takeWhile_append_of_pos hfront', takeWhile_eq_nil hback', List.append_nil]
  exact ⟨hsame, List.append_cancel_left (hsame ▸ h)⟩

/-- Blanks around a text are what trimming drops. -/
theorem trim_around {before t after : Text} (hbefore : ∀ u ∈ before, CodeUnit.isBlank u = true)
    (ht : t.Trimmed) (hafter : ∀ u ∈ after, CodeUnit.isBlank u = true) :
    trim (before ++ t ++ after) = t := by
  have hfirst : (before ++ t ++ after).dropWhile CodeUnit.isBlank =
      if t = [] then [] else t ++ after := by
    rw [List.append_assoc, List.dropWhile_append_of_pos hbefore]
    split_ifs with hempty
    · rw [hempty, List.nil_append, List.dropWhile_eq_nil_iff]
      exact hafter
    · apply dropWhile_eq_self
      rw [List.head?_append_of_ne_nil _ hempty]
      exact ht.first
  rw [trim, hfirst, trimEnd]
  split_ifs with hempty
  · exact hempty.symm
  · rw [List.reverse_append, List.dropWhile_append_of_pos (by simpa using hafter),
      dropWhile_eq_self, List.reverse_reverse]
    rw [List.head?_reverse]
    exact ht.last

/-- Trimming drops nothing from a trimmed text. -/
theorem trim_eq_self {t : Text} (h : t.Trimmed) : trim t = t := by
  simpa using trim_around (List.forall_mem_nil _) h (List.forall_mem_nil _)

/-- Of blanks alone nothing is left. -/
theorem trim_eq_nil {t : Text} (h : ∀ u ∈ t, CodeUnit.isBlank u = true) : trim t = [] :=
  @trim_around [] [] t (List.forall_mem_nil _) ⟨by simp, by simp⟩ h

/-- What is dropped at the end of a text are blanks. -/
theorem exists_after_trimEnd (t : Text) :
    ∃ after : Text, (∀ u ∈ after, CodeUnit.isBlank u = true) ∧ t = trimEnd t ++ after := by
  refine ⟨(t.reverse.takeWhile CodeUnit.isBlank).reverse, ?_, ?_⟩
  · intro u hu
    exact List.mem_takeWhile_imp (List.mem_reverse.1 hu)
  · rw [trimEnd, ← List.reverse_append, List.takeWhile_append_dropWhile, List.reverse_reverse]

/-- From a text that begins with no blank, only blanks at its end are dropped. -/
theorem exists_after_trim {t : Text} (h : ∀ u ∈ t.head?, CodeUnit.isBlank u = false) :
    ∃ after : Text, (∀ u ∈ after, CodeUnit.isBlank u = true) ∧ t = trim t ++ after := by
  rw [trim, dropWhile_eq_self h]
  exact exists_after_trimEnd t

/-- Every text is its trimmed form with blanks around it. -/
theorem exists_around (t : Text) :
    ∃ before after : Text, (∀ u ∈ before, CodeUnit.isBlank u = true) ∧
      (∀ u ∈ after, CodeUnit.isBlank u = true) ∧ (trim t).Trimmed ∧
      t = before ++ trim t ++ after := by
  obtain ⟨after, hafter, hmiddle⟩ := exists_after_trimEnd (t.dropWhile CodeUnit.isBlank)
  rw [← trim] at hmiddle
  refine ⟨t.takeWhile CodeUnit.isBlank, after, fun u hu => List.mem_takeWhile_imp hu, hafter,
    ⟨?_, ?_⟩, ?_⟩
  · intro u hu
    apply eq_false_of_mem_head?_dropWhile (t := t) u
    rw [hmiddle, List.head?_append, Option.mem_def.1 hu]
    rfl
  · intro u hu
    rw [trim, trimEnd, List.getLast?_reverse] at hu
    exact eq_false_of_mem_head?_dropWhile u hu
  · rw [List.append_assoc, ← hmiddle, List.takeWhile_append_dropWhile]

/-- A text with blanks around a trimmed part can be split in one way only. -/
theorem around_unique {before t after before' t' after' : Text}
    (hbefore : ∀ u ∈ before, CodeUnit.isBlank u = true) (ht : t.Trimmed)
    (hafter : ∀ u ∈ after, CodeUnit.isBlank u = true)
    (hbefore' : ∀ u ∈ before', CodeUnit.isBlank u = true) (ht' : t'.Trimmed)
    (hafter' : ∀ u ∈ after', CodeUnit.isBlank u = true) (hne : t ≠ [])
    (h : before ++ t ++ after = before' ++ t' ++ after') :
    before = before' ∧ t = t' ∧ after = after' := by
  obtain rfl : t = t' := by
    rw [← trim_around hbefore ht hafter, h, trim_around hbefore' ht' hafter']
  rw [List.append_assoc, List.append_assoc] at h
  have hfirst : ∀ rest : Text, ∀ u ∈ (t ++ rest).head?, CodeUnit.isBlank u = false := by
    intro rest
    rw [List.head?_append_of_ne_nil _ hne]
    exact ht.first
  obtain ⟨rfl, hrest⟩ := split_unique hbefore (hfirst after) hbefore' (hfirst after') h
  exact ⟨rfl, rfl, List.append_cancel_left hrest⟩

end Text

end UriRouting
