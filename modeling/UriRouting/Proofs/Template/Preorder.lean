import UriRouting.Proofs.Template.Specificity
import Mathlib.Data.List.Pairwise
import Mathlib.Data.Set.Pairwise.Basic
import Mathlib.Order.Defs.Unbundled

/-!
# Comparing templates that share sources

Where no two templates share a source, being more specific is a strict total order
(`compareSpecificity_isStrictTotalOrder`). The comparison looks at the counts of two templates only
when their sources differ, and templates with one source may have different counts. A template of
another source can then stand between two that compare as equal (`Divides`). Nothing else keeps the
comparison from being a total preorder: `compareSpecificity_le_trans_iff` says that transitivity and
the agreement of equal templates fail for exactly the triples with a template that divides two
others.
-/

namespace UriRouting

namespace Template

/-- Comparing two texts the other way round negates the result. -/
theorem compareText_swap (s t : Text) : compareText t s = -compareText s t := by
  have hasymm : ¬ (s < t ∧ t < s) := fun h => List.lt_irrefl _ (List.lt_trans h.1 h.2)
  rw [compareText, compareText]
  split_ifs with h h' <;> first | rfl | exact absurd ⟨by assumption, by assumption⟩ hasymm

/-- Negating both numbers negates the first that is not zero. -/
theorem firstNonzero_neg_neg (x y : Int) : firstNonzero (-x) (-y) = -firstNonzero x y := by
  rw [firstNonzero, firstNonzero]
  split_ifs <;> omega

/-- Comparing two templates the other way round negates the result. -/
theorem compareSpecificity_swap (a b : Template) :
    compareSpecificity b a = -compareSpecificity a b := by
  have hsame : b.sameAs a = a.sameAs b := by
    simp only [sameAs, Pattern.sameAs, eq_comm]
  rw [compareSpecificity, compareSpecificity, hsame]
  split_ifs
  · rfl
  · simp only [compareKeys]
    rw [compareText_swap a.pattern.source, ← firstNonzero_neg_neg, ← firstNonzero_neg_neg,
      ← firstNonzero_neg_neg, Int.neg_sub, Int.neg_sub, Int.neg_sub]

/-- A template that precedes another compares positively the other way round. -/
theorem compareSpecificity_pos_iff (a b : Template) :
    0 < compareSpecificity a b ↔ Precedes b a := by
  rw [Precedes, compareSpecificity_swap a b]
  omega

/-- Templates compare as equal exactly if they have the same source. -/
theorem compareSpecificity_eq_zero_iff (a b : Template) :
    compareSpecificity a b = 0 ↔ a.pattern.source = b.pattern.source := by
  constructor
  · intro hzero
    by_contra hne
    rcases precedes_total hne with h | h
    · exact absurd hzero (Int.ne_of_lt h)
    · exact absurd hzero (Int.ne_of_gt ((compareSpecificity_pos_iff a b).2 h))
  · intro hsource
    simp [compareSpecificity, sameAs, Pattern.sameAs, hsource]

/-- A template does not compare positively with those of its source and those that it precedes. -/
theorem compareSpecificity_nonpos_iff (a b : Template) :
    compareSpecificity a b ≤ 0 ↔ a.pattern.source = b.pattern.source ∨ Precedes a b := by
  rw [← compareSpecificity_eq_zero_iff, Precedes]
  omega

/-- Among templates of which no two share a source, one that precedes a template that precedes a
third precedes the third, which cannot be itself. -/
theorem Precedes.trans_of_pairwise {templates : Set Template}
    (h : templates.Pairwise fun a b => a.pattern.source ≠ b.pattern.source) {a b c : Template}
    (ha : a ∈ templates) (hc : c ∈ templates) (hab : Precedes a b) (hbc : Precedes b c) :
    Precedes a c := by
  have hne : a ≠ c := by
    rintro rfl
    exact hab.asymm hbc
  exact hab.trans hbc (h ha hc hne)

/-- Among templates of which no two share a source, two of which neither precedes the other are one
and the same. -/
theorem eq_of_not_precedes {templates : Set Template}
    (h : templates.Pairwise fun a b => a.pattern.source ≠ b.pattern.source) {a b : Template}
    (ha : a ∈ templates) (hb : b ∈ templates) (hab : ¬ Precedes a b) (hba : ¬ Precedes b a) :
    a = b := by
  by_contra hne
  rcases precedes_total (h ha hb hne) with hlt | hlt
  · exact hab hlt
  · exact hba hlt

/-- Comparing two templates the other way round turns the sign, and they compare as zero exactly if
they are the same. Among templates of which no two share a source, being more specific is a strict
total order. -/
theorem compareSpecificity_isStrictTotalOrder :
    (∀ a b : Template,
      (compareSpecificity b a).sign = -(compareSpecificity a b).sign ∧
        (compareSpecificity a b = 0 ↔ a.sameAs b = true)) ∧
      ∀ templates : Set Template,
        (templates.Pairwise fun a b => a.pattern.source ≠ b.pattern.source) →
          IsStrictTotalOrder templates fun a b => compareSpecificity a b < 0 := by
  constructor
  · intro a b
    constructor
    · rw [compareSpecificity_swap a b, Int.sign_neg]
    · rw [compareSpecificity_eq_zero_iff, sameAs, Pattern.sameAs, decide_eq_true_eq]
  · intro templates h
    exact {
      irrefl := fun a haa => Precedes.source_ne haa rfl
      trans := fun a b c hab hbc => Precedes.trans_of_pairwise h a.2 c.2 hab hbc
      trichotomous := fun a b hab hba => Subtype.ext (eq_of_not_precedes h a.2 b.2 hab hba) }

/-- A constraint, more literal units, fewer placeholders and a lesser source: each of five templates
precedes the next by another part of its key, and so the first precedes the last. -/
theorem isStrictTotalOrder_of_keys :
    ∃ a b c d e, parse "/\x7bx:\\d+\x7d" = .ok a ∧ parse "/ab" = .ok b ∧
      parse "/\x7bx\x7d" = .ok c ∧ parse "\x7bx\x7d/\x7by\x7d" = .ok d ∧
      parse "/\x7bx\x7d\x7by\x7d" = .ok e ∧
      IsStrictTotalOrder {t | t ∈ [a, b, c, d, e]} (fun s t => compareSpecificity s t < 0) ∧
      compareSpecificity a e < 0 := by
  have h : (match parse "/\x7bx:\\d+\x7d", parse "/ab", parse "/\x7bx\x7d",
      parse "\x7bx\x7d/\x7by\x7d", parse "/\x7bx\x7d\x7by\x7d" with
    | .ok a, .ok b, .ok c, .ok d, .ok e =>
      decide (([a, b, c, d, e].Pairwise fun s t => s.pattern.source ≠ t.pattern.source) ∧
        compareSpecificity a b < 0 ∧ compareSpecificity b c < 0 ∧ compareSpecificity c d < 0 ∧
        compareSpecificity d e < 0)
    | _, _, _, _, _ => false) = true := by
    decide +kernel
  split at h
  · next a b c d e ha hb hc hd he =>
    obtain ⟨hdistinct, hab, hbc, hcd, hde⟩ := of_decide_eq_true h
    have : Std.Symm fun s t : Template => s.pattern.source ≠ t.pattern.source :=
      ⟨fun _ _ h => h.symm⟩
    have horder := compareSpecificity_isStrictTotalOrder.2 {t | t ∈ [a, b, c, d, e]}
      fun s hs t ht hne => hdistinct.forall hs ht hne
    have trans {s t u : Template} (hs : s ∈ [a, b, c, d, e]) (ht : t ∈ [a, b, c, d, e])
        (hu : u ∈ [a, b, c, d, e]) (hst : compareSpecificity s t < 0)
        (htu : compareSpecificity t u < 0) : compareSpecificity s u < 0 :=
      horder.trans ⟨s, hs⟩ ⟨t, ht⟩ ⟨u, hu⟩ hst htu
    refine ⟨a, b, c, d, e, ha, hb, hc, hd, he, horder, ?_⟩
    exact trans (by simp) (by simp) (by simp) hab <| trans (by simp) (by simp) (by simp) hbc <|
      trans (by simp) (by simp) (by simp) hcd hde
  · cases h

/-- The first template stands between the two others by its key, which share a source that it does
not have. -/
structure Divides (c a b : Template) : Prop where
  shared : a.pattern.source = b.pattern.source
  other : c.pattern.source ≠ a.pattern.source
  between : KeyBefore a.key c.key ∧ KeyBefore c.key b.key ∨
    KeyBefore b.key c.key ∧ KeyBefore c.key a.key

/-- A template divides two others of one source if it precedes exactly one of them. -/
theorem divides_iff {a b c : Template} (hshared : a.pattern.source = b.pattern.source)
    (hother : c.pattern.source ≠ a.pattern.source) :
    Divides c a b ↔ Precedes a c ∧ Precedes c b ∨ Precedes b c ∧ Precedes c a := by
  have hother' : c.pattern.source ≠ b.pattern.source := hshared ▸ hother
  simp only [precedes_iff, ne_eq, hother, hother', Ne.symm hother, Ne.symm hother',
    not_false_eq_true, true_and]
  constructor
  · intro h
    exact h.between
  · intro h
    exact ⟨hshared, hother, h⟩

/-- Of two templates with different sources, one precedes the other unless the other precedes it. -/
theorem precedes_iff_not {a b : Template} (h : a.pattern.source ≠ b.pattern.source) :
    Precedes a b ↔ ¬ Precedes b a :=
  ⟨Precedes.asymm, (precedes_total h).resolve_right⟩

/-- The comparison passes from two neighbours to their ends unless two of the three templates share a
source and the third divides them. -/
theorem nonpos_trans_iff {a b c : Template} (hab : compareSpecificity a b ≤ 0)
    (hbc : compareSpecificity b c ≤ 0) :
    compareSpecificity a c ≤ 0 ↔ ¬ Divides c a b ∧ ¬ Divides a b c := by
  rw [compareSpecificity_nonpos_iff] at hab hbc ⊢
  by_cases hac : a.pattern.source = c.pattern.source
  · have hcab : ¬ Divides c a b := fun h => h.other hac.symm
    have habc : ¬ Divides a b c := fun h => h.other (hac.trans h.shared.symm)
    simp [hac, hcab, habc]
  simp only [hac, false_or]
  rcases hab with hab | hab
  · -- The first two share a source, so only the third can divide them.
    have hlt : Precedes b c := hbc.resolve_left fun hbc => hac (hab.trans hbc)
    have habc : ¬ Divides a b c := fun h => hlt.source_ne h.shared
    rw [divides_iff hab (Ne.symm hac), precedes_iff_not hac]
    simp [habc, hlt, hlt.asymm]
  · have hcab : ¬ Divides c a b := fun h => hab.source_ne h.shared
    rcases hbc with hbc | hbc
    · rw [divides_iff hbc hab.source_ne, precedes_iff_not hac]
      simp [hcab, hab, hab.asymm]
    · have habc : ¬ Divides a b c := fun h => hbc.source_ne h.shared
      simp [hcab, habc, hab.trans hbc hac]

/-- Templates of one source compare alike with every template that does not divide them. -/
theorem sign_congr_iff {a b c : Template} (hab : compareSpecificity a b = 0) :
    (compareSpecificity a c).sign = (compareSpecificity b c).sign ↔ ¬ Divides c a b := by
  rw [compareSpecificity_eq_zero_iff] at hab
  by_cases hca : c.pattern.source = a.pattern.source
  · have hac := (compareSpecificity_eq_zero_iff a c).2 hca.symm
    have hbc := (compareSpecificity_eq_zero_iff b c).2 (hab.symm.trans hca.symm)
    have hcab : ¬ Divides c a b := fun h => h.other hca
    simp [hac, hbc, hcab]
  · have hac : compareSpecificity a c ≠ 0 := fun h =>
      hca ((compareSpecificity_eq_zero_iff a c).1 h).symm
    have hbc : compareSpecificity b c ≠ 0 := fun h =>
      hca (((compareSpecificity_eq_zero_iff b c).1 h).symm.trans hab.symm)
    rw [divides_iff hab hca, ← compareSpecificity_pos_iff b c, ← compareSpecificity_pos_iff a c,
      Precedes, Precedes]
    rcases Int.lt_or_gt_of_ne hac with hac | hac <;> rcases Int.lt_or_gt_of_ne hbc with hbc | hbc <;>
      simp [Int.sign_eq_neg_one_of_neg, Int.sign_eq_one_of_pos, hac, hbc, Int.le_of_lt]

/-- Any two templates can be compared. The comparison passes from two neighbours to their ends, and
templates that compare as equal compare alike with a third, for exactly the templates among which
none divides two others. -/
theorem compareSpecificity_le_trans_iff (a b c : Template) :
    (compareSpecificity a b ≤ 0 ∨ compareSpecificity b a ≤ 0) ∧
      (compareSpecificity a b ≤ 0 → compareSpecificity b c ≤ 0 →
        (compareSpecificity a c ≤ 0 ↔ ¬ Divides c a b ∧ ¬ Divides a b c)) ∧
      (compareSpecificity a b = 0 →
        ((compareSpecificity a c).sign = (compareSpecificity b c).sign ↔ ¬ Divides c a b)) := by
  refine ⟨?_, nonpos_trans_iff, sign_congr_iff⟩
  rw [compareSpecificity_swap a b]
  omega

/-- A constraint, a fixed path and a free placeholder: the first compares negatively with the last as
no template divides two others. -/
theorem compareSpecificity_users :
    ∃ a b c, parse "/users/\x7bid:\\d+\x7d" = .ok a ∧ parse "/users/me" = .ok b ∧
      parse "/users/\x7bid\x7d" = .ok c ∧ compareSpecificity a b ≤ 0 ∧ compareSpecificity b c ≤ 0 ∧
      compareSpecificity a c ≤ 0 := by
  have h : (match parse "/users/\x7bid:\\d+\x7d", parse "/users/me", parse "/users/\x7bid\x7d" with
    | .ok a, .ok b, .ok c =>
      decide (a.pattern.source ≠ b.pattern.source ∧ b.pattern.source ≠ c.pattern.source ∧
        compareSpecificity a b ≤ 0 ∧ compareSpecificity b c ≤ 0)
    | _, _, _ => false) = true := by
    decide +kernel
  split at h
  · next a b c ha hb hc =>
    obtain ⟨hab, hbc, hle, hle'⟩ := of_decide_eq_true h
    obtain ⟨-, htrans, -⟩ := compareSpecificity_le_trans_iff a b c
    exact ⟨a, b, c, ha, hb, hc, hle, hle',
      (htrans hle hle').2 ⟨fun hdiv => hab hdiv.shared, fun hdiv => hbc hdiv.shared⟩⟩
  · cases h

/-- One placeholder written without its default constraint and with it, and a template that divides
the two: the comparison neither passes on to the ends nor treats the two alike. -/
theorem not_nonpos_trans_of_divides :
    ∃ a b c, parse "\x7bx\x7d" = .ok a ∧ parse "\x7bx:[^/]+\x7d" = .ok b ∧
      parse "a\x7by\x7d" = .ok c ∧ compareSpecificity a b = 0 ∧ compareSpecificity b c ≤ 0 ∧
      ¬ compareSpecificity a c ≤ 0 ∧
      (compareSpecificity a c).sign ≠ (compareSpecificity b c).sign := by
  have h : (match parse "\x7bx\x7d", parse "\x7bx:[^/]+\x7d", parse "a\x7by\x7d" with
    | .ok a, .ok b, .ok c =>
      decide (compareSpecificity a b = 0 ∧ compareSpecificity b c ≤ 0 ∧
        ¬ compareSpecificity a c ≤ 0 ∧
        (compareSpecificity a c).sign ≠ (compareSpecificity b c).sign)
    | _, _, _ => false) = true := by
    decide +kernel
  split at h
  · next a b c ha hb hc => exact ⟨a, b, c, ha, hb, hc, of_decide_eq_true h⟩
  · cases h

end Template

end UriRouting
