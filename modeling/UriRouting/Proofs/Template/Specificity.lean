import UriRouting.Proofs.Template.Expression
import UriRouting.Template.Specificity
import Mathlib.Tactic.SplitIfs

/-!
# The order of templates by specificity

Among templates with different sources the comparison is a strict total order (`precedes_total`,
`Precedes.asymm`, `Precedes.trans`). The counts that it looks at are not a function of the source, so
two templates with the same source may stand on different sides of a third. What a template matches
is a function of its source (`params?_isSome_congr`).
-/

namespace UriRouting

namespace Template

/-- The first of two templates is the more specific. -/
def Precedes (a b : Template) : Prop := compareSpecificity a b < 0

instance (a b : Template) : Decidable (Precedes a b) :=
  inferInstanceAs (Decidable (compareSpecificity a b < 0))

/-- The first number decides unless it is zero. -/
theorem firstNonzero_neg (x y : Int) : firstNonzero x y < 0 ↔ x < 0 ∨ x = 0 ∧ y < 0 := by
  rw [firstNonzero]
  split_ifs <;> omega

/-- Texts are compared in the order of their units. -/
theorem compareText_neg (s t : Text) : compareText s t < 0 ↔ s < t := by
  rw [compareText]
  split_ifs with h h' <;> simp [h]

/-- What a template is compared by: fewer constraints, fewer literal units, more placeholders and a
greater source come later. -/
def key (t : Template) : Nat × Nat × Nat × Text :=
  (t.outline.explicitConstraints, t.outline.literalCharacters, t.placeholders.length,
    t.pattern.source)

/-- The order of the keys, from the most specific on. -/
def KeyBefore : Nat × Nat × Nat × Text → Nat × Nat × Nat × Text → Prop
  | (c, l, n, s), (c', l', n', s') =>
    c' < c ∨ c' = c ∧ (l' < l ∨ l' = l ∧ (n < n' ∨ n = n' ∧ s < s'))

/-- Templates with different sources are in the order of their keys, and those with the same source
in none. -/
theorem precedes_iff (a b : Template) :
    Precedes a b ↔ a.pattern.source ≠ b.pattern.source ∧ KeyBefore a.key b.key := by
  rw [Precedes, compareSpecificity, sameAs, Pattern.sameAs]
  by_cases h : a.pattern.source = b.pattern.source
  · simp [h]
  · simp only [h, decide_false, Bool.false_eq_true, if_false, compareKeys, firstNonzero_neg,
      compareText_neg, KeyBefore, key, ne_eq, not_false_eq_true, true_and]
    grind

/-- Templates one of which precedes the other have different sources. -/
theorem Precedes.source_ne {a b : Template} (h : Precedes a b) :
    a.pattern.source ≠ b.pattern.source :=
  ((precedes_iff a b).1 h).1

/-- Of two templates with different sources one is the more specific. -/
theorem precedes_total {a b : Template} (h : a.pattern.source ≠ b.pattern.source) :
    Precedes a b ∨ Precedes b a := by
  have hsource : a.pattern.source < b.pattern.source ∨ b.pattern.source < a.pattern.source := by
    by_contra hneither
    obtain ⟨hab, hba⟩ := not_or.1 hneither
    exact h (List.le_antisymm hba hab)
  simp only [precedes_iff, ne_eq, h, Ne.symm h, not_false_eq_true, true_and, KeyBefore, key]
  grind

/-- No two templates are each more specific than the other. -/
theorem Precedes.asymm {a b : Template} (h : Precedes a b) : ¬ Precedes b a := by
  intro h'
  have hsource : ¬ (a.pattern.source < b.pattern.source ∧ b.pattern.source < a.pattern.source) :=
    fun hlt => List.lt_irrefl _ (List.lt_trans hlt.1 hlt.2)
  simp only [precedes_iff, KeyBefore, key] at h h'
  grind

/-- A template that is more specific than a more specific one than a third is more specific than the
third, unless it has the same source. -/
theorem Precedes.trans {a b c : Template} (hab : Precedes a b) (hbc : Precedes b c)
    (hne : a.pattern.source ≠ c.pattern.source) : Precedes a c := by
  have hsource (h : a.pattern.source < b.pattern.source) (h' : b.pattern.source < c.pattern.source) :
      a.pattern.source < c.pattern.source := List.lt_trans h h'
  simp only [precedes_iff, KeyBefore, key] at hab hbc ⊢
  refine ⟨hne, ?_⟩
  grind

/-- A template that has been constructed: the empty one, or one that has been read. -/
def Constructed (t : Template) : Prop := t = empty ∨ ∃ text, parse text = .ok t

/-- The empty template is compiled like one that has been read, from no pieces. -/
theorem compiled_empty : Compiled empty [] [] where
  sound := ⟨by simp [empty, Outline.none], by simp [empty, Outline.none]⟩
  source := rfl
  groupNames := rfl
  anchored := rfl
  named := rfl
  distinct := List.nodup_nil
  count := rfl
  tree := rfl
  read := rfl
  regex := rfl

/-- A template that has been constructed is compiled from its pieces. -/
theorem Constructed.exists_compiled {t : Template} (h : t.Constructed) :
    ∃ names terms, Compiled t names terms := by
  rcases h with rfl | ⟨text, h⟩
  · exact ⟨_, _, compiled_empty⟩
  · exact (compiled_of_parse h).2

/-- The expression of a template is compiled from its source. -/
theorem Constructed.ofSource {t : Template} (h : t.Constructed) :
    Regex.ofSource? (Pattern.anchored t.pattern.source) = some t.pattern.regex := by
  obtain ⟨names, terms, hcompiled⟩ := h.exists_compiled
  rw [hcompiled.source, hcompiled.anchored]

/-- Templates with the same source have the same expression. -/
theorem Constructed.regex_eq {a b : Template} (ha : a.Constructed) (hb : b.Constructed)
    (h : a.pattern.source = b.pattern.source) : a.pattern.regex = b.pattern.regex :=
  Option.some.inj (by rw [← ha.ofSource, ← hb.ofSource, h])

/-- Templates with the same source match the same texts. -/
theorem params?_isSome_congr {a b : Template} (ha : a.Constructed) (hb : b.Constructed)
    (h : a.pattern.source = b.pattern.source) (uri : Text) :
    (a.params? uri).isSome = (b.params? uri).isSome := by
  simp [params?, Pattern.bindings?, Pattern.groups?, ha.regex_eq hb h]

end Template

end UriRouting
