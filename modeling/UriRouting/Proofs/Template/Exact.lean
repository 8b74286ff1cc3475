import UriRouting.Proofs.Template.Language
import UriRouting.Proofs.Template.Specificity

/-!
# Exact templates

A template without placeholders is exact: it matches its own text alone. Without a constraint of
its own a placeholder accepts nothing empty, so a template with placeholders and no constraints has
fewer literal units than any text that it matches (`Constructed.literalCharacters_lt`). An exact
template therefore precedes every other unconstrained template that matches its text
(`precedes_of_exact`).
-/

namespace UriRouting

namespace Template

section

variable {accepts : Placeholder → Text → Prop} {pieces : List Piece} {values : List Text}
  {spelled : Text}

/-- What pieces spell has at least one unit for each literal unit and for each placeholder, if no
placeholder accepts the empty text. -/
theorem Spells.length_le (h : Spells accepts pieces values spelled)
    (hne : ∀ p value, .placeholder p ∈ pieces → accepts p value → value ≠ []) :
    (pieces.flatMap Piece.literalText).length + (pieces.filterMap Piece.name?).length ≤
      spelled.length := by
  induction h with
  | nil => exact Nat.le_refl _
  | @literal text rest values spelled _ ih =>
    have hrest := ih fun p value hp => hne p value (List.mem_cons_of_mem _ hp)
    simp only [List.flatMap_cons, Piece.literalText, List.filterMap_cons, Piece.name?,
      List.length_append]
    omega
  | @placeholder p value rest values spelled hvalue _ ih =>
    have hrest := ih fun p value hp => hne p value (List.mem_cons_of_mem _ hp)
    have hpos := List.length_pos_iff.2 (hne p value List.mem_cons_self hvalue)
    simp only [List.flatMap_cons, Piece.literalText, List.filterMap_cons, Piece.name?,
      List.length_append, List.length_cons, List.length_nil]
    omega

/-- The source of pieces without placeholders is their literals with the special units escaped. -/
theorem source_of_no_names (hnames : pieces.filterMap Piece.name? = []) :
    pieces.flatMap Piece.source = escapeLiteral (pieces.flatMap Piece.literalText) := by
  induction pieces with
  | nil => rfl
  | cons piece rest ih =>
    cases piece with
    | placeholder p => simp [Piece.name?] at hnames
    | literal text =>
      rw [List.flatMap_cons, List.flatMap_cons, ih hnames, Piece.source, Piece.literalText,
        escapeLiteral, escapeLiteral, escapeLiteral, List.flatMap_append]

end

variable {t : Template}

/-- The placeholders of a template without constraints have none. -/
theorem constraint_eq_none (hfree : t.outline.explicitConstraints = 0) {p : Placeholder}
    (hp : .placeholder p ∈ t.outline.pieces) : p.constraint = none := by
  have hunconstrained := List.countP_eq_zero.1 hfree _ hp
  simpa [Piece.isConstrained] using hunconstrained

/-- A template without constraints matches the texts that its pieces spell. -/
theorem Constructed.matches_iff_of_free (h : t.Constructed)
    (hfree : t.outline.explicitConstraints = 0) (uri : Text) :
    t.Matches uri ↔ ∃ values, Spells Placeholder.Accepts t.outline.pieces values uri := by
  obtain ⟨names, terms, hcompiled⟩ := h.exists_compiled
  rw [matches_iff]
  apply isSome_groups_iff_spells hcompiled
  intro p constraint hp hconstraint
  rw [constraint_eq_none hfree hp] at hconstraint
  cases hconstraint

/-- What a template without constraints matches has a unit for each of its literal units and for
each of its placeholders. -/
theorem Constructed.literalCharacters_add_le (h : t.Constructed)
    (hfree : t.outline.explicitConstraints = 0) {uri : Text} (hmatches : t.Matches uri) :
    t.outline.literalCharacters + (t.outline.pieces.filterMap Piece.name?).length ≤ uri.length := by
  obtain ⟨values, hspells⟩ := (h.matches_iff_of_free hfree uri).1 hmatches
  apply hspells.length_le
  intro p value hp haccepts
  rw [Placeholder.Accepts, constraint_eq_none hfree hp] at haccepts
  exact haccepts.1

/-- A template with placeholders and no constraints has fewer literal units than what it matches. -/
theorem Constructed.literalCharacters_lt (h : t.Constructed)
    (hfree : t.outline.explicitConstraints = 0) (hnames : t.placeholders ≠ []) {uri : Text}
    (hmatches : t.Matches uri) : t.outline.literalCharacters < uri.length := by
  have hle := h.literalCharacters_add_le hfree hmatches
  have hpos := List.length_pos_iff.2 fun hnil => hnames (names_eq_nil_iff.2 hnil)
  omega

/-- An exact template consists of literals. -/
theorem exists_literal_of_exact (hexact : t.placeholders = []) {piece : Piece}
    (hpiece : piece ∈ t.outline.pieces) : ∃ text, piece = .literal text := by
  have hname := List.filterMap_eq_nil_iff.1 (names_eq_nil_iff.1 hexact) piece hpiece
  cases piece with
  | literal text => exact ⟨text, rfl⟩
  | placeholder p => cases hname

/-- An exact template has no constraints. -/
theorem explicitConstraints_of_exact (hexact : t.placeholders = []) :
    t.outline.explicitConstraints = 0 := by
  apply List.countP_eq_zero.2
  intro piece hpiece
  obtain ⟨text, rfl⟩ := exists_literal_of_exact hexact hpiece
  exact Bool.false_ne_true

section

variable (h : t.Constructed) (hexact : t.placeholders = [])

include h hexact

/-- The literals of an exact template are its text. -/
theorem Constructed.literalText_of_exact : t.outline.pieces.flatMap Piece.literalText = t.text := by
  rcases h with rfl | ⟨template, h⟩
  · rfl
  · obtain ⟨houtline, -⟩ := compiled_of_parse h
    obtain ⟨-, htext, -, texts, hread, htexts⟩ := parse_sound houtline
    rw [literalText_of_no_names (names_eq_nil_iff.1 hexact) hread, htexts, text, htext]

/-- The source of an exact template is its text with the special units escaped. -/
theorem Constructed.source_of_exact : t.pattern.source = escapeLiteral t.text := by
  obtain ⟨names, terms, hcompiled⟩ := h.exists_compiled
  rw [hcompiled.source, Outline.source, source_of_no_names (names_eq_nil_iff.1 hexact),
    h.literalText_of_exact hexact]

/-- An exact template matches its text alone. -/
theorem Constructed.matches_exact_iff (uri : Text) : t.Matches uri ↔ uri = t.text := by
  rw [h.matches_iff_of_free (explicitConstraints_of_exact hexact),
    exists_spells_of_no_names (names_eq_nil_iff.1 hexact), h.literalText_of_exact hexact]

/-- An exact template binds no names. -/
theorem Constructed.params_of_exact : t.params? t.text = some [] := by
  obtain ⟨names, terms, hcompiled⟩ := h.exists_compiled
  obtain ⟨texts, htexts⟩ := Option.isSome_iff_exists.1
    ((matches_iff t _).1 ((h.matches_exact_iff hexact t.text).2 rfl))
  have hgroups : t.pattern.groupNames = [] := by
    rw [hcompiled.groupNames, Outline.groupNames, List.flatMap_eq_nil_iff]
    intro piece hpiece
    obtain ⟨text, rfl⟩ := exists_literal_of_exact hexact hpiece
    rfl
  rw [params?, Pattern.bindings?, htexts, Option.map_some, hgroups]
  rfl

end

/-- An exact template precedes every template without constraints that matches its text, unless the
two have the same source. -/
theorem precedes_of_exact {a b : Template} (ha : a.Constructed) (hb : b.Constructed)
    (hexact : a.placeholders = []) (hfree : b.outline.explicitConstraints = 0)
    (hmatches : b.Matches a.text) (hne : a.pattern.source ≠ b.pattern.source) : Precedes a b := by
  have hnames : b.placeholders ≠ [] := by
    -- Without placeholders the two have the same text, and so the same source.
    intro hnil
    have htext := (hb.matches_exact_iff hnil a.text).1 hmatches
    rw [ha.source_of_exact hexact, hb.source_of_exact hnil, htext] at hne
    exact hne rfl
  have hfewer := hb.literalCharacters_lt hfree hnames hmatches
  have hliterals : a.outline.literalCharacters = a.text.length := by
    rw [Outline.literalCharacters, ha.literalText_of_exact hexact]
  have hconstraints : b.outline.explicitConstraints = a.outline.explicitConstraints :=
    hfree.trans (explicitConstraints_of_exact hexact).symm
  refine (precedes_iff a b).2 ⟨hne, .inr ⟨hconstraints, .inl ?_⟩⟩
  rw [hliterals]
  exact hfewer

end Template

end UriRouting
