import UriRouting.Proofs.Text.Trimming
import Mathlib.Data.List.Chain
import UriRouting.Proofs.Template.Exact
import UriRouting.Proofs.Template.FirstOccurrence
import UriRouting.Proofs.Template.RoundTrip

/-!
# Values recovered from generated texts

If each placeholder of a template ends it or stands in front of a slash, and no placeholder accepts a
slash, a text is spelled with one list of values only (`Spells.unique`): each value ends at the next slash.
So matching a text that has been generated from such values finds these values again, whichever way the
search takes (`params_generate`).
-/

namespace UriRouting

open scoped CodeUnit

namespace Pattern

variable {κ : Type} [DecidableEq κ]

/-- The named groups are bound one after the other. -/
theorem foldl_bind_eq {groupNames : List (Option κ)} {texts : List (Option Text)}
    {values : List Text} (h : namedTexts groupNames texts = values.map some)
    (entries : Entries κ Text) :
    (groupNames.zip texts).foldl bind entries =
      ((groupNames.filterMap id).zip values).foldl
        (fun entries pair => entries.insert pair.1 pair.2) entries := by
  induction groupNames generalizing texts values entries with
  | nil => rfl
  | cons group rest ih =>
    cases texts with
    | nil =>
      obtain rfl : values = [] := List.map_eq_nil_iff.1 h.symm
      simp
    | cons text others =>
      cases group with
      | none => exact ih h entries
      | some name =>
        change text :: namedTexts rest others = values.map some at h
        cases values with
        | nil => cases h
        | cons value more =>
          obtain ⟨rfl, hmore⟩ := List.cons.inj h
          exact ih hmore (entries.insert name value)

/-- The named groups are bound to their texts in group order. -/
theorem bindAll_eq_ofPairs {groupNames : List (Option κ)} {texts : List (Option Text)}
    {values : List Text} (h : namedTexts groupNames texts = values.map some) :
    bindAll groupNames texts = Entries.ofPairs ((groupNames.filterMap id).zip values) :=
  foldl_bind_eq h []

end Pattern

namespace Template

/-- A literal that begins with a slash. -/
def Piece.beginsWithSlash : Piece → Bool
  | literal text => text.head? = some ('/' : CodeUnit)
  | placeholder _ => false

/-- Pieces in which nothing follows a placeholder but a literal that begins with a slash. -/
def SlashSeparated (pieces : List Piece) : Prop :=
  pieces.IsChain fun piece next => piece.name?.isSome → next.beginsWithSlash

instance (pieces : List Piece) : Decidable (SlashSeparated pieces) := by
  unfold SlashSeparated
  infer_instance

section

variable {accepts : Placeholder → Text → Prop} {pieces : List Piece} {values : List Text}
  {spelled : Text}

/-- The text behind a placeholder is empty or begins with a slash. -/
theorem Spells.head?_of_slashSeparated {p : Placeholder} (h : Spells accepts pieces values spelled)
    (hslash : SlashSeparated (.placeholder p :: pieces)) : ∀ u ∈ spelled.head?, u = '/' := by
  intro u hu
  cases h with
  | nil => cases hu
  | @literal text =>
    have hbegins : text.head? = some ('/' : CodeUnit) :=
      of_decide_eq_true ((List.isChain_cons_cons.1 hslash).1 rfl)
    obtain ⟨rest, rfl⟩ := List.head?_eq_some_iff.1 hbegins
    exact (Option.some.inj hu).symm
  | placeholder => cases (List.isChain_cons_cons.1 hslash).1 rfl

/-- A text is spelled with one list of values only, if the values hold no slash and each of them is
followed by one. -/
theorem Spells.unique {values' : List Text} (h : Spells accepts pieces values spelled)
    (h' : Spells accepts pieces values' spelled) (hslash : SlashSeparated pieces)
    (haccepts : ∀ p value, .placeholder p ∈ pieces → accepts p value → ('/' : CodeUnit) ∉ value) :
    values = values' := by
  induction h generalizing values' with
  | nil =>
    cases h'
    rfl
  | @literal text rest values spelled _ ih =>
    generalize hwhole : text ++ spelled = whole at h'
    cases h' with
    | literal h' =>
      rw [List.append_cancel_left hwhole] at ih
      exact ih h' hslash.tail fun p value hp => haccepts p value (List.mem_cons_of_mem _ hp)
  | @placeholder p value rest values spelled hvalue hrest ih =>
    generalize hwhole : value ++ spelled = whole at h'
    cases h' with
    | @placeholder _ value' _ values' spelled' hvalue' hrest' =>
      have noSlash {value : Text} (h : accepts p value) : ∀ u ∈ value, decide (u ≠ '/') = true := by
        intro u hu
        apply decide_eq_true
        rintro rfl
        exact haccepts p value List.mem_cons_self h hu
      have slash {spelled : Text} (h : ∀ u ∈ spelled.head?, u = '/') :
          ∀ u ∈ spelled.head?, decide (u ≠ '/') = false := by
        intro u hu
        simp [h u hu]
      obtain ⟨rfl, rfl⟩ := Text.split_unique (noSlash hvalue)
        (slash (hrest.head?_of_slashSeparated hslash)) (noSlash hvalue')
        (slash (hrest'.head?_of_slashSeparated hslash)) hwhole
      rw [ih hrest' hslash.tail fun p value hp => haccepts p value (List.mem_cons_of_mem _ hp)]

/-- Filling accepted values into pieces spells a text. -/
theorem spells_filled {resolve : Text → Text}
    (h : ∀ p, .placeholder p ∈ pieces → accepts p (resolve p.name)) :
    Spells accepts pieces ((pieces.filterMap Piece.name?).map resolve)
      (pieces.flatMap fun piece => piece.segments.flatMap (Segment.filled resolve)) := by
  induction pieces with
  | nil => exact .nil
  | cons piece rest ih =>
    have hrest := ih fun p hp => h p (List.mem_cons_of_mem _ hp)
    rw [List.flatMap_cons]
    cases piece with
    | literal text =>
      rw [Piece.segments, flatMap_filled_units]
      exact .literal hrest
    | placeholder p =>
      rw [Piece.segments, List.flatMap_singleton]
      exact .placeholder (h p List.mem_cons_self) hrest

end

/-- Placeholders accept what the ways of their constraints read, if these are local and match what the
placeholders accept. -/
theorem acceptsWays_of_lang {accepts : Placeholder → Text → Prop} {names : List (Option (List Char))}
    {pieces : List Piece}
    (hbody : ∀ p opened body, .placeholder p ∈ pieces →
      Regex.partTree? names opened p.pattern = some body →
        body.IsLocal ∧ ∀ w, body.Lang w ↔ accepts p w) :
    AcceptsWays accepts names pieces := by
  intro p opened body hp htree start finish hfinish value hvalue
  obtain ⟨hlocal, hlang⟩ := hbody p opened body hp htree
  obtain ⟨w, hw, hafter⟩ := Regex.exists_lang_of_mem_ways hlocal hfinish
  rw [List.append_cancel_right (hvalue.symm.trans hafter)]
  exact (hlang w).1 hw

/-- Placeholders with local constraints accept what the ways of their constraints read. -/
theorem acceptsWays_of_local {t : Template} {names : List (Option (List Char))} {terms : List Regex.Node}
    (h : Compiled t names terms)
    (hlocal : ∀ p constraint, .placeholder p ∈ t.outline.pieces → p.constraint = some constraint →
      Regex.IsLocal constraint) :
    AcceptsWays Placeholder.Accepts names t.outline.pieces :=
  acceptsWays_of_lang fun p _ _ hp => lang_constraint h hp fun constraint => hlocal p constraint hp

/-- A placeholder of a template without constraints accepts at least one unit and no slash. -/
theorem accepts_iff_of_free {t : Template} (hfree : t.outline.explicitConstraints = 0)
    {p : Placeholder} (hp : .placeholder p ∈ t.outline.pieces) (value : Text) :
    p.Accepts value ↔ value ≠ [] ∧ ('/' : CodeUnit) ∉ value := by
  rw [Placeholder.Accepts, constraint_eq_none hfree hp]

/-- Matching a text that a template has generated gives the values back that it was generated from,
each distinct name once, if the template has no constraints and each placeholder ends it or stands in
front of a slash, and the values are not empty and hold no slash. -/
theorem params_generate {text : Text} {t : Template} (h : parse text = .ok t)
    (hfree : t.outline.explicitConstraints = 0) (hslash : SlashSeparated t.outline.pieces)
    {values : Entries Text (Option Text)}
    (hvalues : ∀ name ∈ t.placeholders, ∃ value,
      values.get? name = some (some value) ∧ value ≠ [] ∧ ('/' : CodeUnit) ∉ value) :
    t.params? (t.generate values) =
      some (t.placeholders.map fun name => (name, valueOrEmpty values name)) := by
  obtain ⟨-, names, terms, hcompiled⟩ := compiled_of_parse h
  have hlocal (p : Placeholder) (constraint : Text) (hp : .placeholder p ∈ t.outline.pieces)
      (hconstraint : p.constraint = some constraint) : Regex.IsLocal constraint := by
    rw [constraint_eq_none hfree hp] at hconstraint
    cases hconstraint
  have haccepts (p : Placeholder) (hp : .placeholder p ∈ t.outline.pieces) :
      p.Accepts (valueOrEmpty values p.name) := by
    have hname : p.name ∈ t.placeholders :=
      List.mem_eraseDups.2 (List.mem_filterMap.2 ⟨_, hp, rfl⟩)
    obtain ⟨value, hget, hvalue⟩ := hvalues p.name hname
    rw [valueOrEmpty, hget]
    exact (accepts_iff_of_free hfree hp value).2 hvalue
  have hspells : Spells Placeholder.Accepts t.outline.pieces
      ((t.outline.pieces.filterMap Piece.name?).map (valueOrEmpty values)) (t.generate values) := by
    rw [generate_eq hcompiled.sound]
    exact spells_filled haccepts
  obtain ⟨texts, htexts⟩ := Option.isSome_iff_exists.1
    ((isSome_groups_iff_spells hcompiled hlocal _).2 ⟨_, hspells⟩)
  obtain ⟨-, found, hfound, hspells'⟩ :=
    accepted_of_groups hcompiled (acceptsWays_of_local hcompiled hlocal) htexts
  -- Whatever way the search has taken, there is one list of values to find.
  obtain rfl := hspells.unique hspells' hslash fun p value hp haccepts =>
    ((accepts_iff_of_free hfree hp value).1 haccepts).2
  rw [params?, Pattern.bindings?, htexts, Option.map_some, Pattern.bindAll_eq_ofPairs hfound,
    hcompiled.groupNames, Outline.groupNames, filterMap_groupNames,
    Entries.ofPairs_zip_map]
  rfl

/-- A repeated name whose value holds half of a surrogate pair and a line feed. -/
theorem params_generate_unpaired :
    ∃ t, ∃ values : Entries Text (Option Text), ∃ x : Text, x = [0xD800, 0x000A] ∧
      values = [(↑"y", some ↑"z?"), (↑"x", some x)] ∧
      parse "/\x7bx\x7d/c\x7by\x7d/\x7bx\x7d" = .ok t ∧ t.outline.explicitConstraints = 0 ∧
      SlashSeparated t.outline.pieces ∧
      t.params? (t.generate values) = some [(↑"x", x), (↑"y", ↑"z?")] := by
  have hparse : (parse "/\x7bx\x7d/c\x7by\x7d/\x7bx\x7d").toOption.map (fun t => t.outline.pieces) =
      some [.literal "/", .placeholder ⟨"x", none, 0⟩, .literal "/c", .placeholder ⟨"y", none, 0⟩,
        .literal "/", .placeholder ⟨"x", none, 0⟩] := by
    decide +kernel
  let x : Text := [0xD800, 0x000A]
  let values : Entries Text (Option Text) := [(↑"y", some ↑"z?"), (↑"x", some x)]
  cases h : parse "/\x7bx\x7d/c\x7by\x7d/\x7bx\x7d" with
  | error e => simp [h, Except.toOption] at hparse
  | ok t =>
    rw [h] at hparse
    have hpieces := Option.some.inj (show some t.outline.pieces = some _ from hparse)
    have hfree : t.outline.explicitConstraints = 0 := by
      rw [Outline.explicitConstraints, hpieces]
      decide
    have hslash : SlashSeparated t.outline.pieces := by
      rw [hpieces]
      decide
    have hnames : t.placeholders = [↑"x", ↑"y"] := by
      rw [placeholders, Outline.names, hpieces]
      decide
    have hvalues : ∀ name ∈ t.placeholders, ∃ value, values.get? name = some (some value) ∧
        value ≠ [] ∧ ('/' : CodeUnit) ∉ value := by
      rw [hnames]
      simp only [List.forall_mem_cons]
      exact ⟨⟨x, by decide⟩, ⟨"z?", by decide⟩, by simp⟩
    have hparams := params_generate h hfree hslash hvalues
    rw [hnames] at hparams
    exact ⟨t, values, x, rfl, rfl, rfl, hfree, hslash, hparams⟩

end Template

end UriRouting
