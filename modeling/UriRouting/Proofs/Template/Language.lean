import UriRouting.Proofs.Regex.Locality
import UriRouting.Proofs.Template.Groups
import UriRouting.Proofs.Template.Spelling

/-!
# What a template matches

If the constraints of a template are local, the template matches exactly the texts that its pieces
spell with values which the placeholders accept, each by itself (`matches_iff_spells`). So the
constraints do not interact, and a template without placeholders matches its own text alone.
-/

namespace UriRouting

open scoped CodeUnit

namespace Regex

/-- Terms in sequence match texts put together. -/
theorem Node.lang_sequence_append (a b : List Node) (w : Text) :
    (sequence (a ++ b)).Lang w ↔
      ∃ v v', (sequence a).Lang v ∧ (sequence b).Lang v' ∧ w = v ++ v' := by
  induction a generalizing w with
  | nil =>
    constructor
    · intro h
      exact ⟨[], w, rfl, h, rfl⟩
    · intro h
      obtain ⟨v, v', rfl, hlang, rfl⟩ := h
      exact hlang
  | cons n rest ih =>
    change (∃ v v', n.Lang v ∧ (sequence (rest ++ b)).Lang v' ∧ w = v ++ v') ↔ _
    simp only [ih]
    constructor
    · intro h
      obtain ⟨first, _, hfirst, ⟨v, v', hv, hv', rfl⟩, rfl⟩ := h
      exact ⟨first ++ v, v', ⟨first, v, hfirst, hv, rfl⟩, hv', (List.append_assoc ..).symm⟩
    · intro h
      obtain ⟨_, v', ⟨first, v, hfirst, hv, rfl⟩, hv', rfl⟩ := h
      exact ⟨first, v ++ v', hfirst, ⟨v, v', hv, hv', rfl⟩, List.append_assoc ..⟩

/-- Units in sequence match the text of the units. -/
theorem Node.lang_units (text w : Text) : (sequence (text.map unit)).Lang w ↔ w = text := by
  induction text generalizing w with
  | nil => exact Iff.rfl
  | cons u rest ih =>
    change (∃ v v', v = [u] ∧ (sequence (rest.map unit)).Lang v' ∧ w = v ++ v') ↔ _
    simp only [ih]
    simp

/-- One term in sequence matches what it matches by itself. -/
theorem Node.lang_singleton (n : Node) (w : Text) : (sequence [n]).Lang w ↔ n.Lang w := by
  change (∃ v v', n.Lang v ∧ v' = [] ∧ w = v ++ v') ↔ _
  simp

end Regex

namespace Template

open Regex (Node)

/-- What a placeholder accepts: by default at least one unit and no slash, else what its constraint
matches in full as an expression by itself. -/
def Placeholder.Accepts (p : Placeholder) (value : Text) : Prop :=
  match p.constraint with
  | none => value ≠ [] ∧ ('/' : CodeUnit) ∉ value
  | some constraint =>
    ∃ pattern : Pattern Text, Pattern.compile constraint [] = .ok pattern ∧
      (pattern.groups? value).isSome

/-- Whether a text matches a template, as the template answers it. -/
def Matches (t : Template) (uri : Text) : Prop :=
  ∀ container, ∃ filled, t.fill uri (some container) = .ok (true, filled)

/-- A text matches a template if its groups have texts, whatever the container is. -/
theorem matches_iff (t : Template) (uri : Text) : t.Matches uri ↔ (t.pattern.groups? uri).isSome := by
  constructor
  · intro h
    obtain ⟨filled, hfilled⟩ := h (.groups [])
    exact (Prod.mk.inj (Except.ok.inj hfilled)).1
  · intro h container
    cases container with
    | bindings entries => exact ⟨_, by simp [fill, Pattern.fill, Pattern.bindings?, h]; rfl⟩
    | groups texts => exact ⟨_, by simp [fill, Pattern.fill, h]; rfl⟩

/-- A match into a list puts the texts of the groups into it. -/
theorem fill_groups_iff {t : Template} {uri : Text} {prior texts : List (Option Text)} :
    t.fill uri (some (.groups prior)) = .ok (true, .groups texts) ↔
      t.pattern.groups? uri = some texts := by
  rw [fill, Except.ok.injEq, Pattern.fill, Prod.mk.injEq, Container.groups.injEq]
  cases t.pattern.groups? uri with
  | none => exact ⟨fun h => absurd h.1 Bool.false_ne_true, fun h => nomatch h⟩
  | some own => exact ⟨fun h => congrArg some h.2, fun h => ⟨rfl, Option.some.inj h⟩⟩

/-- The set of the units that are no slash. -/
def noSlash : Regex.UnitSet := ⟨[.single '/'], true⟩

/-- The tree of the constraint that is put where none is written. -/
theorem partTree?_default (names : List (Option (List Char))) (opened : Nat) :
    Regex.partTree? names opened defaultConstraint =
      some (.sequence [.repetition ⟨1, none, true⟩ (.set noSlash)]) := by
  rw [Regex.partTree?]
  cases Regex.readsReferences names <;> rfl

/-- A unit is no slash if it belongs to the set of these. -/
theorem contains_noSlash (u : CodeUnit) : noSlash.contains u = true ↔ u ≠ '/' := by
  have hsingle : (('/' : CodeUnit) ≤ u ∧ u ≤ '/') ↔ u = '/' :=
    ⟨fun h => UInt16.le_antisymm h.2 h.1, fun h => h ▸ ⟨UInt16.le_refl _, UInt16.le_refl _⟩⟩
  change ((decide (('/' : CodeUnit) ≤ u) && decide (u ≤ '/') || false) != true) = true ↔ _
  rw [Bool.or_false, bne_iff_ne, ne_eq, Bool.and_eq_true, decide_eq_true_eq, decide_eq_true_eq,
    hsingle]

/-- By default a placeholder accepts at least one unit and no slash. -/
theorem lang_default (w : Text) :
    (Node.sequence [.repetition ⟨1, none, true⟩ (.set noSlash)]).Lang w ↔
      w ≠ [] ∧ ('/' : CodeUnit) ∉ w := by
  rw [Node.lang_singleton]
  constructor
  · intro h
    obtain ⟨parts, hparts, hallows, rfl⟩ := h
    constructor
    · obtain ⟨part, hpart⟩ := List.exists_mem_of_length_pos hallows.1
      obtain ⟨u, -, rfl⟩ := hparts part hpart
      exact List.ne_nil_of_mem (List.mem_flatten.2 ⟨[u], hpart, List.mem_singleton.2 rfl⟩)
    · intro hslash
      obtain ⟨part, hpart, hslash⟩ := List.mem_flatten.1 hslash
      obtain ⟨u, hu, rfl⟩ := hparts part hpart
      exact (contains_noSlash u).1 hu (List.mem_singleton.1 hslash).symm
  · intro h
    obtain ⟨hne, hslash⟩ := h
    refine ⟨w.map ([·]), ?_, ⟨?_, by simp⟩, ?_⟩
    · intro part hpart
      obtain ⟨u, hu, rfl⟩ := List.mem_map.1 hpart
      exact ⟨u, (contains_noSlash u).2 fun h => hslash (h ▸ hu), rfl⟩
    · rw [List.length_map]
      exact List.length_pos_iff.2 hne
    · rw [← List.flatMap_def, List.flatMap_singleton']

/-- A local constraint compiles by itself, to the tree that it has in the template apart from the
numbers of its groups. -/
theorem exists_ofSource_pattern {t : Template} {names : List (Option (List Char))}
    {terms : List Node} {p : Placeholder} {opened : Nat} {body : Node} (h : Compiled t names terms)
    (hp : .placeholder p ∈ t.outline.pieces) (hlocal : Regex.IsLocal p.pattern)
    (hbody : Regex.partTree? names opened p.pattern = some body) :
    ∃ r, Regex.ofSource? p.pattern = some r ∧ r.root.IsLocal ∧
      r.root.unnumbered = body.unnumbered := by
  obtain ⟨before, after, hpieces⟩ := List.append_of_mem hp
  obtain ⟨_, hwraps⟩ := exists_wraps h hpieces
  obtain ⟨tokens, out, inner, more, htokens, hsplit, -, hinner, -⟩ := hwraps.lexemes
  rw [h.source] at htokens
  obtain rfl : names = Regex.captureNames tokens := by
    simpa [Regex.namesOf?, htokens, eq_comm] using h.named
  have hsublist : inner.Sublist tokens := by
    rw [hsplit]
    exact ((List.sublist_cons_self _ inner).trans (List.sublist_append_right out _)).trans
      (List.sublist_append_left _ _)
  exact Regex.exists_ofSource_of_partTree hlocal h.distinct hinner (hsublist.filterMap _) hbody

/-- The constraint of a placeholder matches what the placeholder accepts, provided that it is local,
and so does its tree in the template. -/
theorem lang_constraint {t : Template} {names : List (Option (List Char))} {terms : List Node}
    {p : Placeholder} {opened : Nat} {body : Node} (h : Compiled t names terms)
    (hp : .placeholder p ∈ t.outline.pieces)
    (hlocal : ∀ constraint, p.constraint = some constraint → Regex.IsLocal constraint)
    (hbody : Regex.partTree? names opened p.pattern = some body) :
    body.IsLocal ∧ ∀ w, body.Lang w ↔ p.Accepts w := by
  cases hconstraint : p.constraint with
  | none =>
    rw [Placeholder.pattern, hconstraint, Option.getD_none, partTree?_default] at hbody
    obtain rfl := Option.some.inj hbody
    constructor
    · exact ⟨⟨rfl, trivial⟩, trivial⟩
    · intro w
      rw [lang_default, Placeholder.Accepts, hconstraint]
  | some constraint =>
    have hpattern : p.pattern = constraint := by
      rw [Placeholder.pattern, hconstraint, Option.getD_some]
    have hlocal : Regex.IsLocal p.pattern := hpattern ▸ hlocal constraint hconstraint
    obtain ⟨r, hr, hrlocal, hrbody⟩ := exists_ofSource_pattern h hp hlocal hbody
    have hcompile : Pattern.compile constraint ([] : List (Option Text)) =
        .ok ⟨constraint, [], r.root.anchored, r.groupCount⟩ := by
      rw [Pattern.compile, Regex.ofSource?_anchored (hpattern ▸ hr)]
    refine ⟨Regex.isLocal_partTree hlocal hbody, ?_⟩
    intro w
    rw [Placeholder.Accepts, hconstraint, ← Node.lang_unnumbered, ← hrbody, Node.lang_unnumbered,
      ← Regex.isSome_exec?_anchored hrlocal r.groupCount]
    constructor
    · intro hmatch
      exact ⟨_, hcompile, hmatch⟩
    · intro haccepts
      obtain ⟨pattern, hcompiled, hmatch⟩ := haccepts
      obtain rfl := Except.ok.inj (hcompiled.symm.trans hcompile)
      exact hmatch

/-- The terms of pieces match the texts that the pieces spell. -/
theorem lang_terms {names : List (Option (List Char))} {opened : Nat} {pieces : List Piece}
    {terms : List Node} {accepts : Placeholder → Text → Prop}
    (hbody : ∀ p opened body, .placeholder p ∈ pieces →
      Regex.partTree? names opened p.pattern = some body →
        body.IsLocal ∧ ∀ w, body.Lang w ↔ accepts p w)
    (h : termsOf? names opened pieces = some terms) :
    (Node.sequence terms).IsLocal ∧
      ∀ w, (Node.sequence terms).Lang w ↔ ∃ values, Spells accepts pieces values w := by
  induction pieces generalizing opened terms with
  | nil =>
    obtain rfl := Option.some.inj h
    constructor
    · trivial
    · intro w
      rw [exists_spells_nil]
      rfl
  | cons piece rest ih =>
    obtain ⟨first, more, hfirst, hmore, rfl⟩ := exists_of_termsOf?_cons h
    obtain ⟨ihlocal, ihlang⟩ :=
      ih (fun p opened body hp => hbody p opened body (List.mem_cons_of_mem _ hp)) hmore
    rw [Regex.Node.isLocal_sequence] at ihlocal
    simp only [Regex.Node.isLocal_sequence, List.forall_mem_append, Node.lang_sequence_append,
      ihlang]
    cases piece with
    | literal text =>
      obtain rfl := Option.some.inj hfirst
      refine ⟨⟨?_, ihlocal⟩, ?_⟩
      · intro n hn
        obtain ⟨u, -, rfl⟩ := List.mem_map.1 hn
        trivial
      · intro w
        simp only [Node.lang_units, exists_spells_literal, exists_and_left, exists_eq_left]
    | placeholder p =>
      obtain ⟨body, htree, rfl⟩ := Option.map_eq_some_iff.1 hfirst
      obtain ⟨hlocal, hlang⟩ := hbody p _ body List.mem_cons_self htree
      constructor
      · exact ⟨by simpa [Node.IsLocal] using hlocal, ihlocal⟩
      · intro w
        simp only [Node.lang_singleton, Node.Lang, hlang, exists_spells_placeholder]

/-- Pieces without placeholders spell their literals alone. -/
theorem exists_spells_of_no_names {accepts : Placeholder → Text → Prop} {pieces : List Piece}
    {spelled : Text} (hnames : pieces.filterMap Piece.name? = []) :
    (∃ values, Spells accepts pieces values spelled) ↔
      spelled = pieces.flatMap Piece.literalText := by
  induction pieces generalizing spelled with
  | nil => exact exists_spells_nil
  | cons piece rest ih =>
    cases piece with
    | placeholder p => simp [Piece.name?] at hnames
    | literal text =>
      simp only [exists_spells_literal, ih hnames, exists_eq_left, List.flatMap_cons,
        Piece.literalText]

/-- The literals of pieces without placeholders are the texts that they are read from. -/
theorem literalText_of_no_names {pieces : List Piece} {texts : List Text} {template : Text}
    (hnames : pieces.filterMap Piece.name? = [])
    (hread : List.Forall₂ (Piece.ReadFrom template) pieces texts) :
    pieces.flatMap Piece.literalText = texts.flatten := by
  induction hread with
  | nil => rfl
  | @cons piece text rest texts hpiece _ ih =>
    cases piece with
    | placeholder p => simp [Piece.name?] at hnames
    | literal written =>
      obtain ⟨rfl, -⟩ := hpiece
      rw [List.flatMap_cons, List.flatten_cons, ih hnames, Piece.literalText]

/-- There are no distinct names if there are no names. -/
theorem names_eq_nil_iff {o : Outline} : o.names = [] ↔ o.pieces.filterMap Piece.name? = [] := by
  rw [Outline.names]
  cases o.pieces.filterMap Piece.name? with
  | nil => exact iff_of_true rfl rfl
  | cons name rest => simp [List.eraseDups_cons]

/-- If its constraints are local, a template finds groups in exactly the texts that its pieces spell
with values which the placeholders accept. -/
theorem isSome_groups_iff_spells {t : Template} {names : List (Option (List Char))}
    {terms : List Node} (h : Compiled t names terms)
    (hlocal : ∀ p constraint, .placeholder p ∈ t.outline.pieces → p.constraint = some constraint →
      Regex.IsLocal constraint) (uri : Text) :
    (t.pattern.groups? uri).isSome ↔
      ∃ values, Spells Placeholder.Accepts t.outline.pieces values uri := by
  obtain ⟨hterms, hlang⟩ := lang_terms
    (fun p opened body hp => lang_constraint h hp (fun c => hlocal p c hp)) h.read
  rw [Pattern.groups?, h.regex, Regex.isSome_exec?_anchored hterms, hlang]

/-- If its constraints are local, a template matches exactly the texts that its pieces spell with
values which the placeholders accept; without placeholders this is its own text. -/
theorem matches_iff_spells {text : Text} {t : Template} (h : parse text = .ok t)
    (hlocal : ∀ p constraint, .placeholder p ∈ t.outline.pieces → p.constraint = some constraint →
      Regex.IsLocal constraint) (uri : Text) :
    (t.Matches uri ↔ ∃ values, Spells Placeholder.Accepts t.outline.pieces values uri) ∧
      (t.placeholders = [] → (t.Matches uri ↔ uri = text)) := by
  obtain ⟨houtline, names, terms, hcompiled⟩ := compiled_of_parse h
  have hmatch : t.Matches uri ↔ ∃ values, Spells Placeholder.Accepts t.outline.pieces values uri := by
    rw [matches_iff, isSome_groups_iff_spells hcompiled hlocal]
  refine ⟨hmatch, ?_⟩
  intro hnames
  obtain ⟨-, -, -, texts, hread, htexts⟩ := parse_sound houtline
  have hnames := names_eq_nil_iff.1 hnames
  rw [hmatch, exists_spells_of_no_names hnames, literalText_of_no_names hnames hread, htexts]

/-- A template with a literal full of special units, a repeated choice and a placeholder without a
constraint. -/
theorem spells_alternatives :
    ∃ t values, parse "/a+(b)/\x7bx:(?:ab|c)*\x7d/\x7by\x7d" = .ok t ∧
      Spells Placeholder.Accepts t.outline.pieces values "/a+(b)/abc/z" := by
  have hparse : (parse "/a+(b)/\x7bx:(?:ab|c)*\x7d/\x7by\x7d").toOption.map
      (fun t => (t.outline.pieces, (t.pattern.groups? "/a+(b)/abc/z").isSome)) =
        some ([.literal "/a+(b)/", .placeholder ⟨"x", some ("(?:ab|c)*" : Text), 0⟩, .literal "/",
          .placeholder ⟨"y", none, 0⟩], true) := by
    decide +kernel
  cases h : parse "/a+(b)/\x7bx:(?:ab|c)*\x7d/\x7by\x7d" with
  | error e => simp [h, Except.toOption] at hparse
  | ok t =>
    obtain ⟨hpieces, hgroups⟩ : t.outline.pieces = _ ∧ (t.pattern.groups? "/a+(b)/abc/z").isSome := by
      simpa [h, Except.toOption] using hparse
    have hlocal : ∀ p constraint, .placeholder p ∈ t.outline.pieces →
        p.constraint = some constraint → Regex.IsLocal constraint := by
      intro p constraint hp hconstraint
      rw [hpieces] at hp
      simp only [List.mem_cons, List.not_mem_nil, or_false, reduceCtorEq, false_or,
        Piece.placeholder.injEq] at hp
      rcases hp with rfl | rfl
      · obtain rfl := Option.some.inj hconstraint
        decide +kernel
      · cases hconstraint
    obtain ⟨hmatches, -⟩ := matches_iff_spells h hlocal "/a+(b)/abc/z"
    obtain ⟨values, hspells⟩ := hmatches.1 ((matches_iff t _).2 hgroups)
    exact ⟨t, values, rfl, hspells⟩

end Template

end UriRouting
