import UriRouting.Proofs.Uri.Delimiters

/-!
# Query parameters of composed URIs

A value that is encoded for a query parameter holds neither an ampersand nor an equals sign, so it adds
no parameter. But a name of a list keeps the text which it was first encoded to, and a query repeats the
text of a name that an earlier component has used already, with the ampersands and equals signs that are
legal there. `count_query` counts both. Values by name add none, and neither does a list unless the
query shares a name with the components before it; `not_count_query_repeated` is such a query.
-/

namespace UriRouting

open scoped CodeUnit

namespace Uri

open Template (Piece Spells)

/-- The names of the placeholders of a component template that may be absent. -/
def partNames (template : Option Text) : List Text := template.elim [] namesOf

/-- The names of the placeholders in the authority of a URI. -/
def Components.authorityNames (c : Components) : List Text :=
  if c.hasHostPart then
    partNames (nonEmpty c.userInfo) ++ (partNames c.host ++ partNames (nonEmpty c.port))
  else partNames c.authority

/-- The names of the placeholders in the components that are rendered before the query. -/
def Components.frontNames (c : Components) : List Text :=
  partNames c.scheme ++ (c.authorityNames ++ partNames c.path)

/-- The texts that a query repeats: those which its names have from components before it. -/
def repeatedTexts (values : Values) (s : Supply) (c : Components) (query : Text) : List Text :=
  ((namesOf query).filter c.frontNames.contains).filterMap (values.recall s)

section

variable {values : Values} {mode : Mode} {kind : Option Component} {template : Option Text}
  {part : Option Text} {c : Components} {s last : Supply}

/-- Rendering a part resolves the names of its template. -/
theorem renderPart_extends (h : renderPart values mode kind template s = .ok (part, last)) :
    Extends values (fun _ => True) (partNames template) s last := by
  cases template with
  | none =>
    obtain ⟨-, rfl⟩ := pure_eq_ok.1 h
    exact .refl s
  | some t =>
    obtain ⟨text, hrender, -⟩ := map_eq_ok.1 h
    exact (renderTemplate_extends hrender).2.1.mono fun _ _ => trivial

/-- Rendering an authority resolves its names. -/
theorem renderAuthority_extends {authority : Option Text}
    (h : renderAuthority values mode c s = .ok (authority, last)) :
    Extends values (fun _ => True) c.authorityNames s last := by
  rw [renderAuthority] at h
  rw [Components.authorityNames]
  split at h
  · next hpart =>
    obtain ⟨userInfo, s₁, huserInfo, h⟩ := bind_eq_ok.1 h
    obtain ⟨host, s₂, hhost, h⟩ := bind_eq_ok.1 h
    obtain ⟨port, s₃, hport, h⟩ := bind_eq_ok.1 h
    obtain ⟨-, rfl⟩ := pure_eq_ok.1 h
    rw [if_pos hpart]
    exact (renderPart_extends huserInfo).trans
      ((renderPart_extends hhost).trans (renderPart_extends hport))
  · next hpart =>
    rw [if_neg hpart]
    exact renderPart_extends h

/-- Pieces spell the units of their literals and of the texts that their names have already, besides
those of the texts that are made. -/
theorem count_of_spells {made : Text → Prop} {pieces : List Piece} {texts : List Text} {text : Text}
    {u : CodeUnit} (h : Spells (fun p => Answers values made s p.name) pieces texts text)
    (hmade : ∀ text, made text → u ∉ text) :
    text.count u = (pieces.flatMap Piece.literalText).count u +
      ((pieces.filterMap Piece.name?).filterMap (values.recall s)).flatten.count u := by
  induction h with
  | nil => rfl
  | @literal written rest texts spelled _ ih =>
    rw [List.count_append, ih, List.flatMap_cons, List.count_append, Nat.add_assoc]
    rfl
  | @placeholder p value rest texts spelled hanswers _ ih =>
    have hnames : (Piece.placeholder p :: rest).filterMap Piece.name? =
        p.name :: rest.filterMap Piece.name? := rfl
    have hliteral : (Piece.placeholder p :: rest).flatMap Piece.literalText =
        rest.flatMap Piece.literalText := rfl
    rw [List.count_append, ih, hnames, hliteral]
    rcases hanswers with hrecall | ⟨hnone, hfresh⟩
    · rw [List.filterMap_cons_some hrecall, List.flatten_cons, List.count_append]
      omega
    · rw [List.filterMap_cons_none hnone, List.count_eq_zero.2 (hmade value hfresh), Nat.zero_add]

/-- What the names of a query have behind the components before it is what they repeat. -/
theorem filterMap_recall_eq {front : Supply} {query : Text}
    (hfront : Extends values (fun _ => True) c.frontNames values.supply front)
    (hkept : ∀ name text, values.recall front name = some text → values.recall last name = some text) :
    (namesOf query).filterMap (values.recall front) = repeatedTexts values last c query := by
  rw [repeatedTexts, List.filterMap_filter]
  apply List.filterMap_congr
  intro name _
  simp only [List.contains_iff_mem]
  cases hrecall : values.recall front name with
  | some text =>
    rcases hfront.fresh name text hrecall with hsupply | ⟨-, hname, -⟩
    · rw [recall_supply] at hsupply
      cases hsupply
    · rw [if_pos hname, hkept name text hrecall]
  | none =>
    split
    · next hname =>
      cases values with
      | named entries => rfl
      | listed items =>
        have hsome := hfront.covers items rfl name hname
        rw [hrecall] at hsome
        cases hsome
    · rfl

/-- The rendered query has the ampersands and equals signs of the literal text of its template and those
of the texts that it repeats. It has no others, and it repeats none of values by name, nor of a list
unless it shares a name with the components before it. -/
theorem count_query {uri query : Text} (h : compose c values mode = .ok uri)
    (hquery : c.query = some query) (hne : query ≠ []) :
    ∃ parts last text, (renderParts values mode c).run values.supply = .ok (parts, last) ∧
      uri = parts.text ∧ parts.query = some text ∧
      (∀ u ∈ (↑"&=" : Text), text.count u = (literalText query).count u +
        (repeatedTexts values last c query).flatten.count u) ∧
      ((∃ entries, values = .named entries) ∨ (namesOf query).Disjoint c.frontNames →
        ∀ u ∈ (↑"&=" : Text), text.count u = (literalText query).count u) := by
  obtain ⟨parts, last, hrender, rfl⟩ := exists_renderParts h
  obtain ⟨s₁, s₂, s₃, s₄, path, hscheme, hauthority, hpath, -, hpart, hfragment⟩ :=
    exists_supplies hrender
  have hnonEmpty : nonEmpty c.query = some query := by
    simp [nonEmpty, hquery, Option.filter_eq_some_iff, hne]
  rw [hnonEmpty] at hpart
  obtain ⟨text, htext, hsome⟩ := map_eq_ok.1 hpart
  obtain ⟨-, hextends, texts, hspells⟩ := renderTemplate_extends htext
  have hfront : Extends values (fun _ => True) c.frontNames values.supply s₃ :=
    (renderPart_extends hscheme).trans
      ((renderAuthority_extends hauthority).trans (renderPart_extends hpath))
  have hkept (name text : Text) (hrecall : values.recall s₃ name = some text) :
      values.recall last name = some text :=
    (renderPart_extends hfragment).kept name text (hextends.kept name text hrecall)
  have hmade (u : CodeUnit) (hu : u ∈ (↑"&=" : Text)) (text : Text)
      (h : Encodes (encodeFor mode (some .queryParam)) text) : u ∉ text := by
    have hclear : text.Disjoint "&=" := disjoint_of_encodes (by decide) h
    exact fun hmem => hclear hmem hu
  have hcount : ∀ u ∈ (↑"&=" : Text), text.count u = (literalText query).count u +
      (repeatedTexts values last c query).flatten.count u := by
    intro u hu
    rw [count_of_spells hspells (hmade u hu), ← filterMap_recall_eq hfront hkept]
    rfl
  refine ⟨parts, last, text, hrender, rfl, hsome.symm, hcount, ?_⟩
  intro hnone u hu
  have hrepeated : repeatedTexts values last c query = [] := by
    rw [repeatedTexts]
    rcases hnone with ⟨entries, rfl⟩ | hdisjoint
    · exact List.filterMap_eq_nil_iff.2 fun _ _ => rfl
    · rw [List.filter_eq_nil_iff.2, List.filterMap_nil]
      simpa using List.disjoint_left.1 hdisjoint
  rw [hcount u hu, hrepeated]
  rfl

/-- A query with one name of the path and one of its own: the text of the first is repeated. -/
theorem count_query_shared :
    ∃ c : Components, ∃ values, ∃ uri query : Text, compose c values .strict = .ok uri ∧
      c.query = some query ∧ query ≠ [] ∧ uri = "/x&y?a=x&y&b=u%26v" ∧
      ∃ parts last text, (renderParts values .strict c).run values.supply = .ok (parts, last) ∧
        parts.query = some text ∧
        ∀ u ∈ (↑"&=" : Text), text.count u = (literalText query).count u +
          (repeatedTexts values last c query).flatten.count u := by
  let c : Components := {
    scheme := none, authority := none, userInfo := none, host := none, port := none,
    path := some "/\x7bp\x7d", query := some "a=\x7bp\x7d&b=\x7bq\x7d", fragment := none }
  let values : Values := .listed [.text "x&y", .text "u&v"]
  have hcompose : (compose c values .strict).toOption = some "/x&y?a=x&y&b=u%26v" := by
    decide +kernel
  cases h : compose c values .strict with
  | error e => simp [h, Except.toOption] at hcompose
  | ok uri =>
    obtain ⟨parts, last, text, hrender, -, htext, hcount, -⟩ := count_query h rfl (by decide)
    exact ⟨c, values, uri, _, h, rfl, by decide, by simpa [h, Except.toOption] using hcompose, parts,
      last, text, hrender, htext, hcount⟩

/-- A value with an ampersand and an equals sign that a path keeps and a query repeats: the query has
both, and its template has one equals sign alone. -/
theorem not_count_query_repeated :
    ∃ c : Components, ∃ values, ∃ query text : Text, c.query = some query ∧ query ≠ [] ∧
      (compose c values .strict).toOption = some "/x&y=z?q=x&y=z" ∧
      ((renderParts values .strict c).run values.supply).toOption.map (fun result => result.1.query) =
        some (some text) ∧
      text.count ('&' : CodeUnit) ≠ (literalText query).count ('&' : CodeUnit) ∧
      text.count ('=' : CodeUnit) ≠ (literalText query).count ('=' : CodeUnit) := by
  let c : Components := {
    scheme := none, authority := none, userInfo := none, host := none, port := none,
    path := some "/\x7ba\x7d", query := some "q=\x7ba\x7d", fragment := none }
  refine ⟨c, .listed [.text "x&y=z"], "q=\x7ba\x7d", "q=x&y=z", rfl, ?_⟩
  decide +kernel

end

end Uri

end UriRouting
