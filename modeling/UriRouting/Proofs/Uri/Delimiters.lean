import UriRouting.Proofs.Component.Alphabet
import UriRouting.Proofs.Uri.Parts
import UriRouting.Proofs.Uri.Rendering

/-!
# Delimiters in composed URIs

Composing a URI renders its parts and puts them together (`compose_eq`). A value that is encoded for a
component holds no delimiter which ends the component, and neither does the text of an earlier component
that a name of a list repeats, since the earlier a component is the more delimiters end it. So only
literal text can move the boundaries of the parts, and without delimiters in it splitting the URI gives
back the rendered parts (`split_compose`).
-/

namespace UriRouting

open scoped CodeUnit

namespace Uri

open Template (Piece Spells)

/-- A component template that is rendered only if it is not empty. -/
def nonEmpty (template : Option Text) : Option Text := template.filter (· ≠ [])

section

variable (values : Values) (mode : Mode)

/-- Render a component template that may be absent. -/
def renderPart (kind : Option Component) : Option Text → Resolution (Option Text)
  | none => pure none
  | some template => some <$> renderTemplate template (values.resolve (encodeFor mode kind))

/-- An authority from its rendered parts. -/
def hostText (userInfo host port : Option Text) : Text :=
  (userInfo.elim ([] : Text) fun t => t ++ "@") ++ host.getD [] ++ Parts.marked ":" port

/-- Render the authority of a URI. -/
def renderAuthority (c : Components) : Resolution (Option Text) :=
  if c.hasHostPart then do
    let userInfo ← renderPart values mode (some .userInfo) (nonEmpty c.userInfo)
    let host ← renderPart values mode (some .host) c.host
    let port ← renderPart values mode none (nonEmpty c.port)
    pure (some (hostText userInfo host port))
  else renderPart values mode (some .authority) c.authority

/-- Render the parts of a URI. -/
def renderParts (c : Components) : Resolution Parts := do
  let scheme ← renderPart values mode none c.scheme
  let authority ← renderAuthority values mode c
  let path ← renderPart values mode (some .path) c.path
  let query ← renderPart values mode (some .queryParam) (nonEmpty c.query)
  let fragment ← renderPart values mode (some .fragment) (nonEmpty c.fragment)
  pure ⟨scheme, authority, path.getD [], query, fragment⟩

/-- Steps are rendered one after the other. -/
theorem renderSteps_append (a b : List Step) :
    renderSteps values mode (a ++ b) =
      renderSteps values mode a >>= fun text =>
        renderSteps values mode b >>= fun more => pure (text ++ more) := by
  induction a with
  | nil => simp [renderSteps]
  | cons step rest ih =>
    simp only [List.cons_append, renderSteps, ih, bind_assoc, pure_bind, List.append_assoc]

variable (kind : Option Component) (template : Option Text)

/-- A template is rendered as a part. -/
theorem renderSteps_part :
    renderSteps values mode (ifPresent template fun t => [.component t kind]) =
      (·.getD []) <$> renderPart values mode kind template := by
  cases template <;> simp [ifPresent, renderSteps, renderPart, Step.render]

/-- A separator in front of a template marks the part. -/
theorem renderSteps_marked (mark : Text) :
    renderSteps values mode (ifPresent template fun t => [.separator mark, .component t kind]) =
      Parts.marked mark <$> renderPart values mode kind template := by
  cases template <;> simp [ifPresent, renderSteps, renderPart, Step.render, Parts.marked]

/-- A separator behind a template ends the part. -/
theorem renderSteps_ended (mark : Text) :
    renderSteps values mode (ifPresent template fun t => [.component t kind, .separator mark]) =
      (fun part => part.elim [] (· ++ mark)) <$> renderPart values mode kind template := by
  cases template <;> simp [ifPresent, renderSteps, renderPart, Step.render]

/-- Steps of a template that is not empty. -/
theorem ifNonEmpty_eq (steps : Text → List Step) :
    ifNonEmpty template steps = ifPresent (nonEmpty template) steps := by
  cases template with
  | none => rfl
  | some t => cases t <;> rfl

/-- The authority is rendered behind two slashes. -/
theorem renderSteps_authority (c : Components) :
    renderSteps values mode c.authoritySteps =
      Parts.marked "//" <$> renderAuthority values mode c := by
  rw [Components.authoritySteps, renderAuthority]
  split
  · simp only [Components.hostSteps, renderSteps_append, renderSteps, ifNonEmpty_eq,
      renderSteps_part, renderSteps_marked, renderSteps_ended, Step.render, map_eq_pure_bind,
      bind_assoc, pure_bind, hostText, Parts.marked, Option.elim_some, List.append_assoc]
  · exact renderSteps_marked ..

/-- Composing a URI renders its parts and puts them together. -/
theorem compose_eq (c : Components) :
    compose c values mode = ((renderParts values mode c).run values.supply).map (·.1.text) := by
  have hsteps : renderSteps values mode c.steps = Parts.text <$> renderParts values mode c := by
    simp only [Components.steps, renderParts, renderSteps_append, renderSteps_authority, ifNonEmpty_eq,
      renderSteps_part, renderSteps_marked, renderSteps_ended, map_eq_pure_bind, bind_assoc, pure_bind,
      Parts.text, List.append_assoc]
  rw [compose, hsteps, StateT.run_map]
  cases (renderParts values mode c).run values.supply <;> rfl

end

section

variable {values : Values} {mode : Mode} {c : Components} {s last : Supply}

/-- A URI that has been composed is put together from rendered parts. -/
theorem exists_renderParts {uri : Text} (h : compose c values mode = .ok uri) :
    ∃ parts last, (renderParts values mode c).run values.supply = .ok (parts, last) ∧
      uri = parts.text := by
  rw [compose_eq] at h
  cases hrender : (renderParts values mode c).run values.supply with
  | error e =>
    rw [hrender] at h
    cases h
  | ok result =>
    rw [hrender] at h
    exact ⟨result.1, result.2, rfl, (Except.ok.inj h).symm⟩

/-- The parts are rendered one after the other, each with the supply that the one before leaves. -/
theorem exists_supplies {parts : Parts} (h : (renderParts values mode c).run s = .ok (parts, last)) :
    ∃ s₁ s₂ s₃ s₄ path,
      renderPart values mode none c.scheme s = .ok (parts.scheme, s₁) ∧
      renderAuthority values mode c s₁ = .ok (parts.authority, s₂) ∧
      renderPart values mode (some .path) c.path s₂ = .ok (path, s₃) ∧ parts.path = path.getD [] ∧
      renderPart values mode (some .queryParam) (nonEmpty c.query) s₃ = .ok (parts.query, s₄) ∧
      renderPart values mode (some .fragment) (nonEmpty c.fragment) s₄ =
        .ok (parts.fragment, last) := by
  obtain ⟨scheme, s₁, hscheme, h⟩ := bind_eq_ok.1 h
  obtain ⟨authority, s₂, hauthority, h⟩ := bind_eq_ok.1 h
  obtain ⟨path, s₃, hpath, h⟩ := bind_eq_ok.1 h
  obtain ⟨query, s₄, hquery, h⟩ := bind_eq_ok.1 h
  obtain ⟨fragment, s₅, hfragment, h⟩ := bind_eq_ok.1 h
  obtain ⟨rfl, rfl⟩ := pure_eq_ok.1 h
  exact ⟨s₁, s₂, s₃, s₄, path, hscheme, hauthority, hpath, rfl, hquery, hfragment⟩

end

section

variable {values : Values} {mode : Mode} {kind : Option Component} {template : Option Text}
  {part : Option Text} {s last : Supply} {delimiters : Text}

/-- What has been encoded for a component holds none of the units that the component does not write. -/
theorem disjoint_of_encodes {k : Component} {text : Text} (hk : k.WritesNone delimiters)
    (h : Encodes (encodeFor mode (some k)) text) : text.Disjoint delimiters := by
  have eq_ok {x : Except Component.EncodingError Text} (h : x.mapError Error.encoding = .ok text) :
      x = .ok text := by
    cases x with
    | error e => cases h
    | ok encoded => exact congrArg Except.ok (Except.ok.inj h)
  obtain ⟨value, h⟩ := h
  have hwrites : ∀ u ∈ text, k.Writes u := by
    cases mode with
    | strict => exact Component.writes_of_encode (eq_ok h)
    | contextual => exact Component.writes_of_contextualEncode (eq_ok h)
  intro u hu hd
  exact hk u hd (hwrites u hu)

/-- A supply whose texts hold no delimiter. -/
def KeepsClear (values : Values) (delimiters : Text) (s : Supply) : Prop :=
  ∀ name text, values.recall s name = some text → text.Disjoint delimiters

/-- A supply keeps clear of fewer delimiters. -/
theorem KeepsClear.mono {fewer : Text} (h : KeepsClear values delimiters s)
    (hsub : fewer ⊆ delimiters) : KeepsClear values fewer s :=
  fun name text hrecall => List.disjoint_of_subset_right hsub (h name text hrecall)

/-- A component template that can be rendered without bringing a delimiter in: its literal text holds
none, and either it has no placeholder or its component writes none. -/
def BringsNone (delimiters : Text) (kind : Option Component) (template : Text) : Prop :=
  (literalText template).Disjoint delimiters ∧
    (('{' : CodeUnit) ∈ template → ∃ k, kind = some k ∧ k.WritesNone delimiters)

/-- A part is there if its template is, and it holds no delimiter if none is brought in. -/
theorem renderPart_disjoint (h : renderPart values mode kind template s = .ok (part, last))
    (hs : KeepsClear values delimiters s)
    (htemplate : ∀ t, template = some t → BringsNone delimiters kind t) :
    part.isSome = template.isSome ∧ (∀ text, part = some text → text.Disjoint delimiters) ∧
      KeepsClear values delimiters last := by
  cases template with
  | none =>
    obtain ⟨rfl, rfl⟩ := pure_eq_ok.1 h
    exact ⟨rfl, by simp, hs⟩
  | some t =>
    obtain ⟨text, hrender, rfl⟩ := map_eq_ok.1 h
    obtain ⟨-, hextends, texts, hspells⟩ := renderTemplate_extends hrender
    obtain ⟨hliteral, hmade⟩ := htemplate t rfl
    have hencoded (name text : Text) (hname : name ∈ namesOf t)
        (h : Encodes (encodeFor mode kind) text) : text.Disjoint delimiters := by
      obtain ⟨k, rfl, hk⟩ := hmade (mem_of_mem_namesOf hname)
      exact disjoint_of_encodes hk h
    refine ⟨rfl, ?_, hextends.all hencoded hs⟩
    intro text htext
    obtain rfl := Option.some.inj htext
    apply hspells.disjoint hliteral
    intro p value hp hanswers
    rcases hanswers with hrecall | ⟨-, hfresh⟩
    · exact hs p.name value hrecall
    · exact hencoded p.name value (List.mem_filterMap.2 ⟨_, hp, rfl⟩) hfresh

/-- A part begins with the slash that its template begins with. -/
theorem head?_of_renderPart {text t : Text} (hslash : t.head? = some ('/' : CodeUnit))
    (h : renderPart values mode kind (some t) s = .ok (some text, last)) :
    text.head? = some ('/' : CodeUnit) := by
  obtain ⟨_, hrender, htext⟩ := map_eq_ok.1 h
  obtain rfl := Option.some.inj htext
  obtain ⟨hpieces, -, texts, hspells⟩ := renderTemplate_extends hrender
  obtain ⟨more, rest, hcons⟩ := exists_readPieces_cons (by decide) hslash hpieces
  rw [hcons] at hspells
  cases hspells with
  | literal _ => rfl

/-- A template that is rendered if it is not empty. -/
theorem eq_some_of_nonEmpty {t : Text} (h : nonEmpty template = some t) :
    template = some t ∧ t ≠ [] := by
  simpa [nonEmpty, Option.filter_eq_some_iff] using h

end

/-- Component templates whose literal text moves no boundary. The scheme has no placeholder and holds no
delimiter, there is an authority, the port has no placeholder, the path is empty or begins with a slash,
and no literal text holds a delimiter that ends its component. -/
structure Components.WellDelimited (c : Components) : Prop where
  scheme : ∀ t, c.scheme = some t → t ≠ [] ∧ t.Disjoint ":/?#\x7b"
  hasAuthority : c.hasHostPart = true ∨ c.authority.isSome = true
  port : ∀ t, c.port = some t → ('{' : CodeUnit) ∉ t
  authority : ∀ t, c.userInfo = some t ∨ c.host = some t ∨ c.port = some t ∨ c.authority = some t →
    (literalText t).Disjoint "/?#"
  path : ∀ t, c.path = some t →
    t = [] ∨ t.head? = some ('/' : CodeUnit) ∧ (literalText t).Disjoint "?#"
  query : ∀ t, c.query = some t → (literalText t).Disjoint "#"

section

variable {values : Values} {mode : Mode} {c : Components} {s last : Supply}

namespace Components.WellDelimited

/-- The scheme is its own text. -/
theorem scheme_bringsNone (hc : c.WellDelimited) :
    ∀ t, c.scheme = some t → BringsNone ":/?#" none t := by
  intro t ht
  obtain ⟨-, hdisjoint⟩ := hc.scheme t ht
  have hbrace : ('{' : CodeUnit) ∉ t := fun hbrace => hdisjoint hbrace (by decide)
  refine ⟨?_, fun h => absurd h hbrace⟩
  rw [literalText_of_not_mem hbrace]
  exact List.disjoint_of_subset_right (by decide) hdisjoint

/-- The path brings no delimiter of a path in. -/
theorem path_bringsNone (hc : c.WellDelimited) :
    ∀ t, c.path = some t → BringsNone "?#" (some .path) t := by
  intro t ht
  refine ⟨?_, fun _ => ⟨.path, rfl, by decide⟩⟩
  rcases hc.path t ht with rfl | ⟨-, hliteral⟩
  · exact List.disjoint_nil_left _
  · exact hliteral

/-- The rendered path is empty or begins with a slash. -/
theorem head?_path (hc : c.WellDelimited) {path : Option Text}
    (h : renderPart values mode (some .path) c.path s = .ok (path, last)) :
    ∀ u ∈ (path.getD []).head?, u = '/' := by
  intro u hu
  cases hpath : c.path with
  | none =>
    rw [hpath] at h
    obtain ⟨rfl, -⟩ := pure_eq_ok.1 h
    cases hu
  | some t =>
    rw [hpath] at h
    obtain ⟨text, hrender, rfl⟩ := map_eq_ok.1 h
    rcases hc.path t hpath with rfl | ⟨hslash, -⟩
    · obtain ⟨rfl, -⟩ := pure_eq_ok.1 hrender
      cases hu
    · exact Option.some.inj (hu.symm.trans (head?_of_renderPart hslash h))

end Components.WellDelimited

/-- The authority of well-delimited components is there and holds no delimiter that ends it. -/
theorem renderAuthority_disjoint {authority : Option Text} (hc : c.WellDelimited)
    (h : renderAuthority values mode c s = .ok (authority, last))
    (hs : KeepsClear values "/?#" s) :
    (∃ t, authority = some t ∧ t.Disjoint "/?#") ∧ KeepsClear values "/?#" last := by
  rw [renderAuthority] at h
  split at h
  · obtain ⟨userInfo, s₁, huserInfo, h⟩ := bind_eq_ok.1 h
    obtain ⟨host, s₂, hhost, h⟩ := bind_eq_ok.1 h
    obtain ⟨port, s₃, hport, h⟩ := bind_eq_ok.1 h
    obtain ⟨rfl, rfl⟩ := pure_eq_ok.1 h
    obtain ⟨-, huserInfo, hs₁⟩ := renderPart_disjoint huserInfo hs fun t ht =>
      ⟨hc.authority t (.inl (eq_some_of_nonEmpty ht).1), fun _ => ⟨.userInfo, rfl, by decide⟩⟩
    obtain ⟨-, hhost, hs₂⟩ := renderPart_disjoint hhost hs₁ fun t ht =>
      ⟨hc.authority t (.inr (.inl ht)), fun _ => ⟨.host, rfl, by decide⟩⟩
    obtain ⟨-, hport, hs₃⟩ := renderPart_disjoint hport hs₂ fun t ht =>
      ⟨hc.authority t (.inr (.inr (.inl (eq_some_of_nonEmpty ht).1))),
        fun hbrace => absurd hbrace (hc.port t (eq_some_of_nonEmpty ht).1)⟩
    refine ⟨⟨_, rfl, ?_⟩, hs₃⟩
    have hat : (↑"@" : Text).Disjoint "/?#" := by decide
    have hcolon : (↑":" : Text).Disjoint "/?#" := by decide
    rw [hostText, List.disjoint_append_left, List.disjoint_append_left]
    refine ⟨⟨?_, ?_⟩, ?_⟩
    · cases userInfo with
      | none => exact List.disjoint_nil_left _
      | some t => exact List.disjoint_append_left.2 ⟨huserInfo t rfl, hat⟩
    · cases host with
      | none => exact List.disjoint_nil_left _
      | some t => exact hhost t rfl
    · cases port with
      | none => exact List.disjoint_nil_left _
      | some t => exact List.disjoint_append_left.2 ⟨hcolon, hport t rfl⟩
  · next hpart =>
    obtain ⟨hsome, hauthority, hlast⟩ := renderPart_disjoint h hs fun t ht =>
      ⟨hc.authority t (.inr (.inr (.inr ht))), fun _ => ⟨.authority, rfl, by decide⟩⟩
    rw [hc.hasAuthority.resolve_left hpart] at hsome
    obtain ⟨t, ht⟩ := Option.isSome_iff_exists.1 hsome
    exact ⟨⟨t, ht, hauthority t ht⟩, hlast⟩

/-- Splitting a URI that has been composed of well-delimited components gives back the rendered parts,
and a part is there exactly if it has been rendered. -/
theorem split_compose {uri : Text} (hc : c.WellDelimited) (h : compose c values mode = .ok uri) :
    ∃ parts last, (renderParts values mode c).run values.supply = .ok (parts, last) ∧
      Parts.split uri = parts ∧ parts.scheme.isSome = c.scheme.isSome ∧
      parts.authority.isSome = true ∧ parts.query.isSome = (nonEmpty c.query).isSome ∧
      parts.fragment.isSome = (nonEmpty c.fragment).isSome := by
  obtain ⟨parts, last, hrender, rfl⟩ := exists_renderParts h
  obtain ⟨s₁, s₂, s₃, s₄, path, hscheme, hauthority, hpath, hpathText, hquery, hfragment⟩ :=
    exists_supplies hrender
  have hs : KeepsClear values ":/?#" values.supply := by
    intro name text hrecall
    rw [recall_supply] at hrecall
    cases hrecall
  -- The delimiters that end a part are among those that end the part before.
  obtain ⟨hschemeSome, hschemeClear, hs₁⟩ := renderPart_disjoint hscheme hs hc.scheme_bringsNone
  obtain ⟨⟨t, ht, hclear⟩, hs₂⟩ := renderAuthority_disjoint hc hauthority (hs₁.mono (by decide))
  obtain ⟨-, hpathClear, hs₃⟩ :=
    renderPart_disjoint hpath (hs₂.mono (by decide)) hc.path_bringsNone
  obtain ⟨hquerySome, hqueryClear, -⟩ :=
    renderPart_disjoint hquery (hs₃.mono (by decide)) fun t ht =>
      ⟨hc.query t (eq_some_of_nonEmpty ht).1, fun _ => ⟨.queryParam, rfl, by decide⟩⟩
  have hs₄ : KeepsClear values [] s₄ := fun _ _ _ => List.disjoint_nil_right _
  obtain ⟨hfragmentSome, -⟩ := renderPart_disjoint hfragment hs₄ fun t ht =>
    ⟨List.disjoint_nil_right _, fun _ => ⟨.fragment, rfl, by decide⟩⟩
  have hseparated : parts.Separated := by
    refine ⟨hschemeClear, ⟨t, ht, hclear⟩, ?_, ?_, hqueryClear⟩
    · rw [hpathText]
      cases path with
      | none => exact List.disjoint_nil_left _
      | some t => exact hpathClear t rfl
    · rw [hpathText]
      exact hc.head?_path hpath
  exact ⟨parts, last, hrender, Parts.split_text hseparated, hschemeSome, by rw [ht]; rfl, hquerySome,
    hfragmentSome⟩

/-- Values full of delimiters in a URI with all parts; the query and the fragment repeat texts of the
path and of the host. -/
theorem split_compose_repeated :
    ∃ c : Components, ∃ values, ∃ uri : Text, c.WellDelimited ∧
      compose c values .contextual = .ok uri ∧
      uri = "http://a%2Fb@c%3Fd:80/e%23f%2F?q=g%26h%23i&p=e%23f%2F#c%3Fd" ∧
      ∃ parts last, (renderParts values .contextual c).run values.supply = .ok (parts, last) ∧
        Parts.split uri = parts := by
  let c : Components := {
    scheme := some "http", authority := none, userInfo := some "\x7bu\x7d", host := some "\x7bh\x7d",
    port := some "80", path := some "/\x7bp\x7d", query := some "q=\x7bq\x7d&p=\x7bp\x7d",
    fragment := some "\x7bh\x7d" }
  let values : Values := .listed [.text "a/b", .text "c?d", .text "e#f%2F", .text "g&h#i"]
  have hcompose : (compose c values .contextual).toOption =
      some "http://a%2Fb@c%3Fd:80/e%23f%2F?q=g%26h%23i&p=e%23f%2F#c%3Fd" := by
    decide +kernel
  have hc : c.WellDelimited := by
    constructor
    · rintro _ ⟨⟩
      exact ⟨by decide, by decide⟩
    · decide
    · rintro _ ⟨⟩
      decide
    · rintro _ (⟨⟨⟩⟩ | ⟨⟨⟩⟩ | ⟨⟨⟩⟩ | ⟨⟨⟩⟩) <;> decide +kernel
    · rintro _ ⟨⟩
      exact .inr ⟨rfl, by decide +kernel⟩
    · rintro _ ⟨⟩
      decide +kernel
  cases h : compose c values .contextual with
  | error e => simp [h, Except.toOption] at hcompose
  | ok uri =>
    obtain ⟨parts, last, hrender, hsplit, -⟩ := split_compose hc h
    exact ⟨c, values, uri, hc, h, by simpa [h, Except.toOption] using hcompose, parts, last, hrender,
      hsplit⟩

end

end Uri

end UriRouting
