import UriRouting.Proofs.Template.Filling
import UriRouting.Uri.Composition

/-!
# Rendering the template of a component

Rendering resolves the placeholders of a template from left to right and leaves the literals alone
(`renderTemplate_eq`). What a placeholder becomes depends on the supply: a name that has taken a value
of a list keeps the text which the value was encoded to then (`Values.recall`), any other text is
encoded now. `Extends` says what that does to the supply, for one name and, by induction, for all names
of a template.
-/

namespace UriRouting

open scoped CodeUnit

namespace Uri

open Template (Piece Spells resolveSegments resolveSegments_append resolveSegments_units)

/-- The pieces of a component template; one without an opening brace is not read at all. -/
def readPieces (template : Text) : Except Template.Error (List Piece) :=
  if ('{' : CodeUnit) ∈ template then
    (Template.Outline.parse template).map Template.Outline.pieces
  else .ok [.literal template]

/-- The pieces of a component template that is not refused. -/
def piecesOf (template : Text) : List Piece := (readPieces template).toOption.getD []

/-- The text of a component template outside its placeholders. -/
def literalText (template : Text) : Text := (piecesOf template).flatMap Piece.literalText

/-- The names of the placeholders of a component template, in order. -/
def namesOf (template : Text) : List Text := (piecesOf template).filterMap Piece.name?

/-- The pieces of a template without an opening brace. -/
theorem piecesOf_of_not_mem {template : Text} (h : ('{' : CodeUnit) ∉ template) :
    piecesOf template = [.literal template] := by
  rw [piecesOf, readPieces, if_neg h]
  rfl

/-- Only a template with an opening brace has placeholders. -/
theorem mem_of_mem_namesOf {template name : Text} (h : name ∈ namesOf template) :
    ('{' : CodeUnit) ∈ template := by
  by_contra hbrace
  rw [namesOf, piecesOf_of_not_mem hbrace] at h
  cases h

/-- A template without an opening brace is its own literal text. -/
theorem literalText_of_not_mem {template : Text} (h : ('{' : CodeUnit) ∉ template) :
    literalText template = template := by
  rw [literalText, piecesOf_of_not_mem h, List.flatMap_singleton]
  rfl

/-- Rendering a template resolves its placeholders from left to right. -/
theorem renderTemplate_eq (template : Text) (resolve : Text → Resolution Text) :
    renderTemplate template resolve =
      match readPieces template with
      | .error e => throw (.template e)
      | .ok pieces => resolveSegments resolve (pieces.flatMap Piece.segments) := by
  rw [renderTemplate, readPieces]
  split
  · cases hparse : Template.Outline.parse template with
    | error e => rfl
    | ok o =>
      obtain ⟨hsound, -⟩ := Template.parse_sound hparse
      change Template.substitute resolve o.normalized = resolveSegments resolve _
      rw [Template.substitute, Template.Outline.normalized, Template.segments_normalized
        (fun text htext => (hsound.literal text htext).2)
        (fun p hp => (hsound.placeholder p hp).name)]
  · change pure template = resolveSegments resolve (List.flatMap _ _)
    rw [List.flatMap_singleton, Piece.segments, resolveSegments_units]

/-- A computation in two steps succeeds if the second one does behind the first. -/
theorem bind_eq_ok {α β : Type} {x : Resolution α} {f : α → Resolution β} {s last : Supply} {b : β} :
    (x >>= f) s = .ok (b, last) ↔ ∃ a mid, x s = .ok (a, mid) ∧ f a mid = .ok (b, last) := by
  change (x s >>= fun p => f p.1 p.2) = _ ↔ _
  cases x s with
  | error e => simp [bind, Except.bind]
  | ok p =>
    obtain ⟨a, mid⟩ := p
    simp [bind, Except.bind]

/-- A result that is there already leaves the supply as it is. -/
theorem pure_eq_ok {α : Type} {a b : α} {s last : Supply} :
    (pure a : Resolution α) s = .ok (b, last) ↔ a = b ∧ s = last := by
  change Except.ok (a, s) = _ ↔ _
  simp

/-- A changed result comes from a result. -/
theorem map_eq_ok {α β : Type} {x : Resolution α} {f : α → β} {s last : Supply} {b : β} :
    (f <$> x) s = .ok (b, last) ↔ ∃ a, x s = .ok (a, last) ∧ f a = b := by
  rw [map_eq_pure_bind, bind_eq_ok]
  simp only [pure_eq_ok]
  constructor
  · rintro ⟨a, mid, hx, rfl, rfl⟩
    exact ⟨a, hx, rfl⟩
  · rintro ⟨a, hx, rfl⟩
    exact ⟨a, last, hx, rfl, rfl⟩

/-- The text that a name has already; values by name keep none. -/
def Values.recall (values : Values) (s : Supply) (name : Text) : Option Text :=
  match values with
  | named _ => none
  | listed _ => s.assigned.get? name

/-- Nothing has been taken at first. -/
theorem recall_supply (values : Values) (name : Text) : values.recall values.supply name = none := by
  cases values <;> rfl

/-- The text of a name: the one that it has already, or one that is made now. -/
def Answers (values : Values) (made : Text → Prop) (s : Supply) (name text : Text) : Prop :=
  values.recall s name = some text ∨ (values.recall s name = none ∧ made text)

/-- What resolving some names makes of a supply: no text is lost, further ones are made for these
names alone, and all of them have a text if the values come in a list. -/
structure Extends (values : Values) (made : Text → Prop) (names : List Text) (s last : Supply) :
    Prop where
  kept : ∀ name text, values.recall s name = some text → values.recall last name = some text
  fresh : ∀ name text, values.recall last name = some text →
    values.recall s name = some text ∨ (values.recall s name = none ∧ name ∈ names ∧ made text)
  covers : ∀ items, values = .listed items → ∀ name ∈ names, (values.recall last name).isSome

namespace Extends

variable {values : Values} {made : Text → Prop} {names more : List Text} {s mid last : Supply}

/-- Nothing is resolved. -/
theorem refl (s : Supply) : Extends values made [] s s :=
  ⟨fun _ _ h => h, fun _ _ h => .inl h, by simp⟩

/-- A name without a text afterwards had none before. -/
theorem recall_eq_none (h : Extends values made names s last) {name : Text}
    (hnone : values.recall last name = none) : values.recall s name = none := by
  cases hrecall : values.recall s name with
  | none => rfl
  | some text =>
    rw [h.kept name text hrecall] at hnone
    cases hnone

/-- What a name becomes behind other names is what it would become before them, or made for it. -/
theorem answers (h : Extends values made names s mid) {name text : Text}
    (hanswers : Answers values made mid name text) : Answers values made s name text := by
  rcases hanswers with hrecall | ⟨hnone, hmade⟩
  · exact (h.fresh name text hrecall).imp id fun hfresh => ⟨hfresh.1, hfresh.2.2⟩
  · exact .inr ⟨h.recall_eq_none hnone, hmade⟩

/-- Names are resolved one after the other. -/
theorem trans (h : Extends values made names s mid) (h' : Extends values made more mid last) :
    Extends values made (names ++ more) s last where
  kept name text hrecall := h'.kept name text (h.kept name text hrecall)
  fresh name text hrecall := by
    rcases h'.fresh name text hrecall with hmid | ⟨hnone, hname, hmade⟩
    · exact (h.fresh name text hmid).imp id fun hfresh =>
        ⟨hfresh.1, List.mem_append_left _ hfresh.2.1, hfresh.2.2⟩
    · exact .inr ⟨h.recall_eq_none hnone, List.mem_append_right _ hname, hmade⟩
  covers items hvalues name hname := by
    rcases List.mem_append.1 hname with hname | hname
    · obtain ⟨text, hrecall⟩ := Option.isSome_iff_exists.1 (h.covers items hvalues name hname)
      rw [h'.kept name text hrecall]
      rfl
    · exact h'.covers items hvalues name hname

/-- Texts that are made in one way are made in a more general way. -/
theorem mono {made' : Text → Prop} (h : Extends values made names s last)
    (himp : ∀ text, made text → made' text) : Extends values made' names s last :=
  ⟨h.kept, fun name text hrecall => (h.fresh name text hrecall).imp id fun hfresh =>
    ⟨hfresh.1, hfresh.2.1, himp text hfresh.2.2⟩, h.covers⟩

/-- If the texts that are there have a property, and those that are made have it, all have it. -/
theorem all {P : Text → Prop} (h : Extends values made names s last)
    (hmade : ∀ name text, name ∈ names → made text → P text)
    (hs : ∀ name text, values.recall s name = some text → P text) :
    ∀ name text, values.recall last name = some text → P text := by
  intro name text hrecall
  rcases h.fresh name text hrecall with hbefore | ⟨-, hname, hfresh⟩
  · exact hs name text hbefore
  · exact hmade name text hname hfresh

end Extends

/-- A text that an encoder gives. -/
def Encodes (encode : Text → Except Error Text) (text : Text) : Prop := ∃ value, encode value = .ok text

/-- A value other than null is encoded as its text. -/
theorem encodes_of_encodedText {encode : Text → Except Error Text} {name text : Text}
    {value : Json.Value} (h : encodedText encode name value = .ok text) : Encodes encode text := by
  cases value with
  | null => cases h
  | _ => exact ⟨_, h⟩

/-- A name becomes the text that it has already, or a text that the encoder gives; in a list it keeps
that text. -/
theorem resolve_extends {values : Values} {encode : Text → Except Error Text} {name text : Text}
    {s last : Supply} (h : values.resolve encode name s = .ok (text, last)) :
    Answers values (Encodes encode) s name text ∧ Extends values (Encodes encode) [name] s last := by
  cases values with
  | named entries =>
    change (resolveNamed entries encode name).bind (fun text => .ok (text, s)) = .ok (text, last) at h
    rw [resolveNamed] at h
    cases hvalue : entries.get? name with
    | none => simp [hvalue, Except.bind] at h
    | some value =>
      cases hencoded : encodedText encode name value with
      | error e => simp [hvalue, hencoded, Except.bind] at h
      | ok encoded =>
        obtain ⟨rfl, rfl⟩ : encoded = text ∧ s = last := by
          simpa [hvalue, hencoded, Except.bind] using h
        exact ⟨.inr ⟨rfl, encodes_of_encodedText hencoded⟩, fun _ _ hrecall => hrecall,
          fun _ _ hrecall => .inl hrecall, fun items hlisted => by cases hlisted⟩
  | listed items =>
    change resolveListed encode name s = .ok (text, last) at h
    rw [resolveListed] at h
    cases hassigned : s.assigned.get? name with
    | some prior =>
      obtain ⟨rfl, rfl⟩ : prior = text ∧ s = last := by simpa [hassigned] using h
      refine ⟨.inl hassigned, fun _ _ hrecall => hrecall, fun _ _ hrecall => .inl hrecall, ?_⟩
      intro items' _ other hother
      rw [List.mem_singleton.1 hother, Values.recall, hassigned]
      rfl
    | none =>
      cases hremaining : s.remaining with
      | nil => simp [hassigned, hremaining] at h
      | cons value rest =>
        cases hencoded : encodedText encode name value with
        | error e => simp [hassigned, hremaining, hencoded, bind, Except.bind] at h
        | ok encoded =>
          obtain ⟨rfl, rfl⟩ : encoded = text ∧ ⟨s.assigned.insert name encoded, rest⟩ = last := by
            simpa [hassigned, hremaining, hencoded, bind, Except.bind] using h
          have hmade := encodes_of_encodedText hencoded
          -- Writing under a name that has no text yet changes the text of no other name.
          refine ⟨.inr ⟨hassigned, hmade⟩, ?_, ?_, ?_⟩
          · intro other text hrecall
            have hne : other ≠ name := by
              rintro rfl
              exact Option.some_ne_none _ (hrecall.symm.trans hassigned)
            rw [Values.recall, Entries.get?_insert, if_neg hne]
            exact hrecall
          · intro other text hrecall
            rw [Values.recall, Entries.get?_insert] at hrecall
            split at hrecall
            · next hother =>
              subst hother
              obtain rfl := Option.some.inj hrecall
              exact .inr ⟨hassigned, List.mem_singleton.2 rfl, hmade⟩
            · exact .inl hrecall
          · intro items' _ other hother
            rw [List.mem_singleton.1 hother, Values.recall, Entries.get?_insert, if_pos rfl]
            rfl

/-- Resolving the placeholders of pieces gives a text which the pieces spell with the texts that their
names become. -/
theorem resolveSegments_extends {values : Values} {encode : Text → Except Error Text}
    {pieces : List Piece} {text : Text} {s last : Supply}
    (h : resolveSegments (values.resolve encode) (pieces.flatMap Piece.segments) s =
      .ok (text, last)) :
    Extends values (Encodes encode) (pieces.filterMap Piece.name?) s last ∧
      ∃ texts, Spells (fun p => Answers values (Encodes encode) s p.name) pieces texts text := by
  induction pieces generalizing s text with
  | nil =>
    obtain ⟨rfl, rfl⟩ := pure_eq_ok.1 h
    exact ⟨.refl s, [], .nil⟩
  | cons piece rest ih =>
    rw [List.flatMap_cons, resolveSegments_append] at h
    obtain ⟨first, mid, hfirst, h⟩ := bind_eq_ok.1 h
    obtain ⟨more, last', hmore, h⟩ := bind_eq_ok.1 h
    obtain ⟨rfl, rfl⟩ := pure_eq_ok.1 h
    obtain ⟨hrest, texts, hspells⟩ := ih hmore
    cases piece with
    | literal written =>
      rw [Piece.segments, resolveSegments_units] at hfirst
      obtain ⟨rfl, rfl⟩ := pure_eq_ok.1 hfirst
      exact ⟨hrest, texts, .literal hspells⟩
    | placeholder p =>
      obtain ⟨value, mid', hvalue, hfirst⟩ := bind_eq_ok.1 hfirst
      obtain ⟨_, _, hnil, hfirst⟩ := bind_eq_ok.1 hfirst
      obtain ⟨rfl, rfl⟩ := pure_eq_ok.1 hnil
      obtain ⟨rfl, rfl⟩ := pure_eq_ok.1 hfirst
      rw [List.append_nil]
      obtain ⟨hanswers, hextends⟩ := resolve_extends hvalue
      exact ⟨hextends.trans hrest, value :: texts,
        .placeholder hanswers (hspells.mono fun p _ => hextends.answers)⟩

/-- Rendering a template gives a text which its pieces spell with the texts that their names become. -/
theorem renderTemplate_extends {values : Values} {encode : Text → Except Error Text}
    {template text : Text} {s last : Supply}
    (h : renderTemplate template (values.resolve encode) s = .ok (text, last)) :
    readPieces template = .ok (piecesOf template) ∧
      Extends values (Encodes encode) (namesOf template) s last ∧
      ∃ texts, Spells (fun p => Answers values (Encodes encode) s p.name) (piecesOf template) texts
        text := by
  rw [renderTemplate_eq] at h
  rw [namesOf, piecesOf]
  cases hpieces : readPieces template with
  | error e =>
    rw [hpieces] at h
    cases h
  | ok pieces =>
    rw [hpieces] at h
    exact ⟨rfl, resolveSegments_extends h⟩

/-- A template that begins with another unit than an opening brace begins with a literal. -/
theorem exists_readPieces_cons {template : Text} {pieces : List Piece} {u : CodeUnit}
    (hu : u ≠ '{') (hhead : template.head? = some u) (h : readPieces template = .ok pieces) :
    ∃ more rest, pieces = .literal (u :: more) :: rest := by
  obtain ⟨more, rfl⟩ := List.head?_eq_some_iff.1 hhead
  rw [readPieces] at h
  split at h
  · cases hparse : Template.Outline.parse (u :: more) with
    | error e =>
      rw [hparse] at h
      cases h
    | ok o =>
      rw [hparse] at h
      obtain rfl := Except.ok.inj h
      obtain ⟨hsound, -, -, texts, hread, htexts⟩ := Template.parse_sound hparse
      cases hpieces : o.pieces with
      | nil =>
        rw [hpieces, List.forall₂_nil_left_iff] at hread
        subst hread
        cases htexts
      | cons piece rest =>
        rw [hpieces] at hread
        cases hread with
        | @cons _ text _ texts hpiece hrest =>
          cases piece with
          | literal written =>
            obtain ⟨rfl, hne, -⟩ := hpiece
            obtain ⟨v, written, rfl⟩ := List.exists_cons_of_ne_nil hne
            obtain ⟨rfl, -⟩ := List.cons.inj htexts
            exact ⟨written, rest, rfl⟩
          | placeholder p =>
            obtain ⟨body, rfl, -⟩ := hpiece
            exact absurd (List.cons.inj htexts).1.symm hu
  · obtain rfl := Except.ok.inj h
    exact ⟨more, [], rfl⟩

end Uri

end UriRouting
