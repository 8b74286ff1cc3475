import UriRouting.Proofs.Template.Filling
import UriRouting.Proofs.Template.FirstOccurrence
import UriRouting.Proofs.Template.Grammar

/-!
# Normalized templates

A template is read by one grammar and filled in by another one, which knows nothing of constraints and
white space. The two agree on what has been read: filling in the normalized form asks for the names of
the placeholders and keeps the literals as they are written, whatever braces and backslashes these hold
(`substitute_normalized`). And the normalized form is itself a template, written with the same literals
and with bare placeholders, so that reading it again changes nothing (`parse_normalized`).
-/

namespace UriRouting

open scoped CodeUnit

namespace Template

/-- The name of a written placeholder is the one that is written. -/
theorem Written.name_placeholder (w : Written) : w.placeholder.name = w.name.1 := by
  rw [placeholder]
  cases w.suffix.constraint? <;> rfl

/-- The normalized form of what is written with some items is filled in like their pieces. -/
theorem substitute_outlineOf {m : Type → Type} [Monad m] [LawfulMonad m] (resolve : Text → m Text)
    (items : List Item) :
    substitute resolve (outlineOf items).normalized =
      fillPieces (outlineOf items).pieces <$>
        ((outlineOf items).pieces.filterMap Piece.name?).mapM resolve := by
  have hliteral (text : Text) (h : .literal text ∈ (outlineOf items).pieces) :
      ('{' : CodeUnit) ∉ text := by
    obtain ⟨item, -, hitem⟩ := List.mem_map.1 h
    cases item with
    | literal t => exact Piece.literal.inj hitem ▸ t.2
    | placeholder w => cases hitem
  have hname (p : Placeholder) (h : .placeholder p ∈ (outlineOf items).pieces) :
      isName p.name = true := by
    obtain ⟨item, -, hitem⟩ := List.mem_map.1 h
    cases item with
    | literal t => cases hitem
    | placeholder w => exact Piece.placeholder.inj hitem ▸ w.name_placeholder ▸ w.name.2
  exact substitute_pieces hliteral hname resolve

/-- Pieces with nothing in the places of the placeholders are their literals. -/
theorem fillPieces_nothing (pieces : List Piece) :
    fillPieces pieces ((pieces.filterMap Piece.name?).map fun _ => []) =
      pieces.flatMap Piece.literalText := by
  induction pieces with
  | nil => rfl
  | cons piece rest ih =>
    rw [List.flatMap_cons, ← ih]
    cases piece <;> rfl

/-- An outline says of a template with the given pieces what filling in its normalized form needs: the
names are asked for one after the other, as often as they are written, and the answers stand in their
places between the literals. -/
structure Outline.FillsIn (o : Outline) (pieces : List Piece) : Prop where
  resolves : ∀ {m : Type → Type} [Monad m] [LawfulMonad m] (resolve : Text → m Text),
    substitute resolve o.normalized =
      fillPieces pieces <$> (pieces.filterMap Piece.name?).mapM resolve
  mem_names : ∀ name, name ∈ o.names ↔ name ∈ pieces.filterMap Piece.name?
  ordered : o.names.Pairwise fun name next =>
    (pieces.filterMap Piece.name?).idxOf name < (pieces.filterMap Piece.name?).idxOf next
  groupNames : o.groupNames.filterMap id = pieces.filterMap Piece.name?
  literalCharacters : o.literalCharacters =
    (Id.run (substitute (fun _ => pure []) o.normalized)).length

/-- A template is written with literals and placeholders, and its normalized form is filled in like
these: nothing else in it or in an answer is taken for a placeholder. The names are the distinct ones of
the placeholders in the order of their first occurrences, the groups with a name are those of the
placeholders, and what is filled in with nothing has the literal units. -/
theorem substitute_normalized {template : Text} {o : Outline} (h : Outline.parse template = .ok o) :
    (∃ items, written items = template) ∧
      ∀ items, written items = template → o.FillsIn (outlineOf items).pieces := by
  obtain ⟨own, rfl, rfl⟩ := exists_items_of_parse h
  refine ⟨⟨own, rfl⟩, fun items hitems => ?_⟩
  have hagrees := agrees_merge (written own) items
  rw [merge_eq_of_written_eq hitems] at hagrees
  refine ⟨fun resolve => ?_, fun name => ?_, ?_, ?_, ?_⟩
  · rw [hagrees.normalized, substitute_outlineOf]
  · rw [hagrees.names, Outline.names, List.mem_eraseDups]
  · rw [hagrees.names]
    exact pairwise_idxOf_eraseDups _
  · rw [hagrees.groupNames, Outline.groupNames, filterMap_groupNames]
  · rw [hagrees.normalized, substitute_outlineOf, List.mapM_pure, hagrees.literalCharacters,
      Outline.literalCharacters, ← fillPieces_nothing]
    rfl

/-- Answers that look like placeholders, behind a brace and a backslash of the template itself. -/
theorem substitute_normalized_braces :
    ∃ o, Outline.parse "/\\\x7d\x7ba:x+\x7d\x7bb\x7d$\x7b a \x7d" = .ok o ∧
      o.normalized = "/\\\x7d\x7ba\x7d\x7bb\x7d$\x7ba\x7d" ∧
      StateT.run (substitute (m := StateM (List Text))
        (fun name asked => pure (↑"\x7bb\x7d", asked ++ [name])) o.normalized) [] =
          pure (↑"/\\\x7d\x7bb\x7d\x7bb\x7d$\x7bb\x7d", [↑"a", ↑"b", ↑"a"]) := by
  let blank : Blanks := ⟨" ", List.forall_mem_singleton.2 rfl⟩
  let nothing : Blanks := ⟨[], List.forall_mem_nil _⟩
  have htrimmed : Text.Trimmed "x+" := by
    refine ⟨?_, ?_⟩ <;> intro u hu <;> obtain rfl := Option.some.inj hu <;> rfl
  let letters : Constraint := ⟨"x+", 0, by decide, htrimmed, by decide, by decide +kernel⟩
  let items : List Item := [.literal ⟨"/\\\x7d", by decide⟩,
    .placeholder ⟨nothing, ⟨"a", by decide⟩, nothing, .constraint nothing letters nothing⟩,
    .placeholder ⟨nothing, ⟨"b", by decide⟩, nothing, .absent⟩, .literal ⟨"$", by decide⟩,
    .placeholder ⟨blank, ⟨"a", by decide⟩, blank, .absent⟩]
  have hwritten : written items = "/\\\x7d\x7ba:x+\x7d\x7bb\x7d$\x7b a \x7d" := rfl
  have hparse : (Outline.parse "/\\\x7d\x7ba:x+\x7d\x7bb\x7d$\x7b a \x7d").toOption.map
      Outline.normalized = some ("/\\\x7d\x7ba\x7d\x7bb\x7d$\x7ba\x7d" : Text) := by
    decide +kernel
  cases h : Outline.parse "/\\\x7d\x7ba:x+\x7d\x7bb\x7d$\x7b a \x7d" with
  | error e => simp [h, Except.toOption] at hparse
  | ok o =>
    have hnormalized : o.normalized = "/\\\x7d\x7ba\x7d\x7bb\x7d$\x7ba\x7d" := by
      simpa [h, Except.toOption] using hparse
    have hfills := (substitute_normalized h).2 items hwritten
    refine ⟨o, rfl, hnormalized, ?_⟩
    rw [hfills.resolves]
    rfl

/-- A piece without its constraint. -/
def Piece.bare : Piece → Piece
  | literal text => .literal text
  | placeholder p => .placeholder ⟨p.name, none, 0⟩

/-- An item without white space and without its constraint. -/
def Item.bare : Item → Item
  | literal t => .literal t
  | placeholder w => .placeholder ⟨⟨[], by simp⟩, w.name, ⟨[], by simp⟩, .absent⟩

namespace Item

/-- The piece of a bare item is bare. -/
theorem piece_bare (item : Item) : item.bare.piece = item.piece.bare := by
  cases item with
  | literal t => rfl
  | placeholder w =>
    rw [piece, Piece.bare, w.name_placeholder]
    rfl

/-- A bare item is written as its piece is normalized. -/
theorem text_bare (item : Item) : item.bare.text = item.piece.normalized := by
  cases item with
  | literal t => rfl
  | placeholder w =>
    rw [piece, Piece.normalized, w.name_placeholder]
    simp [bare, text, Written.body, Suffix.text]

/-- A bare item names no group. -/
theorem unnamed_bare (item : Item) : item.bare.Unnamed := by
  cases item with
  | literal t => trivial
  | placeholder w =>
    intro c hc
    cases hc

/-- Nothing is left of an item only if nothing was written. -/
theorem text_eq_nil_of_bare {item : Item} (h : item.bare.text = []) : item.text = [] := by
  cases item with
  | literal t => exact h
  | placeholder w => cases h

end Item

section

variable (items : List Item)

/-- The normalized form of what is written with some items is written with the bare ones. -/
theorem written_bare : written (items.map Item.bare) = (outlineOf items).normalized := by
  simp [written, outlineOf, Outline.normalized, List.flatMap_map, Item.text_bare]

/-- The pieces of bare items are the bare pieces. -/
theorem pieces_bare :
    (outlineOf (items.map Item.bare)).pieces = (outlineOf items).pieces.map Piece.bare := by
  simp [outlineOf, Item.piece_bare]

end

/-- Without constraints the groups are those of the placeholders. -/
theorem flatMap_groupNames_bare (pieces : List Piece) :
    (pieces.map Piece.bare).flatMap Piece.groupNames = (pieces.filterMap Piece.name?).map some := by
  induction pieces with
  | nil => rfl
  | cons piece rest ih =>
    rw [List.map_cons, List.flatMap_cons, ih]
    cases piece <;> rfl

/-- What an outline says is said by another one too, which has no constraints. -/
structure Outline.NormalizesTo (o o' : Outline) : Prop where
  normalized : o'.normalized = o.normalized
  names : o'.names = o.names
  literalCharacters : o'.literalCharacters = o.literalCharacters
  explicitConstraints : o'.explicitConstraints = 0
  groupNames : o'.groupNames = (o.groupNames.filterMap id).map some

/-- An outline normalizes to one with the bare pieces. -/
theorem normalizesTo_of_pieces {o o' : Outline} (h : o'.pieces = o.pieces.map Piece.bare) :
    o.NormalizesTo o' where
  normalized := by
    have hpiece (piece : Piece) : piece.bare.normalized = piece.normalized := by cases piece <;> rfl
    simp [Outline.normalized, h, List.flatMap_map, hpiece]
  names := by
    have hpiece (piece : Piece) : piece.bare.name? = piece.name? := by cases piece <;> rfl
    simp [Outline.names, h, List.filterMap_map, hpiece]
  literalCharacters := by
    have hpiece (piece : Piece) : piece.bare.literalText = piece.literalText := by cases piece <;> rfl
    simp [Outline.literalCharacters, h, List.flatMap_map, hpiece]
  explicitConstraints := by
    have hpiece (piece : Piece) : piece.bare.isConstrained = false := by cases piece <;> rfl
    simp [Outline.explicitConstraints, h, hpiece]
  groupNames := by
    rw [Outline.groupNames, h, flatMap_groupNames_bare, Outline.groupNames, filterMap_groupNames]

/-- Outlines from which the same is derived normalize to each other's normal forms. -/
theorem Outline.NormalizesTo.congr {o o' p p' : Outline} (h : p.NormalizesTo p') (ho : o.Agrees p)
    (ho' : o'.Agrees p') : o.NormalizesTo o' where
  normalized := ho'.normalized.trans (h.normalized.trans ho.normalized.symm)
  names := ho'.names.trans (h.names.trans ho.names.symm)
  literalCharacters := ho'.literalCharacters.trans (h.literalCharacters.trans ho.literalCharacters.symm)
  explicitConstraints := ho'.explicitConstraints.trans h.explicitConstraints
  groupNames := by rw [ho'.groupNames, h.groupNames, ho.groupNames]

/-- The normalized form of a template is read as the same literals and names in the same order, and has
no constraints: normalizing again changes nothing. -/
theorem parse_normalized {template : Text} {o : Outline} (h : Outline.parse template = .ok o) :
    ∃ o', Outline.parse o.normalized = .ok o' ∧ o.NormalizesTo o' := by
  obtain ⟨items, rfl, rfl⟩ := exists_items_of_parse h
  have hagrees := agrees_merge (written items) items
  have hne : written (items.map Item.bare) ≠ [] := by
    intro hnil
    have hitems : written items = [] := by
      rw [written, List.flatMap_eq_nil_iff] at hnil ⊢
      exact fun item hitem => Item.text_eq_nil_of_bare (hnil _ (List.mem_map_of_mem hitem))
    rw [hitems] at h
    cases h
  have hunnamed : ∀ item ∈ items.map Item.bare, item.Unnamed :=
    List.forall_mem_map.2 fun item _ => item.unnamed_bare
  have hparse := parse_written (items.map Item.bare)
  rw [if_neg hne, if_pos (isSome_ofSource_outlineOf hunnamed), written_bare,
    ← hagrees.normalized] at hparse
  exact ⟨_, hparse, (normalizesTo_of_pieces (pieces_bare items)).congr hagrees (agrees_merge _ _)⟩

/-- White space, braces and a backslash outside the placeholders, and a constraint with a group. -/
theorem parse_normalized_groups :
    ∃ o o', Outline.parse "/\\\x7d\x7b a : (x|\\d\x7b2\x7d) \x7d \x7bb:\x7d\x7ba\x7d\x7d" = .ok o ∧
      o.normalized = "/\\\x7d\x7ba\x7d \x7bb\x7d\x7ba\x7d\x7d" ∧
      Outline.parse "/\\\x7d\x7ba\x7d \x7bb\x7d\x7ba\x7d\x7d" = .ok o' ∧
      o'.normalized = "/\\\x7d\x7ba\x7d \x7bb\x7d\x7ba\x7d\x7d" ∧
      o.groupNames = [some ↑"a", none, some ↑"b", some ↑"a"] ∧
      o'.groupNames = [some ↑"a", some ↑"b", some ↑"a"] ∧ o'.names = [↑"a", ↑"b"] ∧
      o.explicitConstraints = 1 ∧ o'.explicitConstraints = 0 ∧ o'.literalCharacters = 5 := by
  have hparse : (Outline.parse
      "/\\\x7d\x7b a : (x|\\d\x7b2\x7d) \x7d \x7bb:\x7d\x7ba\x7d\x7d").toOption.map (fun o =>
        ((o.normalized, o.groupNames), (o.names, o.explicitConstraints, o.literalCharacters))) =
      some ((("/\\\x7d\x7ba\x7d \x7bb\x7d\x7ba\x7d\x7d" : Text),
        [some ("a" : Text), none, some ("b" : Text), some ("a" : Text)]),
        ([("a" : Text), ("b" : Text)], 1, 5)) := by
    decide +kernel
  cases h : Outline.parse "/\\\x7d\x7b a : (x|\\d\x7b2\x7d) \x7d \x7bb:\x7d\x7ba\x7d\x7d" with
  | error e => simp [h, Except.toOption] at hparse
  | ok o =>
    obtain ⟨⟨hnormalized, hgroups⟩, hnames, hconstraints, hliterals⟩ :
        (o.normalized = _ ∧ o.groupNames = _) ∧ o.names = _ ∧ o.explicitConstraints = _ ∧
          o.literalCharacters = _ := by
      simpa [h, Except.toOption] using hparse
    obtain ⟨o', ho', hto⟩ := parse_normalized h
    rw [hnormalized] at ho'
    refine ⟨o, o', rfl, hnormalized, ho', hto.normalized.trans hnormalized, hgroups, ?_,
      hto.names.trans hnames, hconstraints, hto.explicitConstraints,
      hto.literalCharacters.trans hliterals⟩
    rw [hto.groupNames, hgroups]
    rfl

end Template

end UriRouting
