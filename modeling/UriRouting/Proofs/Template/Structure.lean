import UriRouting.Proofs.Template.Grammar
import UriRouting.Proofs.Template.Language
import UriRouting.Proofs.Template.Specificity
import Mathlib.Data.List.Chain

/-!
# Templates with the same expression

The expression of a template shows how the template is built. Its literals are escaped, and no two of
them stand next to each other; a constraint is contained, so the first parenthesis that closes more
than has been opened is the one behind it. Literal texts and constraints can therefore be read off
the source (`map_part_eq_of_source_eq`). Templates that are the same agree in these, and only the
names of the placeholders, the white space around names and constraints and whether the default
constraint is written out can differ (`sameAs_iff_sameStructure`).
-/

namespace UriRouting

open scoped CodeUnit

namespace Template

/-- A part of the structure of a template: a literal text, or the constraint that a placeholder is
matched with. -/
inductive Part where
  | literal (text : Text)
  | constraint (text : Text)
  deriving DecidableEq

namespace Part

/-- The regular expression of a part. -/
def source : Part → Text
  | literal text => escapeLiteral text
  | constraint text => "(" ++ text ++ ")"

/-- The text of a part that is literal. -/
def literal? : Part → Option Text
  | literal text => some text
  | constraint _ => none

/-- The text of a part that is a constraint. -/
def constraint? : Part → Option Text
  | literal _ => none
  | constraint text => some text

end Part

/-- The part of a piece; the name of a placeholder is no part of the structure. -/
def Piece.part : Piece → Part
  | literal text => .literal text
  | placeholder p => .constraint p.pattern

/-- The structure of an outline. -/
def Outline.parts (o : Outline) : List Part := o.pieces.map Piece.part

/-- The literal texts of an outline. -/
def Outline.literalTexts (o : Outline) : List Text := o.parts.filterMap Part.literal?

/-- The constraints of an outline, one for each occurrence of a placeholder. -/
def Outline.constraints (o : Outline) : List Text := o.parts.filterMap Part.constraint?

/-- The source of an outline is that of its structure. -/
theorem source_eq_flatMap_parts (o : Outline) : o.source = o.parts.flatMap Part.source := by
  rw [Outline.parts, List.flatMap_map]
  exact List.flatMap_congr fun piece _ => by cases piece <;> rfl

/-- The literal units are those of the literal texts. -/
theorem literalCharacters_eq (o : Outline) :
    o.literalCharacters = o.literalTexts.flatten.length := by
  rw [Outline.literalCharacters, Outline.literalTexts, Outline.parts]
  congr 1
  induction o.pieces with
  | nil => rfl
  | cons piece rest ih =>
    rw [List.flatMap_cons, ih, List.map_cons]
    cases piece <;> rfl

/-- Every occurrence of a placeholder has one constraint. -/
theorem length_constraints (o : Outline) :
    o.constraints.length = (o.pieces.filterMap Piece.name?).length := by
  rw [Outline.constraints, Outline.parts]
  induction o.pieces with
  | nil => rfl
  | cons piece rest ih =>
    cases piece with
    | literal text => exact ih
    | placeholder p => exact congrArg Nat.succ ih

/-- The expression of one literal unit. -/
def escapeUnit (u : CodeUnit) : Text := if isSpecial u then ['\\', u] else [u]

/-- An escaped literal is its escaped units. -/
theorem escapeLiteral_cons (u : CodeUnit) (rest : Text) :
    escapeLiteral (u :: rest) = escapeUnit u ++ escapeLiteral rest := rfl

/-- An escaped unit is not empty, and it does not begin with a parenthesis. -/
theorem exists_escapeUnit (u : CodeUnit) : ∃ v rest, escapeUnit u = v :: rest ∧ v ≠ '(' := by
  rw [escapeUnit]
  split_ifs with h
  · exact ⟨'\\', [u], rfl, by decide⟩
  · refine ⟨u, [], rfl, ?_⟩
    rintro rfl
    exact h rfl

/-- An escaped unit shows where it ends. -/
theorem escapeUnit_unique {u v : CodeUnit} {rest rest' : Text}
    (h : escapeUnit u ++ rest = escapeUnit v ++ rest') : u = v ∧ rest = rest' := by
  rw [escapeUnit, escapeUnit] at h
  split_ifs at h with hu hv hv
  · obtain ⟨rfl, rfl⟩ : u = v ∧ rest = rest' := by simpa using h
    exact ⟨rfl, rfl⟩
  · -- A backslash is special itself.
    obtain ⟨rfl, -⟩ := List.cons.inj h
    exact absurd rfl hv
  · obtain ⟨rfl, -⟩ := List.cons.inj h
    exact absurd rfl hu
  · exact List.cons.inj h

/-- An escaped literal shows where it ends, if nothing or a parenthesis stands behind it. -/
theorem escapeLiteral_unique {s t rest rest' : Text} (hrest : ∀ u ∈ rest.head?, u = '(')
    (hrest' : ∀ u ∈ rest'.head?, u = '(') (h : escapeLiteral s ++ rest = escapeLiteral t ++ rest') :
    s = t ∧ rest = rest' := by
  have hfront (u : CodeUnit) (more back : Text) (hback : ∀ v ∈ back.head?, v = '(') :
      back ≠ escapeLiteral (u :: more) ++ rest ∧ back ≠ escapeLiteral (u :: more) ++ rest' := by
    obtain ⟨v, others, hv, hne⟩ := exists_escapeUnit u
    rw [escapeLiteral_cons, hv]
    constructor <;> rintro rfl <;> exact hne (hback v rfl)
  induction s generalizing t with
  | nil =>
    cases t with
    | nil => exact ⟨rfl, h⟩
    | cons v t => exact absurd h (hfront v t rest hrest).2
  | cons u s ih =>
    cases t with
    | nil => exact absurd h.symm (hfront u s rest' hrest').1
    | cons v t =>
      rw [escapeLiteral_cons, escapeLiteral_cons, List.append_assoc, List.append_assoc] at h
      obtain ⟨rfl, htail⟩ := escapeUnit_unique h
      obtain ⟨rfl, hback⟩ := ih htail
      exact ⟨rfl, hback⟩

/-- Pieces that can be read off their source: no two literals stand next to each other, none is
empty, and the constraints are contained. -/
structure Legible (pieces : List Piece) : Prop where
  separated : pieces.IsChain fun piece next => piece.name?.isSome ∨ next.name?.isSome
  literal : ∀ text, .literal text ∈ pieces → text ≠ []
  placeholder : ∀ p, .placeholder p ∈ pieces → Regex.Contained p.pattern

namespace Legible

variable {piece : Piece} {pieces : List Piece}

/-- Behind the first piece they can be read as well. -/
theorem tail (h : Legible (piece :: pieces)) : Legible pieces where
  separated := h.separated.tail
  literal text htext := h.literal text (List.mem_cons_of_mem _ htext)
  placeholder p hp := h.placeholder p (List.mem_cons_of_mem _ hp)

/-- Behind a literal the source begins with a parenthesis, if it goes on. -/
theorem head_of_literal {text : Text} (h : Legible (.literal text :: pieces)) :
    ∀ u ∈ (pieces.flatMap Piece.source).head?, u = '(' := by
  intro u hu
  cases pieces with
  | nil => cases hu
  | cons next rest =>
    cases next with
    | literal more =>
      have hnext := h.separated.rel_head? rfl
      simp [Piece.name?] at hnext
    | placeholder p =>
      obtain rfl := Option.some.inj hu
      rfl

/-- What begins with a literal has a source, which does not begin with a parenthesis. -/
theorem exists_of_literal {text : Text} (h : Legible (.literal text :: pieces)) :
    ∃ u rest, (Piece.literal text :: pieces).flatMap Piece.source = u :: rest ∧ u ≠ '(' := by
  obtain ⟨u, more, rfl⟩ := List.exists_cons_of_ne_nil (h.literal text (List.mem_cons_self ..))
  obtain ⟨v, others, hv, hne⟩ := exists_escapeUnit u
  refine ⟨v, others ++ escapeLiteral more ++ pieces.flatMap Piece.source, ?_, hne⟩
  rw [List.flatMap_cons, Piece.source, escapeLiteral_cons, hv]
  rfl

end Legible

/-- The source of pieces that begin with a placeholder. -/
theorem flatMap_source_placeholder (p : Placeholder) (pieces : List Piece) :
    (Piece.placeholder p :: pieces).flatMap Piece.source =
      ('(' :: (p.pattern ++ (')' :: pieces.flatMap Piece.source : Text)) : Text) := by
  rw [List.flatMap_cons, source_placeholder_append]

/-- The source of pieces shows their structure. -/
theorem map_part_eq_of_source_eq {pieces others : List Piece} (hpieces : Legible pieces)
    (hothers : Legible others) (h : pieces.flatMap Piece.source = others.flatMap Piece.source) :
    pieces.map Piece.part = others.map Piece.part := by
  induction pieces generalizing others with
  | nil =>
    cases others with
    | nil => rfl
    | cons piece others =>
      cases piece with
      | literal text =>
        obtain ⟨u, rest, hsource, -⟩ := hothers.exists_of_literal
        rw [hsource] at h
        cases h
      | placeholder p => cases h
  | cons piece pieces ih =>
    cases piece with
    | literal text =>
      obtain ⟨u, rest, hsource, hne⟩ := hpieces.exists_of_literal
      rcases others with - | ⟨text' | p, others⟩
      · rw [hsource] at h
        cases h
      · obtain ⟨rfl, hback⟩ :=
          escapeLiteral_unique hpieces.head_of_literal hothers.head_of_literal h
        rw [List.map_cons, List.map_cons, ih hpieces.tail hothers.tail hback]
      · rw [hsource] at h
        exact absurd (List.cons.inj h).1 hne
    | placeholder p =>
      rcases others with - | ⟨text' | p', others⟩
      · cases h
      · obtain ⟨u, rest, hsource, hne⟩ := hothers.exists_of_literal
        rw [hsource] at h
        exact absurd (List.cons.inj h).1.symm hne
      · rw [flatMap_source_placeholder, flatMap_source_placeholder] at h
        have hcontained := hpieces.placeholder p (List.mem_cons_self ..)
        have hcontained' := hothers.placeholder p' (List.mem_cons_self ..)
        obtain ⟨hpattern, hback⟩ := hcontained.unique hcontained' (List.cons.inj h).2
        rw [List.map_cons, List.map_cons, ih hpieces.tail hothers.tail hback, Piece.part,
          Piece.part, hpattern]

/-- Merged items are written with the same text. -/
theorem written_mergeFrom (pending : LiteralText) (items : List Item) :
    written (mergeFrom pending items) = pending.1 ++ written items := by
  have hliteral (t : LiteralText) (rest : List Item) :
      written (literalItem t ++ rest) = t.1 ++ written rest := by
    by_cases h : t.1 = []
    · simp [literalItem, h]
    · simp [literalItem, h, written_cons, Item.text]
  induction items generalizing pending with
  | nil => simpa [mergeFrom] using hliteral pending []
  | cons item rest ih =>
    cases item with
    | literal t => rw [mergeFrom, ih, append_written_literal]
    | placeholder w => rw [mergeFrom, hliteral, written_cons, written_cons, ih, List.nil_append]

/-- In merged items no two literals stand next to each other. -/
theorem separated_mergeFrom (pending : LiteralText) (items : List Item) :
    ((mergeFrom pending items).map Item.piece).IsChain fun piece next =>
      piece.name?.isSome ∨ next.name?.isSome := by
  induction items generalizing pending with
  | nil =>
    rw [mergeFrom, literalItem]
    split_ifs <;> simp
  | cons item rest ih =>
    cases item with
    | literal t => exact ih (pending.append t)
    | placeholder w =>
      have hback : ((Item.placeholder w :: mergeFrom ⟨[], by simp⟩ rest).map Item.piece).IsChain
          fun piece next => piece.name?.isSome ∨ next.name?.isSome :=
        (ih ⟨[], by simp⟩).cons fun next hnext => .inl rfl
      rw [mergeFrom, literalItem]
      split_ifs
      · exact hback
      · exact .cons_cons (.inr rfl) hback

/-- The items that a constructed template is written with, with no two literals next to each other. -/
theorem Constructed.exists_items {t : Template} (h : t.Constructed) :
    ∃ items, written items = t.text ∧ items.map Item.piece = t.outline.pieces ∧
      Legible t.outline.pieces := by
  obtain ⟨names, terms, hcompiled⟩ := h.exists_compiled
  obtain ⟨items, hwritten, hpieces⟩ : ∃ items, written items = t.text ∧
      (merge items).map Item.piece = t.outline.pieces := by
    rcases h with rfl | ⟨text, h⟩
    · exact ⟨[], rfl, rfl⟩
    · obtain ⟨items, hwritten, houtline⟩ := exists_items_of_parse (compiled_of_parse h).1
      rw [Template.text, houtline]
      exact ⟨items, hwritten, rfl⟩
  refine ⟨merge items, ?_, hpieces, ?_, ?_, ?_⟩
  · rw [merge, written_mergeFrom, List.nil_append, hwritten]
  · rw [← hpieces]
    exact separated_mergeFrom _ items
  · exact fun text htext => (hcompiled.sound.literal text htext).1
  · exact fun p hp => (hcompiled.sound.placeholder p hp).contained

/-- Constructed templates are the same exactly if their structure is. -/
theorem Constructed.sameAs_iff_parts {a b : Template} (ha : a.Constructed) (hb : b.Constructed) :
    a.sameAs b = true ↔ a.outline.parts = b.outline.parts := by
  obtain ⟨_, _, hcompiled⟩ := ha.exists_compiled
  obtain ⟨_, _, hcompiled'⟩ := hb.exists_compiled
  rw [sameAs, Pattern.sameAs, decide_eq_true_eq, hcompiled.source, hcompiled'.source]
  constructor
  · intro h
    obtain ⟨-, -, -, hlegible⟩ := ha.exists_items
    obtain ⟨-, -, -, hlegible'⟩ := hb.exists_items
    exact map_part_eq_of_source_eq hlegible hlegible' h
  · intro h
    rw [source_eq_flatMap_parts, source_eq_flatMap_parts, h]

/-- Whether two items are written alike: the same literal, or placeholders that are matched with the
same constraint, whatever their names are, the white space around them, and whether a default
constraint is written out. -/
def Item.Respells : Item → Item → Prop
  | literal t, literal t' => t = t'
  | placeholder w, placeholder w' => w.placeholder.pattern = w'.placeholder.pattern
  | _, _ => False

/-- Items are written alike if they are the same part of a template. -/
theorem Item.respells_iff (item other : Item) :
    item.Respells other ↔ item.piece.part = other.piece.part := by
  cases item <;> cases other <;> simp [Respells, Item.piece, Piece.part, Subtype.ext_iff]

/-- What two templates have in common that differ in names, white space and the spelling of the
default constraint at most. -/
structure SameStructure (a b : Template) : Prop where
  parts : a.outline.parts = b.outline.parts
  literalTexts : a.outline.literalTexts = b.outline.literalTexts
  constraints : a.outline.constraints = b.outline.constraints
  literalCharacters : a.outline.literalCharacters = b.outline.literalCharacters
  occurrences : (a.outline.pieces.filterMap Piece.name?).length =
    (b.outline.pieces.filterMap Piece.name?).length
  matching : ∀ uri, a.Matches uri ↔ b.Matches uri
  groups : ∀ uri texts, a.fill uri (some (.groups texts)) = b.fill uri (some (.groups texts))
  respelled : ∃ items others, written items = a.text ∧ written others = b.text ∧
    List.Forall₂ Item.Respells items others

/-- Templates are the same exactly if they have the same structure. They then match the same texts
with the same groups, and they are written alike: only the names, the white space and the spelling of
the default constraint differ. -/
theorem sameAs_iff_sameStructure {a b : Template} (ha : a.Constructed) (hb : b.Constructed) :
    a.sameAs b = true ↔ SameStructure a b := by
  constructor
  · intro h
    have hparts := (ha.sameAs_iff_parts hb).1 h
    have hliterals : a.outline.literalTexts = b.outline.literalTexts :=
      congrArg (List.filterMap Part.literal?) hparts
    have hconstraints : a.outline.constraints = b.outline.constraints :=
      congrArg (List.filterMap Part.constraint?) hparts
    have hregex : a.pattern.regex = b.pattern.regex := ha.regex_eq hb (of_decide_eq_true h)
    obtain ⟨items, hwritten, hpieces, -⟩ := ha.exists_items
    obtain ⟨others, hwritten', hpieces', -⟩ := hb.exists_items
    have hrespelled : List.Forall₂ Item.Respells items others := by
      rw [Outline.parts, Outline.parts, ← hpieces, ← hpieces', ← List.forall₂_eq_eq_eq,
        List.forall₂_map_left_iff, List.forall₂_map_right_iff, List.forall₂_map_left_iff,
        List.forall₂_map_right_iff] at hparts
      exact hparts.imp fun item other hpart => (item.respells_iff other).2 hpart
    refine ⟨hparts, hliterals, hconstraints, ?_, ?_, ?_, ?_, items, others, hwritten, hwritten',
      hrespelled⟩
    · rw [literalCharacters_eq, literalCharacters_eq, hliterals]
    · rw [← length_constraints, ← length_constraints, hconstraints]
    · intro uri
      rw [matches_iff, matches_iff, Pattern.groups?, Pattern.groups?, hregex]
    · intro uri texts
      simp only [fill, Pattern.fill, Pattern.groups?, hregex]
  · intro h
    exact (ha.sameAs_iff_parts hb).2 h.parts

/-- With another name, white space and the default constraint written out, a template is the same. -/
theorem sameStructure_default :
    ∃ a b, parse "/a/\x7bx\x7d" = .ok a ∧ parse "/a/\x7b y : [^/]+ \x7d" = .ok b ∧
      a.placeholders ≠ b.placeholders ∧ a.text ≠ b.text ∧ SameStructure a b := by
  have hfirst : (parse "/a/\x7bx\x7d").toOption.map (fun t => (t.pattern.source, t.placeholders)) =
      some (("/a/([^/]+)" : Text), [("x" : Text)]) := by
    decide +kernel
  have hsecond : (parse "/a/\x7b y : [^/]+ \x7d").toOption.map
      (fun t => (t.pattern.source, t.placeholders)) =
        some (("/a/([^/]+)" : Text), [("y" : Text)]) := by
    decide +kernel
  cases h : parse "/a/\x7bx\x7d" with
  | error e => simp [h, Except.toOption] at hfirst
  | ok a =>
    cases h' : parse "/a/\x7b y : [^/]+ \x7d" with
    | error e => simp [h', Except.toOption] at hsecond
    | ok b =>
      obtain ⟨hsource, hnames⟩ : a.pattern.source = _ ∧ a.placeholders = _ := by
        simpa [h, Except.toOption] using hfirst
      obtain ⟨hsource', hnames'⟩ : b.pattern.source = _ ∧ b.placeholders = _ := by
        simpa [h', Except.toOption] using hsecond
      have hsame : a.sameAs b = true := decide_eq_true (hsource.trans hsource'.symm)
      have htext := (parse_sound (compiled_of_parse h).1).2.1
      have htext' := (parse_sound (compiled_of_parse h').1).2.1
      refine ⟨a, b, rfl, rfl, ?_, ?_,
        (sameAs_iff_sameStructure (.inr ⟨_, h⟩) (.inr ⟨_, h'⟩)).1 hsame⟩
      · rw [hnames, hnames']
        decide
      · rw [text, text, htext, htext']
        decide

end Template

end UriRouting
