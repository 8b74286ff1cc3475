import UriRouting.Proofs.Template.Reading
import UriRouting.Proofs.Regex.Anchoring
import UriRouting.Template.Basic

/-!
# The expression of a template

The expression generated from an outline is a sequence: a literal gives its units, and a placeholder
gives one capturing group around the tree of its constraint (`termsOf?`). Since every constraint is
contained, the lexemes of the source are those of the pieces, and the groups of the pieces are
numbered one after the other.
-/

namespace UriRouting

open scoped CodeUnit

namespace Template

open Regex (Node Token)

/-- The lexemes of a piece. -/
def Piece.tokens? (named : Bool) : Piece → Option (List Token)
  | literal text => some (Regex.units text)
  | placeholder p =>
    (Regex.lex named p.pattern).map fun body => .openGroup (.capture none) :: body ++ [.close]

/-- The terms of a piece in a pattern whose capturing groups have the given names, behind so many
opened groups. -/
def Piece.terms? (names : List (Option (List Char))) (opened : Nat) : Piece → Option (List Node)
  | literal text => some (text.map .unit)
  | placeholder p =>
    (Regex.partTree? names (opened + 1) p.pattern).map fun body => [.group (opened + 1) body]

/-- The terms of pieces one after the other. -/
def termsOf? (names : List (Option (List Char))) : Nat → List Piece → Option (List Node)
  | _, [] => some []
  | opened, piece :: rest => do
    let terms ← piece.terms? names opened
    let more ← termsOf? names (opened + piece.groupNames.length) rest
    some (terms ++ more)

/-- The terms of pieces begin with those of the first piece. -/
theorem exists_of_termsOf?_cons {names : List (Option (List Char))} {opened : Nat} {piece : Piece}
    {rest : List Piece} {terms : List Node} (h : termsOf? names opened (piece :: rest) = some terms) :
    ∃ first more, piece.terms? names opened = some first ∧
      termsOf? names (opened + piece.groupNames.length) rest = some more ∧ terms = first ++ more := by
  obtain ⟨first, hfirst, h⟩ := Option.bind_eq_some_iff.1 h
  obtain ⟨more, hmore, h⟩ := Option.bind_eq_some_iff.1 h
  exact ⟨first, more, hfirst, hmore, (Option.some.inj h).symm⟩

/-- A special unit behind a backslash stands for itself. -/
theorem backslashStep_special (named : Bool) {u : CodeUnit} (h : isSpecial u = true) :
    Regex.backslashStep named u = ([.unit u], .plain) := by
  simp only [isSpecial, List.mem_cons, List.not_mem_nil, or_false, decide_eq_true_eq] at h
  rcases h with rfl | rfl | rfl | rfl | rfl | rfl | rfl | rfl | rfl | rfl | rfl | rfl | rfl | rfl <;>
    rfl

/-- Any other unit stands for itself as it is. -/
theorem plainStep_ordinary {u : CodeUnit} (h : isSpecial u = false) :
    Regex.plainStep u = ([.unit u], .plain) := by
  simp only [isSpecial, List.mem_cons, List.not_mem_nil, or_false, decide_eq_false_iff_not,
    not_or] at h
  simp [Regex.plainStep, h]

/-- The lexemes of an escaped literal are its units. -/
theorem lexFrom_escapeLiteral (named : Bool) (text rest : Text) :
    Regex.lexFrom named .plain (escapeLiteral text ++ rest) =
      (Regex.lexFrom named .plain rest).map (Regex.units text ++ ·) := by
  induction text with
  | nil => simp [escapeLiteral, Regex.units]
  | cons u more ih =>
    rw [escapeLiteral, List.flatMap_cons, List.append_assoc, ← escapeLiteral]
    have hunit : Regex.lexFrom named .plain
        ((if isSpecial u then (['\\', u] : Text) else [u]) ++ (escapeLiteral more ++ rest)) =
          (Regex.lexFrom named .plain (escapeLiteral more ++ rest)).map ([.unit u] ++ ·) := by
      split
      · next h =>
        have hbackslash : Regex.lexStep named .backslash u = some ([.unit u], .plain) :=
          congrArg some (backslashStep_special named h)
        change (Regex.lexFrom named .backslash (u :: _)).map ([] ++ ·) = _
        rw [Regex.lexFrom_of_lexStep hbackslash]
        simp [Option.map_map, Function.comp_def]
      · next h =>
        have hplain : Regex.lexStep named .plain u = some ([.unit u], .plain) :=
          congrArg some (plainStep_ordinary (Bool.eq_false_iff.2 h))
        exact Regex.lexFrom_of_lexStep hplain _
    rw [hunit, ih, Option.map_map]
    rfl

/-- The source of a placeholder in front of some text. -/
theorem source_placeholder_append (p : Placeholder) (rest : Text) :
    (Piece.placeholder p).source ++ rest = ('(' :: (p.pattern ++ (')' :: rest : Text)) : Text) := by
  simp only [Piece.source, List.append_assoc]
  rfl

/-- A sound constraint in capturing parentheses is read behind the lexeme that opens them. -/
theorem lexFrom_placeholder {named : Bool} {p : Placeholder} (hp : p.Sound) (rest : Text) :
    Regex.lexFrom named .plain ((Piece.placeholder p).source ++ rest) =
      (Regex.lexFrom named .plain (p.pattern ++ (')' :: rest : Text))).map
        (.openGroup (.capture none) :: ·) := by
  have hmark : (p.pattern ++ (')' :: rest : Text)).head? ≠ some ('?' : CodeUnit) := by
    rw [List.head?_append_of_ne_nil _ hp.nonempty]
    exact hp.unmarked
  rw [source_placeholder_append, ← Regex.lexFrom_group named (by simp) hmark]
  change (Regex.lexFrom named .group (p.pattern ++ (')' :: rest : Text))).map ([] ++ ·) = _
  simp

/-- A piece has lexemes if a text that begins with its source has. -/
theorem exists_tokens_of_lexFrom {named : Bool} {piece : Piece} {rest : Text} {tokens : List Token}
    (hsound : ∀ p, piece = .placeholder p → p.Sound)
    (h : Regex.lexFrom named .plain (piece.source ++ rest) = some tokens) :
    ∃ out, piece.tokens? named = some out := by
  cases piece with
  | literal text => exact ⟨_, rfl⟩
  | placeholder p =>
    rw [lexFrom_placeholder (hsound p rfl)] at h
    obtain ⟨inner, hinner, -⟩ := Option.map_eq_some_iff.1 h
    obtain ⟨body, hbody⟩ := Regex.exists_lex_of_append_close (hsound p rfl).contained hinner
    exact ⟨_, by rw [Piece.tokens?, hbody, Option.map_some]⟩

/-- The lexemes of a source begin with those of its first piece. -/
theorem lexFrom_piece {named : Bool} {piece : Piece} {out : List Token}
    (hsound : ∀ p, piece = .placeholder p → p.Sound) (h : piece.tokens? named = some out)
    (rest : Text) :
    Regex.lexFrom named .plain (piece.source ++ rest) =
      (Regex.lexFrom named .plain rest).map (out ++ ·) := by
  cases piece with
  | literal text =>
    obtain rfl := Option.some.inj h
    exact lexFrom_escapeLiteral named text rest
  | placeholder p =>
    obtain ⟨body, hbody, rfl⟩ := Option.map_eq_some_iff.1 h
    rw [lexFrom_placeholder (hsound p rfl), Regex.lexFrom_append_close hbody, Option.map_map]
    simp [Function.comp_def]

/-- The lexemes of pieces with some text behind them are theirs and those of the text. -/
theorem lexFrom_pieces {named : Bool} {pieces : List Piece} {rest : Text} {tokens : List Token}
    (hsound : ∀ p, .placeholder p ∈ pieces → p.Sound)
    (h : Regex.lexFrom named .plain (pieces.flatMap Piece.source ++ rest) = some tokens) :
    ∃ out more, Regex.lex named (pieces.flatMap Piece.source) = some out ∧
      Regex.lexFrom named .plain rest = some more ∧ tokens = out ++ more := by
  induction pieces generalizing tokens with
  | nil => exact ⟨[], tokens, rfl, h, rfl⟩
  | cons piece pieces ih =>
    have hpiece (p : Placeholder) (hp : piece = .placeholder p) : p.Sound :=
      hsound p (by simp [hp])
    rw [List.flatMap_cons, List.append_assoc] at h
    obtain ⟨first, hfirst⟩ := exists_tokens_of_lexFrom hpiece h
    rw [lexFrom_piece hpiece hfirst] at h
    obtain ⟨others, hothers, rfl⟩ := Option.map_eq_some_iff.1 h
    obtain ⟨out, more, hout, hmore, rfl⟩ :=
      ih (fun p hp => hsound p (List.mem_cons_of_mem _ hp)) hothers
    refine ⟨first ++ out, more, ?_, hmore, (List.append_assoc ..).symm⟩
    rw [List.flatMap_cons, Regex.lex, lexFrom_piece hpiece hfirst, ← Regex.lex, hout,
      Option.map_some]

/-- A state behind another one on the same level: some terms have been added, which opened so many
groups. -/
structure Behind (s last : Regex.ReadState) (terms : List Node) (count : Nat) : Prop where
  outer : last.outer = s.outer
  opened : last.opened = s.opened + count
  branches : last.level.branches = s.level.branches
  terms : last.level.allTerms = terms.reverse ++ s.level.allTerms

namespace Behind

/-- Every state is behind itself. -/
theorem refl (s : Regex.ReadState) : Behind s s [] 0 := ⟨rfl, rfl, rfl, rfl⟩

/-- Terms added one after the other. -/
theorem trans {s mid last : Regex.ReadState} {terms more : List Node} {count further : Nat}
    (h : Behind s mid terms count) (h' : Behind mid last more further) :
    Behind s last (terms ++ more) (count + further) where
  outer := h'.outer.trans h.outer
  opened := by rw [h'.opened, h.opened, Nat.add_assoc]
  branches := h'.branches.trans h.branches
  terms := by rw [h'.terms, h.terms, List.reverse_append, List.append_assoc]

end Behind

/-- Units that stand for themselves are read as terms. -/
theorem readAll_units {names : List (Option (List Char))} {s last : Regex.ReadState} {text : Text}
    (h : Regex.readAll names s (Regex.units text) = some last) :
    Behind s last (text.map .unit) 0 := by
  rw [Regex.readAll_units] at h
  obtain rfl := Option.some.inj h
  exact ⟨rfl, rfl, s.level.branches_pushUnits text, s.level.allTerms_pushUnits text⟩

/-- Reading the lexemes of a piece adds its terms. -/
theorem readAll_piece {names : List (Option (List Char))} {s last : Regex.ReadState}
    {piece : Piece} {tokens : List Token} (hsound : ∀ p, piece = .placeholder p → p.Sound)
    (htokens : piece.tokens? (Regex.readsReferences names) = some tokens)
    (h : Regex.readAll names s tokens = some last) :
    ∃ terms, piece.terms? names s.opened = some terms ∧
      Behind s last terms piece.groupNames.length := by
  cases piece with
  | literal text =>
    obtain rfl := Option.some.inj htokens
    exact ⟨_, rfl, readAll_units h⟩
  | placeholder p =>
    have hp := hsound p rfl
    obtain ⟨body, hbody, rfl⟩ := Option.map_eq_some_iff.1 htokens
    obtain ⟨root, hroot, rfl⟩ := Regex.readAll_capture hp.contained hbody h
    refine ⟨[.group (s.opened + 1) root], by rw [Piece.terms?, hroot]; rfl, rfl, ?_, rfl, rfl⟩
    simp only [Piece.groupNames, List.length_cons, List.length_replicate, hp.count]
    omega

/-- Reading the lexemes of pieces adds their terms. -/
theorem readAll_pieces {names : List (Option (List Char))} {s last : Regex.ReadState}
    {pieces : List Piece} {tokens : List Token}
    (hsound : ∀ p, .placeholder p ∈ pieces → p.Sound)
    (htokens : Regex.lex (Regex.readsReferences names) (pieces.flatMap Piece.source) = some tokens)
    (h : Regex.readAll names s tokens = some last) :
    ∃ terms, termsOf? names s.opened pieces = some terms ∧
      Behind s last terms (pieces.flatMap Piece.groupNames).length := by
  induction pieces generalizing s tokens with
  | nil =>
    obtain rfl : [] = tokens := by simpa [Regex.lex, Regex.lexFrom, Regex.lexEnd] using htokens
    obtain rfl : s = last := by simpa using h
    exact ⟨[], rfl, .refl s⟩
  | cons piece rest ih =>
    rw [List.flatMap_cons, Regex.lex] at htokens
    have hpiece (p : Placeholder) (hp : piece = .placeholder p) : p.Sound :=
      hsound p (by simp [hp])
    obtain ⟨out, hout⟩ := exists_tokens_of_lexFrom hpiece htokens
    rw [lexFrom_piece hpiece hout] at htokens
    obtain ⟨more, hmore, rfl⟩ := Option.map_eq_some_iff.1 htokens
    rw [Regex.readAll_append] at h
    obtain ⟨mid, hmid, hlast⟩ := Option.bind_eq_some_iff.1 h
    obtain ⟨terms, hterms, hbehind⟩ := readAll_piece hpiece hout hmid
    obtain ⟨others, hothers, hbehind'⟩ :=
      ih (fun p hp => hsound p (List.mem_cons_of_mem _ hp)) hmore hlast
    refine ⟨terms ++ others, ?_, ?_⟩
    · rw [termsOf?, hterms, ← hbehind.opened, hothers]
      rfl
    · rw [List.flatMap_cons, List.length_append]
      exact hbehind.trans hbehind'

/-- The tree of a sequence of pieces is the sequence of their terms, and its groups are theirs. -/
theorem partTree?_pieces {names : List (Option (List Char))} {pieces : List Piece} {root : Node}
    (hsound : ∀ p, .placeholder p ∈ pieces → p.Sound)
    (h : Regex.partTree? names 0 (pieces.flatMap Piece.source) = some root) :
    ∃ terms, termsOf? names 0 pieces = some terms ∧ root = .sequence terms ∧
      Regex.captureCount (pieces.flatMap Piece.source) =
        (pieces.flatMap Piece.groupNames).length := by
  obtain ⟨tokens, last, hlex, hread, -, rfl⟩ := Regex.partTree?_eq_some_iff.1 h
  obtain ⟨terms, hterms, hbehind⟩ := readAll_pieces hsound hlex hread
  refine ⟨terms, hterms, ?_, ?_⟩
  · rw [Regex.Level.node, hbehind.branches, Regex.Level.branch, hbehind.terms]
    simp [Regex.Level.start, Regex.Level.allTerms]
  · rw [← Regex.length_captureNames hlex, ← Nat.zero_add (List.length _),
      ← (Regex.readAll_groups hread).1, hbehind.opened, Nat.zero_add]

/-- The pattern of a template that has been read: it is generated from the outline, and its tree is
the sequence of the terms of the pieces between the anchors. -/
structure Compiled (t : Template) (names : List (Option (List Char))) (terms : List Node) :
    Prop where
  sound : t.outline.Sound
  source : t.pattern.source = t.outline.source
  groupNames : t.pattern.groupNames = t.outline.groupNames
  anchored : Regex.ofSource? (Pattern.anchored t.outline.source) = some t.pattern.regex
  named : Regex.namesOf? t.outline.source = some names
  distinct : (names.filterMap id).Nodup
  count : names.length = t.outline.groupNames.length
  tree : Regex.partTree? names 0 t.outline.source = some (.sequence terms)
  read : termsOf? names 0 t.outline.pieces = some terms
  regex : t.pattern.regex = ⟨(Node.sequence terms).anchored, names.length⟩

/-- Pieces have a source unless there are none. -/
theorem source_ne_nil {o : Outline} (h : o.Sound) (hpieces : o.pieces ≠ []) : o.source ≠ [] := by
  obtain ⟨piece, rest, hcons⟩ := List.exists_cons_of_ne_nil hpieces
  have hpiece : piece.source ≠ [] := by
    cases piece with
    | literal text =>
      obtain ⟨u, more, rfl⟩ := List.exists_cons_of_ne_nil (h.literal text (by simp [hcons])).1
      rw [Piece.source, escapeLiteral, List.flatMap_cons]
      split <;> simp
    | placeholder p => exact List.cons_ne_nil _ _
  rw [Outline.source, hcons, List.flatMap_cons]
  exact List.append_ne_nil_of_left_ne_nil hpiece _

/-- An outline that has been read compiles. -/
theorem exists_ofOutline_of_parse {text : Text} {o : Outline} (h : Outline.parse text = .ok o) :
    ∃ t names terms, ofOutline o = .ok t ∧ t.outline = o ∧ Compiled t names terms := by
  obtain ⟨hsound, htext, hsource, texts, hpieces, hflatten⟩ := parse_sound h
  obtain ⟨r, hr⟩ := Option.isSome_iff_exists.1 hsource
  have hanchored := Regex.ofSource?_anchored hr
  have hne : o.pieces ≠ [] := by
    intro hnil
    rw [hnil, List.forall₂_nil_left_iff] at hpieces
    subst hpieces
    rw [← hflatten] at h
    simp [Outline.parse] at h
  have hcompile : ofOutline o =
      .ok ⟨o, ⟨o.source, o.groupNames, r.root.anchored, r.groupCount⟩⟩ := by
    rw [ofOutline, if_neg (source_ne_nil hsound hne), Pattern.compile, hanchored]
    rfl
  rw [Regex.ofSource?_eq] at hr
  obtain ⟨names, hnames, hr⟩ := Option.bind_eq_some_iff.1 hr
  split_ifs at hr with hnodup
  obtain ⟨root, htree, rfl⟩ := Option.map_eq_some_iff.1 hr
  obtain ⟨terms, hterms, rfl, hcount⟩ := partTree?_pieces hsound.placeholder htree
  have hlength : names.length = o.groupNames.length := (Regex.length_namesOf hnames).trans hcount
  exact ⟨_, names, terms, hcompile, rfl, hsound, rfl, rfl, hanchored, hnames, hnodup, hlength,
    htree, hterms, rfl⟩

/-- A template that has been read is compiled from its outline. -/
theorem compiled_of_parse {text : Text} {t : Template} (h : parse text = .ok t) :
    Outline.parse text = .ok t.outline ∧ ∃ names terms, Compiled t names terms := by
  rw [parse] at h
  cases hparse : Outline.parse text with
  | error e => simp [hparse, bind, Except.bind] at h
  | ok o =>
    obtain ⟨t', names, terms, hcompile, houtline, hcompiled⟩ := exists_ofOutline_of_parse hparse
    obtain rfl : t' = t := by
      rw [hparse] at h
      exact Except.ok.inj (hcompile.symm.trans h)
    exact ⟨by rw [houtline], names, terms, hcompiled⟩

end Template

end UriRouting
