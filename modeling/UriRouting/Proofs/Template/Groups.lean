import UriRouting.Proofs.Template.Expression

/-!
# Which groups of a template have names

`Wraps` says that a capturing group is the pair of parentheses written around the constraint of a
placeholder. The groups with a name are exactly these, under the names of their placeholders; the
groups that a constraint opens itself have none.
-/

namespace UriRouting

open scoped CodeUnit

namespace Regex

/-- The capturing groups inside no other group, lookaround, alternative or repetition, with their
bodies. -/
def Node.topGroups : Node → List (Nat × Node)
  | group index body => [(index, body)]
  | seq first second => first.topGroups ++ second.topGroups
  | _ => []

/-- The top groups of terms in sequence. -/
@[simp] theorem Node.topGroups_sequence (terms : List Node) :
    (Node.sequence terms).topGroups = terms.flatMap Node.topGroups := by
  induction terms with
  | nil => rfl
  | cons n rest ih => exact congrArg (n.topGroups ++ ·) ih

/-- The anchors are no groups. -/
@[simp] theorem Node.topGroups_anchored (root : Node) :
    root.anchored.topGroups = root.topGroups := by
  simp [Node.anchored, Node.topGroups]

/-- The anchors open no groups. -/
@[simp] theorem Node.groups_anchored (root : Node) : root.anchored.groups = root.groups := by
  simp [Node.anchored, Node.groups]

end Regex

namespace Template

open Regex (Node Token)

/-- A capturing group of a template is the pair of parentheses around the constraint of a
placeholder. In the source, and so among its lexemes, the constraint stands between the two
parentheses, which no group is open around; so many capturing groups as the number says are opened
up to them. In the tree, the group is a top group, and its body is the tree of the constraint. -/
structure Wraps (t : Template) (index : Nat) (before : List Piece) (p : Placeholder)
    (after : List Piece) (body : Node) : Prop where
  pieces : t.outline.pieces = before ++ .placeholder p :: after
  source : t.pattern.source = before.flatMap Piece.source ++ ("(" ++ p.pattern ++ ")") ++
    after.flatMap Piece.source
  lexemes : ∃ tokens out inner more, Regex.tokensOf? t.pattern.source = some tokens ∧
    tokens = out ++ .openGroup (.capture none) :: inner ++ .close :: more ∧
    Regex.lex (Regex.readsReferences (Regex.captureNames tokens))
      (before.flatMap Piece.source) = some out ∧
    Regex.lex (Regex.readsReferences (Regex.captureNames tokens)) p.pattern = some inner ∧
    Regex.depthAfter 0 (Regex.brackets out) = some 0 ∧
    Regex.depthAfter 0 (Regex.brackets inner) = some 0 ∧
    index = (Regex.captureNames out).length + 1
  top : (index, body) ∈ t.pattern.regex.root.topGroups
  tree : ∃ names, Regex.namesOf? t.pattern.source = some names ∧
    Regex.partTree? names index p.pattern = some body

/-- The terms of pieces put together. -/
theorem termsOf?_append (names : List (Option (List Char))) (opened : Nat) (a b : List Piece) :
    termsOf? names opened (a ++ b) = (termsOf? names opened a).bind fun terms =>
      (termsOf? names (opened + (a.flatMap Piece.groupNames).length) b).map (terms ++ ·) := by
  induction a generalizing opened with
  | nil => simp [termsOf?]
  | cons piece rest ih =>
    rw [List.cons_append, termsOf?, termsOf?, List.flatMap_cons, List.length_append, ← Nat.add_assoc]
    simp only [Option.bind_eq_bind, ih]
    cases piece.terms? names opened with
    | none => rfl
    | some first =>
      simp only [Option.bind_some]
      cases termsOf? names (opened + piece.groupNames.length) rest with
      | none => rfl
      | some terms =>
        simp only [Option.bind_some]
        generalize termsOf? names _ b = others
        cases others with
        | none => rfl
        | some more => exact congrArg some (List.append_assoc ..).symm

/-- The first of the groups that the rest of the pieces opens is numbered after those of the pieces
before. -/
theorem captureNames_before {t : Template} {names : List (Option (List Char))} {terms : List Node}
    {before rest : List Piece} {out more : List Token} (h : Compiled t names terms)
    (hpieces : t.outline.pieces = before ++ rest)
    (hout : Regex.lex (Regex.readsReferences names) (before.flatMap Piece.source) = some out)
    (hall : Regex.lex (Regex.readsReferences names) t.outline.source = some (out ++ more)) :
    Regex.depthAfter 0 (Regex.brackets out) = some 0 ∧
      (Regex.captureNames out).length = (before.flatMap Piece.groupNames).length := by
  obtain ⟨tokens, last, hlex, hread, -, -⟩ := Regex.partTree?_eq_some_iff.1 h.tree
  obtain rfl := Option.some.inj (hlex.symm.trans hall)
  rw [Regex.readAll_append] at hread
  obtain ⟨mid, hmid, -⟩ := Option.bind_eq_some_iff.1 hread
  have hsound (p : Placeholder) (hp : .placeholder p ∈ before) : p.Sound :=
    h.sound.placeholder p (by simp [hpieces, hp])
  obtain ⟨_, -, hbehind⟩ := readAll_pieces hsound hout hmid
  have hdepth := Regex.readAll_depth hmid
  rw [hbehind.outer] at hdepth
  refine ⟨hdepth, ?_⟩
  have hopened := (Regex.readAll_groups hmid).1
  rw [hbehind.opened] at hopened
  omega

/-- The term of a placeholder is one of those of the pieces: a group around the tree of its
constraint. -/
theorem exists_group_term {names : List (Option (List Char))} {opened : Nat} {terms : List Node}
    {before after : List Piece} {p : Placeholder}
    (h : termsOf? names opened (before ++ .placeholder p :: after) = some terms) :
    ∃ body, .group (opened + (before.flatMap Piece.groupNames).length + 1) body ∈ terms ∧
      Regex.partTree? names (opened + (before.flatMap Piece.groupNames).length + 1) p.pattern =
        some body := by
  rw [termsOf?_append] at h
  obtain ⟨first, -, h⟩ := Option.bind_eq_some_iff.1 h
  obtain ⟨second, hsecond, rfl⟩ := Option.map_eq_some_iff.1 h
  obtain ⟨group, others, hgroup, -, rfl⟩ := exists_of_termsOf?_cons hsecond
  obtain ⟨body, hbody, rfl⟩ := Option.map_eq_some_iff.1 hgroup
  exact ⟨body, by simp, hbody⟩

/-- Every placeholder has a group around its constraint, the next one after the groups of the pieces
before it. -/
theorem exists_wraps {t : Template} {names : List (Option (List Char))} {terms : List Node}
    {before after : List Piece} {p : Placeholder} (h : Compiled t names terms)
    (hpieces : t.outline.pieces = before ++ .placeholder p :: after) :
    ∃ body, Wraps t ((before.flatMap Piece.groupNames).length + 1) before p after body := by
  have hp : p.Sound := h.sound.placeholder p (by simp [hpieces])
  have hsource : t.outline.source = before.flatMap Piece.source ++
      ((Piece.placeholder p).source ++ after.flatMap Piece.source) := by
    simp [Outline.source, hpieces]
  obtain ⟨tokens, htokens, rfl⟩ := Option.map_eq_some_iff.1 h.named
  have hlex := Regex.lex_of_tokensOf htokens
  rw [hsource] at hlex
  obtain ⟨out, rest, hout, hrest, hsplit⟩ := lexFrom_pieces
    (fun p hp => h.sound.placeholder p (by simp [hpieces, hp])) hlex
  rw [lexFrom_placeholder hp] at hrest
  obtain ⟨behind, hbehind, rfl⟩ := Option.map_eq_some_iff.1 hrest
  obtain ⟨inner, hinner⟩ := Regex.exists_lex_of_append_close hp.contained hbehind
  rw [Regex.lexFrom_append_close hinner] at hbehind
  obtain ⟨more, -, rfl⟩ := Option.map_eq_some_iff.1 hbehind
  obtain ⟨hdepth, hcount⟩ := captureNames_before h hpieces hout (by rw [hsource, hlex, ← hsplit])
  have hread := h.read
  rw [hpieces] at hread
  obtain ⟨body, hmem, hbody⟩ := exists_group_term hread
  rw [Nat.zero_add] at hmem hbody
  exact ⟨body, {
    pieces := hpieces
    source := by
      rw [h.source, hsource, List.append_assoc]
      rfl
    lexemes := ⟨tokens, out, inner, more, by rw [h.source, htokens], by simp [hsplit], hout,
      hinner, hdepth, hp.contained.depthAfter_brackets hinner, by rw [hcount]⟩
    top := by
      rw [h.regex, Node.topGroups_anchored, Node.topGroups_sequence]
      exact List.mem_flatMap.2 ⟨_, hmem, by simp [Node.topGroups]⟩
    tree := ⟨_, by rw [h.source, h.named], hbody⟩ }⟩

/-- The number of a group around a constraint shows in the pieces before the placeholder. -/
theorem Wraps.index_eq {t : Template} {names : List (Option (List Char))} {terms : List Node}
    {index : Nat} {before after : List Piece} {p : Placeholder} {body : Node}
    (h : Compiled t names terms) (hwraps : Wraps t index before p after body) :
    index = (before.flatMap Piece.groupNames).length + 1 := by
  obtain ⟨tokens, out, inner, more, htokens, hsplit, hout, -, -, -, rfl⟩ := hwraps.lexemes
  rw [h.source] at htokens
  obtain rfl : names = Regex.captureNames tokens := by
    simpa [Regex.namesOf?, htokens, eq_comm] using h.named
  have hall : Regex.lex (Regex.readsReferences (Regex.captureNames tokens)) t.outline.source =
      some (out ++ (.openGroup (.capture none) :: inner ++ .close :: more)) := by
    rw [Regex.lex_of_tokensOf htokens, hsplit, List.append_assoc]
  rw [(captureNames_before h hwraps.pieces hout hall).2]

/-- A named group is the first of a placeholder of the name. -/
theorem getElem?_groupNames {pieces : List Piece} {i : Nat} {name : Text}
    (h : (pieces.flatMap Piece.groupNames)[i]? = some (some name)) :
    ∃ before p after, pieces = before ++ .placeholder p :: after ∧ p.name = name ∧
      i = (before.flatMap Piece.groupNames).length := by
  induction pieces generalizing i with
  | nil => simp at h
  | cons piece rest ih =>
    rw [List.flatMap_cons] at h
    by_cases hi : i < piece.groupNames.length
    · rw [List.getElem?_append_left hi] at h
      cases piece with
      | literal text => simp [Piece.groupNames] at hi
      | placeholder p =>
        cases i with
        | zero => exact ⟨[], p, rest, rfl, by simpa [Piece.groupNames] using h, rfl⟩
        | succ i => simp [Piece.groupNames, List.getElem?_replicate] at h
    · rw [List.getElem?_append_right (Nat.le_of_not_lt hi)] at h
      obtain ⟨before, p, after, rfl, hname, hbefore⟩ := ih h
      refine ⟨piece :: before, p, after, rfl, hname, ?_⟩
      rw [List.flatMap_cons, List.length_append, ← hbefore]
      omega

/-- The names of the groups that a placeholder opens. -/
theorem getElem?_groupNames_placeholder (before after : List Piece) (p : Placeholder) (i : Nat)
    (hi : i ≤ p.groupCount) :
    ((before ++ .placeholder p :: after).flatMap Piece.groupNames)[
        (before.flatMap Piece.groupNames).length + i]? =
      some (if i = 0 then some p.name else none) := by
  rw [List.flatMap_append, List.flatMap_cons, List.getElem?_append_right (Nat.le_add_right ..),
    Nat.add_sub_cancel_left, List.getElem?_append_left (by simpa [Piece.groupNames] using by omega)]
  cases i with
  | zero => rfl
  | succ i => simp [Piece.groupNames, List.getElem?_replicate]; omega

/-- What the groups of a template are: the anchored source compiles, and its groups are numbered in
order and have each an entry among the names; a group is named exactly if it wraps a constraint, and
the groups inside a constraint are not. -/
structure Grouped (t : Template) : Prop where
  compiles : Regex.ofSource? (Pattern.anchored t.pattern.source) = some t.pattern.regex
  count : t.pattern.regex.groupCount = t.pattern.groupNames.length
  numbered : t.pattern.regex.root.groups = List.range' 1 t.pattern.groupNames.length
  named : ∀ i name, t.pattern.groupNames[i]? = some (some name) ↔
    ∃ before p after body, Wraps t (i + 1) before p after body ∧ p.name = name
  inner : ∀ index before p after body, Wraps t index before p after body →
    ∀ i, i + 1 ∈ body.groups → t.pattern.groupNames[i]? = some none

/-- The groups of a template that has been read are those of its placeholders. -/
theorem grouped_of_parse {text : Text} {t : Template} (h : parse text = .ok t) : Grouped t := by
  obtain ⟨-, names, terms, hcompiled⟩ := compiled_of_parse h
  have hnames : t.pattern.groupNames = t.outline.pieces.flatMap Piece.groupNames :=
    hcompiled.groupNames
  constructor
  · rw [hcompiled.source, hcompiled.anchored]
  · rw [hcompiled.regex, hcompiled.count, hcompiled.groupNames]
  · rw [hcompiled.regex, Node.groups_anchored, Regex.groups_partTree hcompiled.tree,
      ← Regex.length_namesOf hcompiled.named, hcompiled.count, hcompiled.groupNames]
  · intro i name
    constructor
    · intro hi
      rw [hnames] at hi
      obtain ⟨before, p, after, hpieces, hname, rfl⟩ := getElem?_groupNames hi
      obtain ⟨body, hwraps⟩ := exists_wraps hcompiled hpieces
      exact ⟨before, p, after, body, hwraps, hname⟩
    · intro h
      obtain ⟨before, p, after, body, hwraps, rfl⟩ := h
      obtain rfl : i = _ := Nat.succ.inj (Wraps.index_eq hcompiled hwraps)
      rw [hnames, hwraps.pieces]
      exact getElem?_groupNames_placeholder before after p 0 (Nat.zero_le _)
  · intro index before p after body hwraps i hi
    obtain ⟨_, -, htree⟩ := hwraps.tree
    rw [Regex.groups_partTree htree, Wraps.index_eq hcompiled hwraps,
      (hcompiled.sound.placeholder p (by simp [hwraps.pieces])).count, List.mem_range'_1] at hi
    obtain ⟨k, rfl⟩ : ∃ k, i = (before.flatMap Piece.groupNames).length + (k + 1) :=
      ⟨i - (before.flatMap Piece.groupNames).length - 1, by omega⟩
    rw [hnames, hwraps.pieces]
    exact getElem?_groupNames_placeholder before after p (k + 1) (by omega)

/-- The groups of a template whose constraint has a named group and a lookahead of its own. -/
theorem grouped_nested :
    ∃ t, parse "/\x7byear:(?<y>\\d+)(?=-)\x7d-\x7brest\x7d" = .ok t ∧
      t.pattern.groupNames = [some ("year" : Text), none, some ("rest" : Text)] ∧ Grouped t := by
  have hnames : (parse "/\x7byear:(?<y>\\d+)(?=-)\x7d-\x7brest\x7d").toOption.map
      (fun t => t.pattern.groupNames) =
        some [some ("year" : Text), none, some ("rest" : Text)] := by
    decide +kernel
  cases h : parse "/\x7byear:(?<y>\\d+)(?=-)\x7d-\x7brest\x7d" with
  | error e => simp [h, Except.toOption] at hnames
  | ok t => exact ⟨t, rfl, by simpa [h, Except.toOption] using hnames, grouped_of_parse h⟩

end Template

end UriRouting
