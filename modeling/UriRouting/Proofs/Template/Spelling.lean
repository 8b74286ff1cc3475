import UriRouting.Proofs.Regex.Captures
import UriRouting.Proofs.Template.Expression

/-!
# What the groups of a template capture

`Spells` relates pieces to the texts that they stand for: a literal stands for itself, a placeholder
for any accepted value. A match of a template spells the text that is matched with what the groups of
the placeholders captured, whatever the constraints are (`spells_of_groups`).
-/

namespace UriRouting

namespace Pattern

variable {κ : Type}

/-- The texts of the groups that have a name, in group order. -/
def namedTexts (groupNames : List (Option κ)) (texts : List (Option Text)) : List (Option Text) :=
  ((groupNames.zip texts).filter fun entry => entry.1.isSome).map Prod.snd

/-- Groups without a name leave no trace among the named texts. -/
theorem namedTexts_replicate (n : Nat) (groupNames : List (Option κ)) (texts : List (Option Text)) :
    namedTexts (List.replicate n none ++ groupNames) texts =
      namedTexts groupNames (texts.drop n) := by
  induction n generalizing texts with
  | zero => rfl
  | succ n ih =>
    rw [List.replicate_succ, List.cons_append]
    cases texts with
    | nil => simp [namedTexts]
    | cons text rest => exact ih rest

end Pattern

namespace Template

open Regex (Node Cursor)

/-- Pieces with accepted values for their placeholders, in order, and the text that they spell. -/
inductive Spells (accepts : Placeholder → Text → Prop) : List Piece → List Text → Text → Prop
  | nil : Spells accepts [] [] []
  | literal {text : Text} {rest : List Piece} {values : List Text} {spelled : Text}
      (h : Spells accepts rest values spelled) :
      Spells accepts (.literal text :: rest) values (text ++ spelled)
  | placeholder {p : Placeholder} {value : Text} {rest : List Piece} {values : List Text}
      {spelled : Text} (hvalue : accepts p value) (h : Spells accepts rest values spelled) :
      Spells accepts (.placeholder p :: rest) (value :: values) (value ++ spelled)

section

variable {accepts : Placeholder → Text → Prop} {rest : List Piece} {w : Text}

/-- No pieces spell the empty text alone. -/
theorem exists_spells_nil : (∃ values, Spells accepts [] values w) ↔ w = [] := by
  constructor
  · intro h
    obtain ⟨_, ⟨⟩⟩ := h
    rfl
  · intro hw
    subst hw
    exact ⟨[], .nil⟩

/-- What pieces spell behind a literal begins with the literal. -/
theorem exists_spells_literal {text : Text} :
    (∃ values, Spells accepts (.literal text :: rest) values w) ↔
      ∃ v, (∃ values, Spells accepts rest values v) ∧ w = text ++ v := by
  constructor
  · intro h
    obtain ⟨values, hspells⟩ := h
    cases hspells with
    | literal hrest => exact ⟨_, ⟨values, hrest⟩, rfl⟩
  · intro h
    obtain ⟨v, ⟨values, hrest⟩, rfl⟩ := h
    exact ⟨values, .literal hrest⟩

/-- What pieces spell behind a placeholder begins with a value that the placeholder accepts. -/
theorem exists_spells_placeholder {p : Placeholder} :
    (∃ values, Spells accepts (.placeholder p :: rest) values w) ↔
      ∃ value v, accepts p value ∧ (∃ values, Spells accepts rest values v) ∧ w = value ++ v := by
  constructor
  · intro h
    obtain ⟨_, hspells⟩ := h
    cases hspells with
    | placeholder hvalue hrest => exact ⟨_, _, hvalue, ⟨_, hrest⟩, rfl⟩
  · intro h
    obtain ⟨value, v, hvalue, ⟨values, hrest⟩, rfl⟩ := h
    exact ⟨value :: values, .placeholder hvalue hrest⟩

/-- Values that are accepted are accepted more generally. -/
theorem Spells.mono {accepts accepts' : Placeholder → Text → Prop} {pieces : List Piece}
    {values : List Text} {spelled : Text} (h : Spells accepts pieces values spelled)
    (himp : ∀ p value, accepts p value → accepts' p value) :
    Spells accepts' pieces values spelled := by
  induction h with
  | nil => exact .nil
  | literal _ ih => exact .literal ih
  | placeholder hvalue _ ih => exact .placeholder (himp _ _ hvalue) ih

/-- There is a value for each placeholder. -/
theorem Spells.length_values {accepts : Placeholder → Text → Prop} {pieces : List Piece}
    {values : List Text} {spelled : Text} (h : Spells accepts pieces values spelled) :
    (pieces.filterMap Piece.name?).length = values.length := by
  induction h with
  | nil => rfl
  | literal _ ih => exact ih
  | placeholder _ _ ih => exact congrArg Nat.succ ih

/-- What pieces spell holds none of some units if neither the literals nor the values do. -/
theorem Spells.disjoint {accepts : Placeholder → Text → Prop} {pieces : List Piece}
    {values : List Text} {spelled units : Text} (h : Spells accepts pieces values spelled)
    (hliteral : (pieces.flatMap Piece.literalText).Disjoint units)
    (hvalue : ∀ p value, .placeholder p ∈ pieces → accepts p value → value.Disjoint units) :
    spelled.Disjoint units := by
  induction h with
  | nil => exact List.disjoint_nil_left units
  | literal _ ih =>
    rw [List.flatMap_cons, List.disjoint_append_left] at hliteral
    exact List.disjoint_append_left.2
      ⟨hliteral.1, ih hliteral.2 fun p value hp => hvalue p value (List.mem_cons_of_mem _ hp)⟩
  | placeholder haccepts _ ih =>
    rw [List.flatMap_cons, List.disjoint_append_left] at hliteral
    exact List.disjoint_append_left.2 ⟨hvalue _ _ List.mem_cons_self haccepts,
      ih hliteral.2 fun p value hp => hvalue p value (List.mem_cons_of_mem _ hp)⟩

end

/-- The ways of units in sequence read these units. -/
theorem mem_ways_units {text : Text} {s t : Cursor}
    (h : t ∈ (Node.sequence (text.map .unit)).ways .forward s) :
    s.after = text ++ t.after ∧ t.captures = s.captures := by
  induction text generalizing s with
  | nil =>
    obtain rfl : t = s := by simpa [Node.sequence, Node.ways] using h
    exact ⟨rfl, rfl⟩
  | cons u rest ih =>
    rw [List.map_cons, Node.ways_sequence_cons] at h
    obtain ⟨mid, hmid, ht⟩ := List.mem_flatMap.1 h
    simp only [Node.ways, Option.mem_toList] at hmid
    obtain ⟨v, hv, hafter, hcaptures⟩ := Cursor.advance_forward hmid
    obtain rfl : v = u := by simpa using hv
    obtain ⟨hrest, hcaptures'⟩ := ih ht
    exact ⟨by rw [hafter, hrest, List.cons_append], hcaptures'.trans hcaptures⟩

/-- The groups of the terms of pieces are numbered from the first free number on. -/
theorem lt_of_mem_groups_terms {names : List (Option (List Char))} {opened : Nat}
    {pieces : List Piece} {terms : List Node} (h : termsOf? names opened pieces = some terms)
    {group : Nat} (hgroup : group ∈ (Node.sequence terms).groups) : opened < group := by
  induction pieces generalizing opened terms with
  | nil =>
    obtain rfl := Option.some.inj h
    simp at hgroup
  | cons piece rest ih =>
    obtain ⟨first, more, hfirst, hmore, rfl⟩ := exists_of_termsOf?_cons h
    rw [Regex.Node.groups_sequence, List.flatMap_append, List.mem_append,
      ← Regex.Node.groups_sequence more] at hgroup
    rcases hgroup with hgroup | hgroup
    · cases piece with
      | literal text =>
        obtain rfl := Option.some.inj hfirst
        simp [Node.groups] at hgroup
      | placeholder p =>
        obtain ⟨body, hbody, rfl⟩ := Option.map_eq_some_iff.1 hfirst
        have hgroups := Regex.groups_partTree hbody
        simp only [List.flatMap_singleton, Node.groups, hgroups, List.mem_cons,
          List.mem_range'_1] at hgroup
        omega
    · exact Nat.lt_of_le_of_lt (Nat.le_add_right ..) (ih hmore hgroup)

/-- Placeholders accept what the ways of their constraints read. -/
def AcceptsWays (accepts : Placeholder → Text → Prop) (names : List (Option (List Char)))
    (pieces : List Piece) : Prop :=
  ∀ p opened body, .placeholder p ∈ pieces → Regex.partTree? names opened p.pattern = some body →
    ∀ s, ∀ t ∈ body.ways .forward s, ∀ value, s.after = value ++ t.after → accepts p value

/-- The texts that the groups of the placeholders of pieces have recorded, when so many groups have been
opened before. -/
def recorded (opened : Nat) (pieces : List Piece) (t : Cursor) : List (Option Text) :=
  Pattern.namedTexts (pieces.flatMap Piece.groupNames) (t.captures.drop opened)

/-- The group of a placeholder records the text that a way of the constraint has read, and the pieces
behind it leave the record as it is. -/
theorem recorded_placeholder {names : List (Option (List Char))} {opened : Nat} {p : Placeholder}
    {rest : List Piece} {body : Node} {more : List Node} {s mid t : Cursor}
    (hmore : termsOf? names (opened + (Piece.placeholder p).groupNames.length) rest = some more)
    (hroom : opened < s.captures.length)
    (hmid : mid ∈ (Node.sequence [.group (opened + 1) body]).ways .forward s)
    (ht : t ∈ (Node.sequence more).ways .forward mid) :
    ∃ value, s.after = value ++ mid.after ∧
      (∃ inner ∈ body.ways .forward s, s.after = value ++ inner.after) ∧
      recorded opened (.placeholder p :: rest) t =
        some value :: recorded (opened + (Piece.placeholder p).groupNames.length) rest t := by
  have hmid' : mid ∈ (Node.group (opened + 1) body).ways .forward s := by
    simpa [Node.sequence, Node.ways] using hmid
  obtain ⟨value, hread, hrecord, hinner⟩ := Regex.captured_of_mem_ways_group hmid' hroom
  -- No group behind has this number, so the record is still there at the end.
  have hkept : t.captures[opened]? = some (some value) := by
    rw [(Regex.keeps_of_mem_ways ht).others opened fun group hgroup => ?_]
    · exact hrecord
    · have hgroup := lt_of_mem_groups_terms hmore hgroup
      rw [Piece.groupNames, List.length_cons] at hgroup
      omega
  refine ⟨value, hread, hinner, ?_⟩
  obtain ⟨hlt, hget⟩ := List.getElem?_eq_some_iff.1 hkept
  rw [recorded, List.drop_eq_getElem_cons hlt, hget, List.flatMap_cons, Piece.groupNames,
    List.cons_append]
  change some value :: Pattern.namedTexts _ _ = _
  rw [Pattern.namedTexts_replicate, List.drop_drop, recorded, List.length_cons, List.length_replicate]
  congr 3
  omega

/-- A way of the terms of pieces reads a text that the pieces spell with the texts that the groups of
the placeholders record. The records of the groups before stay as they are. -/
theorem spells_of_mem_ways {accepts : Placeholder → Text → Prop}
    {names : List (Option (List Char))} {opened : Nat} {pieces : List Piece}
    {terms : List Node} {s t : Cursor} (haccepts : AcceptsWays accepts names pieces)
    (hterms : termsOf? names opened pieces = some terms)
    (hroom : opened + (pieces.flatMap Piece.groupNames).length ≤ s.captures.length)
    (h : t ∈ (Node.sequence terms).ways .forward s) :
    ∃ values text, s.after = text ++ t.after ∧ Spells accepts pieces values text ∧
      recorded opened pieces t = values.map some := by
  induction pieces generalizing opened terms s with
  | nil =>
    obtain rfl := Option.some.inj hterms
    obtain rfl : t = s := by simpa [Node.sequence, Node.ways] using h
    exact ⟨[], [], rfl, .nil, rfl⟩
  | cons piece rest ih =>
    obtain ⟨first, more, hfirst, hmore, rfl⟩ := exists_of_termsOf?_cons hterms
    rw [Node.ways_sequence_append] at h
    obtain ⟨mid, hmid, ht⟩ := List.mem_flatMap.1 h
    have hlength := (Regex.keeps_of_mem_ways hmid).length
    rw [List.flatMap_cons, List.length_append, ← Nat.add_assoc] at hroom
    obtain ⟨values, text, hafter, hspells, hvalues⟩ :=
      ih (fun p opened body hp => haccepts p opened body (List.mem_cons_of_mem _ hp)) hmore (by omega) ht
    cases piece with
    | literal written =>
      obtain rfl := Option.some.inj hfirst
      obtain ⟨hread, -⟩ := mem_ways_units hmid
      exact ⟨values, written ++ text, by rw [hread, hafter, List.append_assoc], .literal hspells,
        hvalues⟩
    | placeholder p =>
      obtain ⟨body, hbody, rfl⟩ := Option.map_eq_some_iff.1 hfirst
      simp only [Piece.groupNames, List.length_cons] at hroom
      obtain ⟨value, hread, ⟨inner, hinner, hvalue⟩, hrecorded⟩ :=
        recorded_placeholder hmore (by omega) hmid ht
      refine ⟨value :: values, value ++ text, by rw [hread, hafter, List.append_assoc],
        .placeholder (haccepts p _ body List.mem_cons_self hbody s inner hinner value hvalue) hspells, ?_⟩
      rw [hrecorded, hvalues, List.map_cons]

/-- The texts of a match are those of the first way from the start of the text to its end. -/
theorem groups?_eq_some_iff {t : Template} {names : List (Option (List Char))} {terms : List Node}
    (h : Compiled t names terms) {uri : Text} {texts : List (Option Text)} :
    t.pattern.groups? uri = some texts ↔
      ∃ last, ((Node.sequence terms).ways .forward (Cursor.start uri names.length)).find?
          (·.after.isEmpty) = some last ∧ last.captures = texts := by
  rw [Pattern.groups?, h.regex, Regex.exec?_anchored, Option.map_eq_some_iff]

/-- At the start of a text there is room for the groups of a template. -/
theorem Compiled.room {t : Template} {names : List (Option (List Char))} {terms : List Node}
    (h : Compiled t names terms) (uri : Text) :
    0 + t.outline.groupNames.length ≤ (Cursor.start uri names.length).captures.length := by
  rw [Nat.zero_add, ← h.count]
  exact Nat.le_of_eq List.length_replicate.symm

/-- A match of a template spells the text with what the groups of the placeholders captured, and the
placeholders accept these texts. -/
theorem accepted_of_groups {accepts : Placeholder → Text → Prop} {t : Template}
    {names : List (Option (List Char))} {terms : List Node} (h : Compiled t names terms)
    (haccepts : AcceptsWays accepts names t.outline.pieces) {uri : Text}
    {texts : List (Option Text)} (hmatch : t.pattern.groups? uri = some texts) :
    texts.length = t.pattern.groupNames.length ∧
      ∃ values, Pattern.namedTexts t.pattern.groupNames texts = values.map some ∧
        Spells accepts t.outline.pieces values uri := by
  obtain ⟨last, hfind, rfl⟩ := (groups?_eq_some_iff h).1 hmatch
  have hlast := List.mem_of_find?_eq_some hfind
  have hend : last.after = [] := by simpa using List.find?_some hfind
  have hlength := (Regex.keeps_of_mem_ways hlast).length
  obtain ⟨values, text, hafter, hspells, hvalues⟩ :=
    spells_of_mem_ways haccepts h.read (h.room uri) hlast
  rw [hend, List.append_nil] at hafter
  obtain rfl : uri = text := hafter
  rw [h.groupNames, ← h.count]
  exact ⟨hlength.trans List.length_replicate, values, hvalues, hspells⟩

/-- A match of a template spells the text with what the groups of the placeholders captured. -/
theorem spells_of_groups {t : Template} {names : List (Option (List Char))} {terms : List Node}
    (h : Compiled t names terms) {uri : Text} {texts : List (Option Text)}
    (hmatch : t.pattern.groups? uri = some texts) :
    texts.length = t.pattern.groupNames.length ∧
      ∃ values, Pattern.namedTexts t.pattern.groupNames texts = values.map some ∧
        Spells (fun _ _ => True) t.outline.pieces values uri :=
  accepted_of_groups h (fun _ _ _ _ _ _ _ _ _ _ => trivial) hmatch

end Template

end UriRouting
