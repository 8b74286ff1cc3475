import UriRouting.Proofs.Template.Recovery

/-!
# The values that a match finds

A text may be spelled by the pieces of a template with different values. The search tries them in the
order of their lengths, with the greatest length of the first value first, and among these the greatest
length of the second value (`pairwise_ways_terms`), because a repetition of one set of units tries more of
them before less (`Node.longestFirst_repetition`). So a template without constraints finds the values whose
lengths are the greatest in this order (`fill_groups_iff_longest`).
-/

namespace UriRouting

open scoped CodeUnit

namespace Regex

/-- An expression that can be matched in one way at most from each position. -/
def Node.IsSingle (n : Node) : Prop := ∀ s, (n.ways .forward s).length ≤ 1

/-- An expression whose ways from each position come longest first. -/
def Node.LongestFirst (n : Node) : Prop :=
  ∀ s, (n.ways .forward s).Pairwise fun first second => first.left < second.left

section

variable {α β : Type} {R : β → β → Prop} {l : List α} {f : α → List β}

/-- Going on from one choice at most keeps an order. -/
theorem pairwise_flatMap_of_length_le_one (h : l.length ≤ 1) (hf : ∀ a ∈ l, (f a).Pairwise R) :
    (l.flatMap f).Pairwise R := by
  obtain - | ⟨a, - | ⟨b, rest⟩⟩ := l
  · exact .nil
  · rw [List.flatMap_singleton]
    exact hf a List.mem_cons_self
  · simp at h

/-- Going on in one way at most from one choice at most leaves one choice at most. -/
theorem length_flatMap_le_one (h : l.length ≤ 1) (hf : ∀ a ∈ l, (f a).length ≤ 1) :
    (l.flatMap f).length ≤ 1 := by
  obtain - | ⟨a, - | ⟨b, rest⟩⟩ := l
  · exact Nat.zero_le 1
  · rw [List.flatMap_singleton]
    exact hf a List.mem_cons_self
  · simp at h

end

/-- A unit or a set of units can be matched in one way at most. -/
theorem length_toList_le_one {α : Type} (o : Option α) : o.toList.length ≤ 1 := by
  cases o <;> simp

theorem Node.isSingle_unit (u : CodeUnit) : (unit u).IsSingle := fun _ => length_toList_le_one _

theorem Node.isSingle_set (c : UnitSet) : (set c).IsSingle := fun _ => length_toList_le_one _

/-- Units in sequence can be matched in one way at most. -/
theorem Node.isSingle_units (text : Text) : (sequence (text.map unit)).IsSingle := by
  induction text with
  | nil => exact fun _ => Nat.le_refl 1
  | cons u rest ih =>
    intro s
    rw [List.map_cons, ways_sequence_cons]
    exact length_flatMap_le_one (isSingle_unit u s) fun mid _ => ih mid

/-- No way that matches forwards leaves more units than there were. -/
theorem left_le_of_mem_ways {n : Node} {s t : Cursor} (h : t ∈ n.ways .forward s) :
    t.left ≤ s.left := by
  rw [t.left_eq, s.left_eq]
  exact (after_suffix_of_mem_ways h).length_le

section

variable {once : Cursor → List Cursor}

/-- Steps that can be done in one way at most can be done a number of times in one way at most. -/
theorem length_waysExactly_le_one (hone : ∀ s, (once s).length ≤ 1) (n : Nat) (s : Cursor) :
    (waysExactly once n s).length ≤ 1 := by
  induction n generalizing s with
  | zero => exact Nat.le_refl 1
  | succ n ih => exact length_flatMap_le_one (hone s) fun mid _ => ih mid

/-- Steps that can be done in one way at most come longest first if more of them are tried before less. -/
theorem pairwise_waysUpTo (hone : ∀ s, (once s).length ≤ 1)
    (hforward : ∀ s, ∀ t ∈ once s, t.left ≤ s.left) (n : Nat) (s : Cursor) :
    (waysUpTo true once n s).Pairwise fun first second => first.left < second.left := by
  induction n generalizing s with
  | zero => exact List.pairwise_singleton _ _
  | succ n ih =>
    rw [waysUpTo, if_pos rfl, List.pairwise_append]
    refine ⟨?_, List.pairwise_singleton _ _, ?_⟩
    · apply pairwise_flatMap_of_length_le_one (hone s)
      intro mid _
      split
      · exact .nil
      · exact ih mid
    · intro t ht _ hs
      obtain rfl := List.mem_singleton.1 hs
      obtain ⟨mid, hmid, ht⟩ := List.mem_flatMap.1 ht
      split at ht
      · cases ht
      · next hmoved =>
        have hmid := hforward _ mid hmid
        have ht : t.left ≤ mid.left :=
          rel_of_mem_waysUpTo (R := fun s t => t.left ≤ s.left) (fun _ => Nat.le_refl _)
            (fun _ _ _ h h' => Nat.le_trans h' h) hforward ht
        omega

end

/-- A greedy repetition of what can be matched in one way at most comes longest first. -/
theorem Node.longestFirst_repetition {q : Quantifier} {body : Node} (hgreedy : q.greedy = true)
    (hbody : body.IsSingle) : (repetition q body).LongestFirst := by
  intro s
  simp only [ways, hgreedy]
  apply pairwise_flatMap_of_length_le_one (length_waysExactly_le_one (fun s => hbody _) _ s)
  intro mid _
  apply pairwise_waysUpTo fun s => hbody _
  intro s t ht
  rw [← Cursor.left_forget body.groups s]
  exact left_le_of_mem_ways ht

/-- One term in sequence has its own ways. -/
theorem Node.ways_singleton (n : Node) (s : Cursor) :
    (sequence [n]).ways .forward s = n.ways .forward s := by
  simp [sequence, ways]

end Regex

namespace Template

open Regex (Node Cursor)

/-- The lengths of texts; where there is none the length is zero. -/
def lengths (texts : List (Option Text)) : List Nat := texts.map fun text => (text.getD []).length

theorem lengths_map_some (values : List Text) :
    lengths (values.map some) = values.map List.length := by
  simp [lengths, Function.comp_def]

section

variable {names : List (Option (List Char))} {opened : Nat} {pieces : List Piece} {terms : List Node}
  {s : Cursor}

/-- If the ways of each constraint come longest first, the ways of pieces come in the order of the
lengths that the placeholders record, the greatest first. -/
theorem pairwise_ways_terms
    (hlongest : ∀ p opened body, .placeholder p ∈ pieces →
      Regex.partTree? names opened p.pattern = some body → body.LongestFirst)
    (hterms : termsOf? names opened pieces = some terms)
    (hroom : opened + (pieces.flatMap Piece.groupNames).length ≤ s.captures.length) :
    ((Node.sequence terms).ways .forward s).Pairwise fun first second =>
      lengths (recorded opened pieces second) < lengths (recorded opened pieces first) := by
  induction pieces generalizing opened terms s with
  | nil =>
    obtain rfl := Option.some.inj hterms
    exact List.pairwise_singleton _ _
  | cons piece rest ih =>
    obtain ⟨first, more, hfirst, hmore, rfl⟩ := exists_of_termsOf?_cons hterms
    rw [List.flatMap_cons, List.length_append, ← Nat.add_assoc] at hroom
    have hbehind (mid : Cursor) (hmid : mid ∈ (Node.sequence first).ways .forward s) :=
      ih (s := mid) (fun p opened body hp => hlongest p opened body (List.mem_cons_of_mem _ hp))
        hmore ((Regex.keeps_of_mem_ways hmid).length ▸ hroom)
    rw [Node.ways_sequence_append]
    cases piece with
    | literal text =>
      obtain rfl := Option.some.inj hfirst
      exact Regex.pairwise_flatMap_of_length_le_one (Node.isSingle_units text s) hbehind
    | placeholder p =>
      obtain ⟨body, hbody, rfl⟩ := Option.map_eq_some_iff.1 hfirst
      have hopened : opened < s.captures.length := by
        simp only [Piece.groupNames, List.length_cons] at hroom
        omega
      have hgroup : ((Node.sequence [.group (opened + 1) body]).ways .forward s).Pairwise
          fun first second => first.left < second.left := by
        rw [Node.ways_singleton, Node.ways, List.pairwise_map]
        exact hlongest p _ body List.mem_cons_self hbody s
      -- The length of the value is the number of units that have been read.
      have hlengths (mid t : Cursor)
          (hmid : mid ∈ (Node.sequence [.group (opened + 1) body]).ways .forward s)
          (ht : t ∈ (Node.sequence more).ways .forward mid) :
          lengths (recorded opened (.placeholder p :: rest) t) = (s.left - mid.left) ::
            lengths (recorded (opened + (Piece.placeholder p).groupNames.length) rest t) := by
        obtain ⟨value, hread, -, hrecorded⟩ := recorded_placeholder hmore hopened hmid ht
        have hvalue : value.length = s.left - mid.left := by
          rw [s.left_eq, mid.left_eq, hread, List.length_append, Nat.add_sub_cancel]
        rw [hrecorded, ← hvalue]
        rfl
      rw [List.pairwise_flatMap]
      constructor
      · intro mid hmid
        apply (hbehind mid hmid).imp_of_mem
        intro t t' ht ht' hlt
        rw [hlengths mid t hmid ht, hlengths mid t' hmid ht']
        exact List.cons_lt_cons_iff.2 (.inr ⟨rfl, hlt⟩)
      · apply hgroup.imp_of_mem
        intro mid mid' hmid hmid' hlt t ht t' ht'
        rw [hlengths mid t hmid ht, hlengths mid' t' hmid' ht']
        have hforward := Regex.left_le_of_mem_ways hmid'
        exact List.cons_lt_cons_iff.2 (.inl (by omega))

/-- If a text goes on with what the pieces spell with some values, one of their ways reads it and
records the values. -/
theorem exists_mem_ways_of_spells {accepts : Placeholder → Text → Prop} {values : List Text}
    {text rest : Text}
    (hlang : ∀ p opened body, .placeholder p ∈ pieces →
      Regex.partTree? names opened p.pattern = some body → ∀ w, accepts p w → body.Lang w)
    (hterms : termsOf? names opened pieces = some terms)
    (hroom : opened + (pieces.flatMap Piece.groupNames).length ≤ s.captures.length)
    (hspells : Spells accepts pieces values text) (hafter : s.after = text ++ rest) :
    ∃ t ∈ (Node.sequence terms).ways .forward s, t.after = rest ∧
      recorded opened pieces t = values.map some := by
  induction hspells generalizing opened terms s with
  | nil =>
    obtain rfl := Option.some.inj hterms
    exact ⟨s, List.mem_singleton.2 rfl, hafter, rfl⟩
  | @literal text pieces values spelled _ ih =>
    obtain ⟨first, more, hfirst, hmore, rfl⟩ := exists_of_termsOf?_cons hterms
    obtain rfl := Option.some.inj hfirst
    rw [List.append_assoc] at hafter
    obtain ⟨mid, hmid, hbehind⟩ := Regex.exists_mem_ways_of_lang ((Node.lang_units text _).2 rfl) hafter
    have hlength := (Regex.keeps_of_mem_ways hmid).length
    obtain ⟨t, ht, hend, hrecorded⟩ :=
      ih (fun p opened body hp => hlang p opened body (List.mem_cons_of_mem _ hp)) hmore
        (hlength ▸ hroom) hbehind
    rw [Node.ways_sequence_append]
    exact ⟨t, List.mem_flatMap.2 ⟨mid, hmid, ht⟩, hend, hrecorded⟩
  | @placeholder p value pieces values spelled hvalue _ ih =>
    obtain ⟨first, more, hfirst, hmore, rfl⟩ := exists_of_termsOf?_cons hterms
    obtain ⟨body, hbody, rfl⟩ := Option.map_eq_some_iff.1 hfirst
    rw [List.flatMap_cons, List.length_append, ← Nat.add_assoc] at hroom
    rw [List.append_assoc] at hafter
    have hgroup : (Node.sequence [.group (opened + 1) body]).Lang value :=
      (Node.lang_singleton _ value).2 (hlang p _ body List.mem_cons_self hbody value hvalue)
    obtain ⟨mid, hmid, hbehind⟩ := Regex.exists_mem_ways_of_lang hgroup hafter
    obtain ⟨t, ht, hend, hrecorded⟩ :=
      ih (fun p opened body hp => hlang p opened body (List.mem_cons_of_mem _ hp)) hmore
        ((Regex.keeps_of_mem_ways hmid).length ▸ hroom) hbehind
    have hopened : opened < s.captures.length := by
      simp only [Piece.groupNames, List.length_cons] at hroom
      omega
    obtain ⟨value', hread, -, hrecorded'⟩ := recorded_placeholder hmore hopened hmid ht
    obtain rfl : value' = value := by
      rw [hread, hbehind] at hafter
      exact List.append_cancel_right hafter
    rw [Node.ways_sequence_append]
    refine ⟨t, List.mem_flatMap.2 ⟨mid, hmid, ht⟩, hend, ?_⟩
    rw [hrecorded', hrecorded, List.map_cons]

end

/-- Names for all groups leave none of their texts out. -/
theorem namedTexts_eq_self {κ : Type} {groupNames : List (Option κ)} {texts : List (Option Text)}
    (hnamed : ∀ name ∈ groupNames, name.isSome) (hlength : texts.length = groupNames.length) :
    Pattern.namedTexts groupNames texts = texts := by
  rw [Pattern.namedTexts, List.filter_eq_self.2 fun entry hentry => hnamed _ (List.of_mem_zip hentry).1,
    List.map_snd_zip (Nat.le_of_eq hlength)]

/-- Values that are not empty and hold no slash, and spell a text with the literals of some pieces. -/
def Splits (pieces : List Piece) (values : List Text) (uri : Text) : Prop :=
  Spells (fun _ value => value ≠ [] ∧ ('/' : CodeUnit) ∉ value) pieces values uri

/-- Of all values that split a text, those whose lengths are the greatest: any others are shorter in the
first place where the lengths differ. -/
structure LongestSplit (pieces : List Piece) (values : List Text) (uri : Text) : Prop where
  splits : Splits pieces values uri
  longest : ∀ others, Splits pieces others uri → others ≠ values →
    others.map List.length < values.map List.length

section

variable {t : Template} {names : List (Option (List Char))} {terms : List Node}

/-- If the ways of each constraint come longest first and the constraint matches what the placeholder
accepts, a match records the values with the greatest lengths of all accepted values that spell the text. -/
theorem Compiled.eq_or_lt_of_groups {accepts : Placeholder → Text → Prop} (h : Compiled t names terms)
    (hlongest : ∀ p opened body, .placeholder p ∈ t.outline.pieces →
      Regex.partTree? names opened p.pattern = some body → body.LongestFirst)
    (hlang : ∀ p opened body, .placeholder p ∈ t.outline.pieces →
      Regex.partTree? names opened p.pattern = some body → ∀ w, accepts p w → body.Lang w)
    {uri : Text} {texts : List (Option Text)} {values others : List Text}
    (hmatch : t.pattern.groups? uri = some texts)
    (hvalues : Pattern.namedTexts t.pattern.groupNames texts = values.map some)
    (hothers : Spells accepts t.outline.pieces others uri) :
    others = values ∨ others.map List.length < values.map List.length := by
  obtain ⟨last, hfind, rfl⟩ := (groups?_eq_some_iff h).1 hmatch
  have hlast : recorded 0 t.outline.pieces last = values.map some := by
    rw [← hvalues, h.groupNames]
    rfl
  obtain ⟨other, hother, hend, hrecorded⟩ :=
    exists_mem_ways_of_spells hlang h.read (h.room uri) hothers (List.append_nil uri).symm
  have hordered := pairwise_ways_terms hlongest h.read (h.room uri)
  rcases rel_of_find? hordered hfind hother (List.isEmpty_iff.2 hend) with rfl | hlt
  · rw [hrecorded] at hlast
    exact .inl ((List.map_inj_right fun _ _ => Option.some.inj).1 hlast)
  · rw [hrecorded, hlast, lengths_map_some, lengths_map_some] at hlt
    exact .inr hlt

section

variable (h : Compiled t names terms) (hfree : t.outline.explicitConstraints = 0) {p : Placeholder}
  (hp : .placeholder p ∈ t.outline.pieces)

include hfree hp

/-- The ways of a constraint that is not written come longest first. -/
theorem longestFirst_of_free {opened : Nat} {body : Node}
    (hbody : Regex.partTree? names opened p.pattern = some body) : body.LongestFirst := by
  rw [Placeholder.pattern, constraint_eq_none hfree hp, Option.getD_none, partTree?_default] at hbody
  obtain rfl := Option.some.inj hbody
  intro s
  rw [Node.ways_singleton]
  exact Node.longestFirst_repetition rfl (Node.isSingle_set noSlash) s

include h

/-- A constraint that is not written matches what is not empty and holds no slash. -/
theorem lang_of_free {opened : Nat} {body : Node}
    (hbody : Regex.partTree? names opened p.pattern = some body) :
    body.IsLocal ∧ ∀ w, body.Lang w ↔ w ≠ [] ∧ ('/' : CodeUnit) ∉ w := by
  obtain ⟨hlocal, hlang⟩ := lang_constraint h hp
    (fun constraint hconstraint => by simp [constraint_eq_none hfree hp] at hconstraint) hbody
  exact ⟨hlocal, fun w => (hlang w).trans (accepts_iff_of_free hfree hp w)⟩

/-- A constraint that is not written has no groups of its own. -/
theorem groupCount_of_free : p.groupCount = 0 := by
  rw [← (h.sound.placeholder p hp).count, Placeholder.pattern, constraint_eq_none hfree hp]
  rfl

end

/-- All groups of a template without constraints have names. -/
theorem isSome_of_mem_groupNames (h : Compiled t names terms)
    (hfree : t.outline.explicitConstraints = 0) :
    ∀ name ∈ t.pattern.groupNames, name.isSome := by
  intro name hname
  rw [h.groupNames, Outline.groupNames, List.mem_flatMap] at hname
  obtain ⟨piece, hpiece, hname⟩ := hname
  cases piece with
  | literal text => cases hname
  | placeholder p =>
    rw [Piece.groupNames, groupCount_of_free h hfree hpiece] at hname
    obtain rfl := List.mem_singleton.1 hname
    rfl

/-- What a template without constraints matches is split by the texts of its groups, with the greatest
lengths. -/
theorem longestSplit_of_groups (h : Compiled t names terms)
    (hfree : t.outline.explicitConstraints = 0) {uri : Text} {texts : List (Option Text)}
    (hmatch : t.pattern.groups? uri = some texts) :
    ∃ values, texts = values.map some ∧ LongestSplit t.outline.pieces values uri := by
  obtain ⟨hlength, values, hvalues, hsplits⟩ :=
    accepted_of_groups h (acceptsWays_of_lang fun _ _ _ hp => lang_of_free h hfree hp) hmatch
  refine ⟨values, ?_, hsplits, ?_⟩
  · rw [← hvalues, namedTexts_eq_self (isSome_of_mem_groupNames h hfree) hlength]
  · intro others hothers hne
    exact (h.eq_or_lt_of_groups (fun _ _ _ hp => longestFirst_of_free hfree hp)
      (fun _ _ _ hp hbody w => ((lang_of_free h hfree hp hbody).2 w).2) hmatch hvalues
      hothers).resolve_left hne

/-- A template without constraints matches what some values split. -/
theorem isSome_groups_of_splits (h : Compiled t names terms)
    (hfree : t.outline.explicitConstraints = 0) {uri : Text} {values : List Text}
    (hsplits : Splits t.outline.pieces values uri) : (t.pattern.groups? uri).isSome := by
  obtain ⟨last, hlast, hend, -⟩ := exists_mem_ways_of_spells
    (fun _ _ _ hp hbody w => ((lang_of_free h hfree hp hbody).2 w).2) h.read (h.room uri) hsplits
    (List.append_nil uri).symm
  rw [Pattern.groups?, h.regex, Regex.exec?_anchored, Option.isSome_map, List.find?_isSome]
  exact ⟨last, hlast, List.isEmpty_iff.2 hend⟩

end

/-- There are no two lists of values that split a text with the greatest lengths. -/
theorem LongestSplit.unique {pieces : List Piece} {values values' : List Text} {uri : Text}
    (h : LongestSplit pieces values uri) (h' : LongestSplit pieces values' uri) : values = values' := by
  by_contra hne
  exact lt_asymm (h.longest values' h'.splits (Ne.symm hne)) (h'.longest values h.splits hne)

/-- A template without constraints matches a text with the texts of its groups just if these are the
values that split the text with the greatest lengths. -/
theorem fill_groups_iff_longest {text : Text} {t : Template} (h : parse text = .ok t)
    (hfree : t.outline.explicitConstraints = 0) (uri : Text) (prior texts : List (Option Text)) :
    t.fill uri (some (.groups prior)) = .ok (true, .groups texts) ↔
      ∃ values, texts = values.map some ∧ LongestSplit t.outline.pieces values uri := by
  obtain ⟨-, names, terms, hcompiled⟩ := compiled_of_parse h
  rw [fill_groups_iff]
  constructor
  · exact longestSplit_of_groups hcompiled hfree
  · rintro ⟨values, rfl, hlongest⟩
    obtain ⟨texts, htexts⟩ := Option.isSome_iff_exists.1
      (isSome_groups_of_splits hcompiled hfree hlongest.splits)
    obtain ⟨values', rfl, hlongest'⟩ := longestSplit_of_groups hcompiled hfree htexts
    rw [htexts, hlongest.unique hlongest']

/-- Two placeholders that nothing separates, behind one whose value holds the separator. -/
theorem fill_groups_longest_separator :
    ∃ t values, parse "/\x7bx\x7d-\x7by:\x7d\x7bz\x7d" = .ok t ∧
      t.outline.explicitConstraints = 0 ∧ values = [↑"a-b", ↑"cd", ↑"e"] ∧
      t.fill "/a-b-cde" (some (.groups [])) = .ok (true, .groups (values.map some)) ∧
      LongestSplit t.outline.pieces values "/a-b-cde" := by
  have hparse : (parse "/\x7bx\x7d-\x7by:\x7d\x7bz\x7d").toOption.map
      (fun t => (t.outline.explicitConstraints, t.pattern.groups? "/a-b-cde")) =
        some (0, some [some ↑"a-b", some ↑"cd", some ↑"e"]) := by
    decide +kernel
  cases h : parse "/\x7bx\x7d-\x7by:\x7d\x7bz\x7d" with
  | error e => simp [h, Except.toOption] at hparse
  | ok t =>
    obtain ⟨hfree, hgroups⟩ : t.outline.explicitConstraints = 0 ∧
        t.pattern.groups? "/a-b-cde" = some [some ↑"a-b", some ↑"cd", some ↑"e"] := by
      simpa [h, Except.toOption] using hparse
    have hfill : t.fill "/a-b-cde" (some (.groups [])) =
        .ok (true, .groups [some ↑"a-b", some ↑"cd", some ↑"e"]) := fill_groups_iff.2 hgroups
    obtain ⟨values, hvalues, hlongest⟩ := (fill_groups_iff_longest h hfree _ [] _).1 hfill
    obtain rfl : [↑"a-b", ↑"cd", ↑"e"] = values :=
      (List.map_inj_right fun _ _ => Option.some.inj).1 hvalues
    exact ⟨t, _, rfl, hfree, rfl, hfill, hlongest⟩

end Template

end UriRouting
