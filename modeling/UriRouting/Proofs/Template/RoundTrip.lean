import UriRouting.Proofs.Template.Spelling
import UriRouting.Template.Generation

/-!
# Generating what has been matched

A match of a template spells the text that is matched with the texts of its named groups, and
generating from the values of the match gives the text back, provided that the placeholders of one
name have captured the same text (`spells_and_generate_of_fill`). Matching reads the source and
generation the normalized form; the pieces of the template tie the two together
(`segments_normalized`).
-/

namespace UriRouting

open scoped CodeUnit

namespace Entries

variable {κ α β : Type} [DecidableEq κ]

/-- Changing all values along with their names changes the value under a name. -/
theorem get?_map_keyed (f : κ → α → β) (name : κ) (entries : Entries κ α) :
    get? name (entries.map fun entry => (entry.1, f entry.1 entry.2)) =
      (get? name entries).map (f name) := by
  induction entries with
  | nil => rfl
  | cons entry rest ih =>
    simp only [List.map_cons, get?, ih]
    split
    · next hname => rw [hname, Option.map_some]
    · rfl

/-- Changing all values changes the value under a name. -/
theorem get?_map (f : α → β) (name : κ) (entries : Entries κ α) :
    get? name (entries.map fun entry => (entry.1, f entry.2)) = (get? name entries).map f :=
  get?_map_keyed (fun _ => f) name entries

end Entries

namespace Pattern

variable {κ : Type}

/-- Groups of the same name have the same text. -/
def Agree (groupNames : List (Option κ)) (texts : List (Option Text)) : Prop :=
  ∀ a ∈ groupNames.zip texts, ∀ b ∈ groupNames.zip texts, a.1.isSome → a.1 = b.1 → a.2 = b.2

instance [DecidableEq κ] (groupNames : List (Option κ)) (texts : List (Option Text)) :
    Decidable (Agree groupNames texts) := by
  unfold Agree
  infer_instance

/-- Groups agree if no name repeats. -/
theorem agree_of_nodup {groupNames : List (Option κ)} (texts : List (Option Text))
    (h : (groupNames.filterMap id).Nodup) : Agree groupNames texts := by
  have hpairwise := List.pairwise_iff_getElem.1 (List.pairwise_filterMap.1 h)
  have hdistinct (i j : Nat) (name : κ) (hi : groupNames[i]? = some (some name))
      (hj : groupNames[j]? = some (some name)) : ¬ i < j := by
    intro hlt
    obtain ⟨hi, hiname⟩ := List.getElem?_eq_some_iff.1 hi
    obtain ⟨hj, hjname⟩ := List.getElem?_eq_some_iff.1 hj
    exact hpairwise i j hi hj hlt name hiname name hjname rfl
  intro ⟨group, text⟩ htext ⟨_, other⟩ hother hnamed hgroup
  subst hgroup
  obtain ⟨name, rfl⟩ := Option.isSome_iff_exists.1 hnamed
  obtain ⟨i, hi⟩ := List.mem_iff_getElem?.1 htext
  obtain ⟨j, hj⟩ := List.mem_iff_getElem?.1 hother
  rw [List.getElem?_zip_eq_some] at hi hj
  obtain rfl : i = j := by
    have := hdistinct i j name hi.1 hj.1
    have := hdistinct j i name hj.1 hi.1
    omega
  exact Option.some.inj (hi.2.symm.trans hj.2)

/-- The names of groups and their texts, taken in order, are entries of the groups. -/
theorem mem_zip_of_namedTexts {groupNames : List (Option κ)} {texts : List (Option Text)}
    {values : List Text} (h : namedTexts groupNames texts = values.map some) {name : κ}
    {value : Text} (hentry : (name, value) ∈ (groupNames.filterMap id).zip values) :
    (some name, some value) ∈ groupNames.zip texts := by
  induction groupNames generalizing texts values with
  | nil => simp at hentry
  | cons group rest ih =>
    cases texts with
    | nil =>
      obtain rfl : values = [] := List.map_eq_nil_iff.1 h.symm
      simp at hentry
    | cons text others =>
      cases group with
      | none => exact List.mem_cons_of_mem _ (ih h hentry)
      | some first =>
        change text :: namedTexts rest others = values.map some at h
        cases values with
        | nil => simp at h
        | cons v more =>
          obtain ⟨rfl, hmore⟩ : text = some v ∧ namedTexts rest others = more.map some := by
            simpa using h
          change (name, value) ∈ (first, v) :: (rest.filterMap id).zip more at hentry
          rcases List.mem_cons.1 hentry with hentry | hentry
          · obtain ⟨rfl, rfl⟩ := Prod.mk.inj hentry
            exact List.mem_cons_self
          · exact List.mem_cons_of_mem _ (ih hmore hentry)

variable [DecidableEq κ]

/-- A name is bound to the one text that its groups have. -/
theorem get?_foldl_bind {pairs : List (Option κ × Option Text)} {entries : Entries κ Text}
    {name : κ} {text : Text} (hone : ∀ other, (some name, some other) ∈ pairs → other = text)
    (h : (some name, some text) ∈ pairs ∨ entries.get? name = some text) :
    (pairs.foldl bind entries).get? name = some text := by
  induction pairs generalizing entries with
  | nil => simpa using h
  | cons pair rest ih =>
    apply ih (fun other hother => hone other (List.mem_cons_of_mem _ hother))
    rcases pair with ⟨- | key, - | value⟩
    · simpa [bind] using h
    · simpa [bind] using h
    · simpa [bind] using h
    · rw [bind, Entries.get?_insert]
      split
      · next hname =>
        subst hname
        exact .inr (congrArg some (hone value List.mem_cons_self))
      · next hname => simpa [hname, eq_comm] using h

end Pattern

namespace Template

/-- The segments of a piece without its constraint. -/
def Piece.segments : Piece → List Segment
  | literal text => text.map .unit
  | placeholder p => [.hole p.name]

/-- The segments of a text that holds no opening brace are its units. -/
theorem segmentsFrom_literal {text : Text} (h : ('{' : CodeUnit) ∉ text) (rest : Text) :
    segmentsFrom .plain (text ++ rest) = text.map .unit ++ segmentsFrom .plain rest := by
  induction text with
  | nil => rfl
  | cons u more ih =>
    rw [List.mem_cons, not_or] at h
    rw [List.cons_append, segmentsFrom, segmentStep, plainSegment, if_neg (Ne.symm h.1)]
    exact congrArg (.unit u :: ·) (ih h.2)

/-- The units of a name lead to its closing brace. -/
theorem segmentsFrom_name {units more : Text} (h : more.all isNameUnit = true) (hne : units ≠ [])
    (rest : Text) :
    segmentsFrom (.name units) (more ++ ('}' :: rest : Text)) =
      .hole (units.reverse ++ more) :: segmentsFrom .plain rest := by
  induction more generalizing units with
  | nil =>
    have hclose : continuesName units '}' = false := by
      simp only [continuesName, if_neg hne]
      rfl
    simp [segmentsFrom, segmentStep, hclose, hne]
  | cons u more ih =>
    rw [List.all_cons, Bool.and_eq_true] at h
    have hu : continuesName units u = true := by rw [continuesName, if_neg hne, h.1]
    rw [List.cons_append, segmentsFrom, segmentStep, if_pos hu]
    simp [ih h.2 (List.cons_ne_nil u units)]

/-- The segments of a name between braces. -/
theorem segmentsFrom_placeholder {name : Text} (h : isName name = true) (rest : Text) :
    segmentsFrom .plain ((['{'] : Text) ++ name ++ (['}'] : Text) ++ rest) =
      .hole name :: segmentsFrom .plain rest := by
  cases name with
  | nil => simp [isName] at h
  | cons u more =>
    rw [isName, Bool.and_eq_true] at h
    have hfirst : continuesName [] u = true := h.1
    have hname := segmentsFrom_name h.2 (List.cons_ne_nil u []) rest
    simpa [segmentsFrom, segmentStep, plainSegment, hfirst] using hname

/-- The segments of a normalized template are those of its pieces. -/
theorem segments_normalized {pieces : List Piece}
    (hliteral : ∀ text, .literal text ∈ pieces → ('{' : CodeUnit) ∉ text)
    (hname : ∀ p, .placeholder p ∈ pieces → isName p.name = true) :
    segments (pieces.flatMap Piece.normalized) = pieces.flatMap Piece.segments := by
  induction pieces with
  | nil => rfl
  | cons piece rest ih =>
    have ih := ih (fun text htext => hliteral text (List.mem_cons_of_mem _ htext))
      (fun p hp => hname p (List.mem_cons_of_mem _ hp))
    rw [List.flatMap_cons, List.flatMap_cons, segments, ← ih]
    cases piece with
    | literal text => exact segmentsFrom_literal (hliteral text List.mem_cons_self) _
    | placeholder p => exact segmentsFrom_placeholder (hname p List.mem_cons_self) _

/-- A segment with the value of its name. -/
def Segment.filled (resolve : Text → Text) : Segment → Text
  | unit u => [u]
  | hole name => resolve name

/-- Resolving names without effects fills in every segment. -/
theorem run_resolveSegments (resolve : Text → Text) (segments : List Segment) :
    Id.run (resolveSegments (fun name => pure (resolve name)) segments) =
      segments.flatMap (Segment.filled resolve) := by
  induction segments with
  | nil => rfl
  | cons segment rest ih =>
    rw [List.flatMap_cons, ← ih]
    cases segment <;> rfl

/-- Generating fills the values of the names into the pieces. -/
theorem generate_eq {t : Template} (h : t.outline.Sound) (values : Entries Text (Option Text)) :
    t.generate values = t.outline.pieces.flatMap fun piece =>
      piece.segments.flatMap (Segment.filled (valueOrEmpty values)) := by
  rw [generate, substitute, normalized, Outline.normalized,
    segments_normalized (fun text htext => (h.literal text htext).2)
      (fun p hp => (h.placeholder p hp).name), run_resolveSegments, List.flatMap_assoc]

/-- Units that stand for themselves are filled in as they are. -/
theorem flatMap_filled_units (resolve : Text → Text) (text : Text) :
    (text.map Segment.unit).flatMap (Segment.filled resolve) = text := by
  simp [List.flatMap_map, Segment.filled]

/-- Filling the spelled values into the pieces spells the same text. -/
theorem Spells.filled_eq {accepts : Placeholder → Text → Prop} {pieces : List Piece}
    {values : List Text} {spelled : Text} {resolve : Text → Text}
    (h : Spells accepts pieces values spelled)
    (hvalues : ∀ entry ∈ (pieces.filterMap Piece.name?).zip values, resolve entry.1 = entry.2) :
    (pieces.flatMap fun piece => piece.segments.flatMap (Segment.filled resolve)) = spelled := by
  induction h with
  | nil => rfl
  | @literal text rest values spelled _ ih =>
    rw [List.flatMap_cons, Piece.segments, flatMap_filled_units, ih hvalues]
  | @placeholder p value rest values spelled _ _ ih =>
    have hvalues' : ∀ entry ∈ (p.name, value) :: (rest.filterMap Piece.name?).zip values,
        resolve entry.1 = entry.2 := hvalues
    rw [List.forall_mem_cons] at hvalues'
    rw [List.flatMap_cons, ih hvalues'.2]
    simp [Piece.segments, Segment.filled, hvalues'.1]

/-- The names of the groups are those of the placeholders. -/
theorem filterMap_groupNames (pieces : List Piece) :
    (pieces.flatMap Piece.groupNames).filterMap id = pieces.filterMap Piece.name? := by
  induction pieces with
  | nil => rfl
  | cons piece rest ih =>
    rw [List.flatMap_cons, List.filterMap_append, ih, List.filterMap_cons]
    cases piece <;> simp [Piece.groupNames, Piece.name?]

/-- A match of a template spells the text that is matched with the texts of its named groups; and if
placeholders of one name have the same text, generating from the values of the match gives the text
back. -/
theorem spells_and_generate_of_fill {text : Text} {t : Template} (h : parse text = .ok t)
    {uri : Text} {prior texts : List (Option Text)}
    (hmatch : t.fill uri (some (.groups prior)) = .ok (true, .groups texts)) :
    (texts.length = t.pattern.groupNames.length ∧
      ∃ values, Pattern.namedTexts t.pattern.groupNames texts = values.map some ∧
        Spells (fun _ _ => True) t.outline.pieces values uri) ∧
    (Pattern.Agree t.pattern.groupNames texts ∨ (t.outline.pieces.filterMap Piece.name?).Nodup →
      ∃ params, t.params? uri = some params ∧
        t.generate (params.map fun entry => (entry.1, some entry.2)) = uri) := by
  obtain ⟨-, names, terms, hcompiled⟩ := compiled_of_parse h
  have hgroups : t.pattern.groups? uri = some texts := by
    cases hg : t.pattern.groups? uri <;> simp [fill, Pattern.fill, hg] at hmatch
    rw [hmatch]
  obtain ⟨hlength, values, hvalues, hspells⟩ := spells_of_groups hcompiled hgroups
  refine ⟨⟨hlength, values, hvalues, hspells⟩, ?_⟩
  intro hagree
  have hagree : Pattern.Agree t.pattern.groupNames texts := by
    rcases hagree with hagree | hnodup
    · exact hagree
    · apply Pattern.agree_of_nodup texts
      rw [hcompiled.groupNames, Outline.groupNames, filterMap_groupNames]
      exact hnodup
  refine ⟨Pattern.bindAll t.pattern.groupNames texts, ?_, ?_⟩
  · rw [params?, Pattern.bindings?, hgroups, Option.map_some]
  · rw [generate_eq hcompiled.sound]
    apply hspells.filled_eq
    intro (name, value) hentry
    rw [← filterMap_groupNames, ← Outline.groupNames, ← hcompiled.groupNames] at hentry
    have hmem := Pattern.mem_zip_of_namedTexts hvalues hentry
    have hbound : (Pattern.bindAll t.pattern.groupNames texts).get? name = some value :=
      Pattern.get?_foldl_bind
        (fun other hother => Option.some.inj (hagree _ hother _ hmem rfl rfl)) (.inl hmem)
    rw [valueOrEmpty, Entries.get?_map, hbound]
    rfl

/-- A template with a repeated name, matched and generated again. -/
theorem generate_repeated :
    ∃ t params, parse "/\x7ba:\\d+\x7d/\x7bb\x7d/\x7ba\x7d" = .ok t ∧
      t.params? "/1/x/1" = some params ∧
      t.generate (params.map fun entry => (entry.1, some entry.2)) = "/1/x/1" := by
  have hparse : (parse "/\x7ba:\\d+\x7d/\x7bb\x7d/\x7ba\x7d").toOption.map
      (fun t => (t.pattern.groupNames, t.pattern.groups? "/1/x/1")) =
        some ([some ("a" : Text), some ("b" : Text), some ("a" : Text)],
          some [some ("1" : Text), some ("x" : Text), some ("1" : Text)]) := by
    decide +kernel
  cases h : parse "/\x7ba:\\d+\x7d/\x7bb\x7d/\x7ba\x7d" with
  | error e => simp [h, Except.toOption] at hparse
  | ok t =>
    obtain ⟨hnames, hgroups⟩ : t.pattern.groupNames = _ ∧ t.pattern.groups? "/1/x/1" = _ := by
      simpa [h, Except.toOption] using hparse
    have hmatch : t.fill "/1/x/1" (some (.groups [])) =
        .ok (true, .groups [some ("1" : Text), some ("x" : Text), some ("1" : Text)]) := by
      simp [fill, Pattern.fill, hgroups]
    obtain ⟨-, hgenerate⟩ := spells_and_generate_of_fill h hmatch
    obtain ⟨params, hparams, huri⟩ := hgenerate (.inl (by rw [hnames]; decide))
    exact ⟨t, params, rfl, hparams, huri⟩

end Template

end UriRouting
