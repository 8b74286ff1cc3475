import UriRouting.Proofs.Template.Groups
import UriRouting.Proofs.Template.Recovery

/-!
# The bindings of a match

Every placeholder takes part in a match, whatever its constraint is, so a match binds all names of a
template, in the order of their first occurrences, and each to what the group of its last occurrence has
captured (`fill_bindings`). The groups inside constraints contribute nothing, and nothing is left of what
the container held before.
-/

namespace UriRouting

namespace Pattern

section

variable {κ : Type} {groupNames : List (Option κ)} {texts others : List (Option Text)}

/-- If the named groups have texts, so has each of them. -/
theorem exists_text_of_namedTexts {values : List Text} {name : κ} {i : Nat}
    (h : namedTexts groupNames texts = values.map some)
    (hlength : texts.length = groupNames.length) (hname : groupNames[i]? = some (some name)) :
    ∃ value, texts[i]? = some (some value) := by
  have hi : i < texts.length := hlength ▸ (List.getElem?_eq_some_iff.1 hname).1
  have hpair : (some name, texts[i]) ∈ groupNames.zip texts :=
    List.mem_iff_getElem?.2
      ⟨i, List.getElem?_zip_eq_some.2 ⟨hname, List.getElem?_eq_getElem hi⟩⟩
  have hmem : texts[i] ∈ namedTexts groupNames texts :=
    List.mem_map.2 ⟨_, List.mem_filter.2 ⟨hpair, rfl⟩, rfl⟩
  rw [h, List.mem_map] at hmem
  obtain ⟨value, -, hvalue⟩ := hmem
  exact ⟨value, by rw [List.getElem?_eq_getElem hi, hvalue]⟩

variable [DecidableEq κ]

/-- A name is bound to the text of its last group. -/
theorem get?_bindAll_of_last {before after : List (Option κ)} {name : κ} {value : Text}
    (htext : texts[before.length]? = some (some value)) (hlast : some name ∉ after) :
    (bindAll (before ++ some name :: after) texts).get? name = some value := by
  obtain ⟨hlt, hget⟩ := List.getElem?_eq_some_iff.1 htext
  have hsplit : texts = texts.take before.length ++ some value :: texts.drop (before.length + 1) := by
    rw [← hget, ← List.drop_eq_getElem_cons hlt, List.take_append_drop]
  have hzip : (before ++ some name :: after).zip texts =
      before.zip (texts.take before.length) ++
        (some name, some value) :: after.zip (texts.drop (before.length + 1)) := by
    conv_lhs => rw [hsplit]
    rw [List.zip_append (List.length_take_of_le (Nat.le_of_lt hlt)).symm, List.zip_cons_cons]
  rw [bindAll, hzip, List.foldl_append, List.foldl_cons]
  apply get?_foldl_bind
  · intro other hother
    exact absurd (List.of_mem_zip hother).1 hlast
  · rw [bind, Entries.get?_insert, if_pos rfl]
    exact .inr rfl

/-- The texts of groups without a name have no part in the bindings. -/
theorem foldl_bind_congr (hlength : others.length = texts.length)
    (h : ∀ (i : Nat) (name : κ), groupNames[i]? = some (some name) → others[i]? = texts[i]?)
    (entries : Entries κ Text) :
    (groupNames.zip others).foldl bind entries = (groupNames.zip texts).foldl bind entries := by
  induction groupNames generalizing others texts entries with
  | nil => rfl
  | cons group rest ih =>
    cases others with
    | nil =>
      obtain rfl := List.length_eq_zero_iff.1 hlength.symm
      rfl
    | cons other others =>
      cases texts with
      | nil => cases hlength
      | cons text texts =>
        have hrest := ih (Nat.succ.inj hlength) fun i name hname => h (i + 1) name hname
        cases group with
        | none => exact hrest entries
        | some name =>
          obtain rfl : other = text := Option.some.inj (h 0 name rfl)
          exact hrest (bind entries (some name, other))

end

end Pattern

namespace Template

/-- The bindings of a match with the given texts of the groups, one for each: the names are those of the
placeholders, and each is bound to what the group around the constraint of its last placeholder has
captured. They are the fold of the texts over the names of the groups, and do not depend on the groups
without a name. -/
structure Binds (t : Template) (texts : List (Option Text)) (entries : Entries Text Text) : Prop where
  length : texts.length = t.pattern.groupNames.length
  fold : entries = (t.pattern.groupNames.zip texts).foldl Pattern.bind []
  names : entries.names = t.placeholders
  last : ∀ before p after, t.outline.pieces = before ++ .placeholder p :: after →
    p.name ∉ after.filterMap Piece.name? →
      ∃ (i : Nat) (body : Regex.Node) (value : Text), Wraps t (i + 1) before p after body ∧
        texts[i]? = some (some value) ∧ entries.get? p.name = some value
  unnamed : ∀ others : List (Option Text), others.length = texts.length →
    (∀ (i : Nat) (name : Text), t.pattern.groupNames[i]? = some (some name) → others[i]? = texts[i]?) →
      Pattern.bindAll t.pattern.groupNames others = entries

/-- A match binds what its groups have captured. -/
theorem binds_of_groups {t : Template} {names : List (Option (List Char))} {terms : List Regex.Node}
    (h : Compiled t names terms) {uri : Text} {texts : List (Option Text)}
    (hmatch : t.pattern.groups? uri = some texts) :
    Binds t texts (Pattern.bindAll t.pattern.groupNames texts) := by
  obtain ⟨hlength, values, hvalues, hspells⟩ := spells_of_groups h hmatch
  refine ⟨hlength, rfl, ?_, ?_, fun others hothers hagree =>
    Pattern.foldl_bind_congr hothers hagree []⟩
  · rw [Pattern.bindAll_eq_ofPairs hvalues, Entries.names_ofPairs, h.groupNames, Outline.groupNames,
      filterMap_groupNames, List.map_fst_zip (Nat.le_of_eq hspells.length_values)]
    rfl
  · intro before p after hpieces hlast
    have hnames : t.pattern.groupNames = before.flatMap Piece.groupNames ++ some p.name ::
        (List.replicate p.groupCount none ++ after.flatMap Piece.groupNames) := by
      rw [h.groupNames, Outline.groupNames, hpieces, List.flatMap_append, List.flatMap_cons,
        Piece.groupNames, List.cons_append]
    have hname : t.pattern.groupNames[(before.flatMap Piece.groupNames).length]? =
        some (some p.name) := by
      rw [h.groupNames, Outline.groupNames, hpieces]
      exact getElem?_groupNames_placeholder before after p 0 (Nat.zero_le _)
    have hbehind : some p.name ∉
        List.replicate p.groupCount none ++ after.flatMap Piece.groupNames := by
      intro hmem
      rcases List.mem_append.1 hmem with hmem | hmem
      · cases List.eq_of_mem_replicate hmem
      · apply hlast
        rw [← filterMap_groupNames]
        exact List.mem_filterMap.2 ⟨_, hmem, rfl⟩
    obtain ⟨body, hwraps⟩ := exists_wraps h hpieces
    obtain ⟨value, hvalue⟩ := Pattern.exists_text_of_namedTexts hvalues hlength hname
    refine ⟨_, body, value, hwraps, hvalue, ?_⟩
    rw [hnames]
    exact Pattern.get?_bindAll_of_last hvalue hbehind

/-- A match into bindings drops what they held. If the text does not match they are empty then, and else
they are the bindings of the texts that a match into a list gives. -/
theorem fill_bindings {text : Text} {t : Template} (h : parse text = .ok t) (uri : Text)
    (prior : Entries Text Text) (priorTexts : List (Option Text)) :
    (¬ t.Matches uri → t.fill uri (some (.bindings prior)) = .ok (false, .bindings [])) ∧
      (t.Matches uri → ∃ texts entries,
        t.fill uri (some (.groups priorTexts)) = .ok (true, .groups texts) ∧
          t.fill uri (some (.bindings prior)) = .ok (true, .bindings entries) ∧
          Binds t texts entries) := by
  obtain ⟨-, names, terms, hcompiled⟩ := compiled_of_parse h
  rw [matches_iff]
  constructor
  · intro hfails
    rw [Option.not_isSome_iff_eq_none] at hfails
    rw [fill, Pattern.fill, Pattern.bindings?, hfails]
    rfl
  · intro hmatches
    obtain ⟨texts, htexts⟩ := Option.isSome_iff_exists.1 hmatches
    refine ⟨texts, _, fill_groups_iff.2 htexts, ?_, binds_of_groups hcompiled htexts⟩
    rw [fill, Pattern.fill, Pattern.bindings?, htexts]
    rfl

/-- A repeated name, whose first constraint has a group that could stand for the other name. -/
theorem fill_bindings_repeated :
    ∃ t texts entries, parse "/\x7ba:(\\d)+\x7d/\x7bb\x7d/\x7ba\x7d" = .ok t ∧
      t.fill "/12/x" (some (.bindings [(↑"b", ↑"old")])) = .ok (false, .bindings []) ∧
      t.fill "/12/x/y" (some (.bindings [(↑"b", ↑"old")])) = .ok (true, .bindings entries) ∧
      texts = [some ↑"12", some ↑"2", some ↑"x", some ↑"y"] ∧
      entries = [(↑"a", ↑"y"), (↑"b", ↑"x")] ∧ Binds t texts entries := by
  have hparse : (parse "/\x7ba:(\\d)+\x7d/\x7bb\x7d/\x7ba\x7d").toOption.map
      (fun t => (t.pattern.groupNames, t.pattern.groups? "/12/x/y")) =
        some ([some ("a" : Text), none, some ("b" : Text), some ("a" : Text)],
          some [some ("12" : Text), some ("2" : Text), some ("x" : Text), some ("y" : Text)]) := by
    decide +kernel
  have hshort : (parse "/\x7ba:(\\d)+\x7d/\x7bb\x7d/\x7ba\x7d").toOption.map
      (fun t => t.pattern.groups? "/12/x") = some none := by
    decide +kernel
  cases h : parse "/\x7ba:(\\d)+\x7d/\x7bb\x7d/\x7ba\x7d" with
  | error e => simp [h, Except.toOption] at hparse
  | ok t =>
    obtain ⟨hnames, hgroups⟩ : t.pattern.groupNames = _ ∧ t.pattern.groups? "/12/x/y" = _ := by
      simpa [h, Except.toOption] using hparse
    have hfails : t.pattern.groups? "/12/x" = none := by
      simpa [h, Except.toOption] using hshort
    have hunmatched := (fill_bindings h "/12/x" [(↑"b", ↑"old")] []).1
      (by rw [matches_iff, hfails]; exact Bool.false_ne_true)
    obtain ⟨texts, entries, hfill, hentries, hbinds⟩ :=
      (fill_bindings h "/12/x/y" [(↑"b", ↑"old")] []).2 (by rw [matches_iff, hgroups]; rfl)
    obtain rfl := Option.some.inj ((fill_groups_iff.1 hfill).symm.trans hgroups)
    refine ⟨t, _, entries, rfl, hunmatched, hentries, rfl, ?_, hbinds⟩
    rw [hbinds.fold, hnames]
    decide +kernel

end Template

end UriRouting
