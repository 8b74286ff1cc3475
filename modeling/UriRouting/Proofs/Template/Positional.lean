import UriRouting.Proofs.Template.Filling
import UriRouting.Proofs.Template.FirstOccurrence

/-!
# Generating from a list and from names

Filling in a list binds each distinct name to the next value when it is first met. So it agrees with
filling in by name, except that a missing value is used up without being kept: a name that has met one
asks again at its next occurrence, and takes a value that belongs to another name. `generateFrom_eq_iff`
says that this is the only difference. `Supplied` is what the supply holds while no name has taken a
second value: a step keeps it if a name comes up in time (`Supplied.take_of_mem`,
`Supplied.take_of_not_mem`), and so does a run (`supplied_behind`).
-/

namespace UriRouting

namespace Template

/-- Names with their values in a list; a name without a value is not bound. -/
def bindingsOf (names : List Text) (values : List (Option Text)) : Entries Text (Option Text) :=
  (names.zip values).filter fun entry => entry.2.isSome

/-- A name that is not there is not bound. -/
theorem get?_bindingsOf_of_not_mem {names : List Text} {name : Text} (h : name ∉ names)
    (values : List (Option Text)) : (bindingsOf names values).get? name = none := by
  induction names generalizing values with
  | nil => rfl
  | cons first rest ih =>
    rw [List.mem_cons, not_or] at h
    cases values with
    | nil => rfl
    | cons value more =>
      have hrest := ih h.2 more
      cases value with
      | none => exact hrest
      | some text => exact (if_neg (Ne.symm h.1)).trans hrest

/-- The value of a name is the one at its place. -/
theorem get?_bindingsOf {names : List Text} (hnodup : names.Nodup) {name : Text} (h : name ∈ names)
    (values : List (Option Text)) :
    ((bindingsOf names values).get? name).join = (values[names.idxOf name]?).join := by
  induction names generalizing values with
  | nil => cases h
  | cons first rest ih =>
    rw [List.nodup_cons] at hnodup
    cases values with
    | nil => rfl
    | cons value more =>
      by_cases hname : first = name
      · subst hname
        rw [List.idxOf_cons_self]
        cases value with
        | none =>
          change ((bindingsOf rest more).get? first).join = none
          rw [get?_bindingsOf_of_not_mem hnodup.1 more]
          rfl
        | some text => exact congrArg Option.join (if_pos rfl)
      · have hrest := ih hnodup.2 ((List.mem_cons.1 h).resolve_left (Ne.symm hname)) more
        rw [List.idxOf_cons_ne _ hname, List.getElem?_cons_succ, ← hrest]
        cases value with
        | none => rfl
        | some text => exact congrArg Option.join (if_neg hname)

/-- The value that a list has for a name: the one at its place among the distinct names. -/
def ownValue (values : List (Option Text)) (all : List Text) (name : Text) : Option Text :=
  (values[all.eraseDups.idxOf name]?).join

/-- The value that a name is bound to among the distinct names is its own. -/
theorem valueOrEmpty_bindingsOf {all : List Text} {name : Text} (h : name ∈ all)
    (values : List (Option Text)) :
    valueOrEmpty (bindingsOf all.eraseDups values) name = (ownValue values all name).getD [] := by
  rw [valueOrEmpty, get?_bindingsOf (nodup_eraseDups all) (List.mem_eraseDups.2 h), ownValue]

section

variable {all names : List Text} {name : Text}

/-- What follows does not change the value of a name. -/
theorem ownValue_of_mem (hall : names <+: all) (h : name ∈ names) (values : List (Option Text)) :
    ownValue values all name = (values[names.eraseDups.idxOf name]?).join := by
  obtain ⟨more, rfl⟩ := hall
  rw [ownValue, idxOf_eraseDups_of_mem h]

/-- A new name has the next value. -/
theorem ownValue_of_not_mem (hall : names ++ [name] <+: all) (h : name ∉ names)
    (values : List (Option Text)) :
    ownValue values all name = (values[names.eraseDups.length]?).join := by
  obtain ⟨more, rfl⟩ := hall
  rw [ownValue, List.append_assoc, List.singleton_append, idxOf_eraseDups_of_not_mem h]

end

/-- Whether a name that has met a missing value comes up again only when no values are left: there are
no more values than distinct names before it. -/
def InTime (values : List (Option Text)) (before : List Text) (name : Text) : Prop :=
  name ∈ before → values[before.eraseDups.idxOf name]? = some none →
    values.length ≤ before.eraseDups.length

instance (values : List (Option Text)) (before : List Text) (name : Text) :
    Decidable (InTime values before name) :=
  decidable_of_iff (before.contains name = true →
    values[before.eraseDups.idxOf name]? = some none → values.length ≤ before.eraseDups.length)
    (by rw [List.contains_iff_mem, InTime])

/-- Whether each of some names is as it should be behind the names before it. -/
def AtEach (good : List Text → Text → Prop) (names : List Text) : Prop :=
  ∀ i (hi : i < names.length), good (names.take i) names[i]

instance (good : List Text → Text → Prop) [∀ before name, Decidable (good before name)]
    (names : List Text) : Decidable (AtEach good names) := by
  unfold AtEach
  infer_instance

/-- One more name stands behind all others. -/
theorem atEach_concat {good : List Text → Text → Prop} {names : List Text} {name : Text} :
    AtEach good (names ++ [name]) ↔ AtEach good names ∧ good names name := by
  constructor
  · intro h
    constructor
    · intro i hi
      have := h i (List.length_append ▸ Nat.lt_add_right 1 hi)
      rwa [List.take_append_of_le_length (Nat.le_of_lt hi), List.getElem_append_left hi] at this
    · have := h names.length (by simp)
      simpa using this
  · rintro ⟨hall, hlast⟩ i hi
    by_cases hlt : i < names.length
    · rw [List.take_append_of_le_length (Nat.le_of_lt hlt), List.getElem_append_left hlt]
      exact hall i hlt
    · obtain rfl : i = names.length := by
        rw [List.length_append, List.length_singleton] at hi
        omega
      simpa using hlast

namespace Supply

/-- The supply behind some names. -/
def behind (names : List Text) (s : Supply) : Supply :=
  names.foldl (fun s name => (take name s).2) s

/-- The supply behind one more name. -/
theorem behind_concat (names : List Text) (name : Text) (s : Supply) :
    behind (names ++ [name]) s = (take name (behind names s)).2 := by
  rw [behind, List.foldl_append]
  rfl

/-- What a list of names takes, if the answer for each of them depends on the name alone. -/
theorem mapM_take {value : Text → Text} {names : List Text} {s : Supply}
    (h : ∀ i (hi : i < names.length),
      (take names[i] (behind (names.take i) s)).1 = value names[i]) :
    ((names.mapM take).run s).1 = names.map value := by
  induction names generalizing s with
  | nil => rfl
  | cons name rest ih =>
    have hfirst : (take name s).1 = value name := h 0 (Nat.zero_lt_succ _)
    have hrest := ih (s := (take name s).2) fun i hi => h (i + 1) (Nat.succ_lt_succ hi)
    rw [List.mapM_cons, List.map_cons, ← hfirst, ← hrest]
    rfl

/-- What a supply holds when each distinct one of some names has taken one value. -/
def Supplied (values : List (Option Text)) (all names : List Text) (s : Supply) : Prop :=
  Taken (ownValue values all) values names s.assigned s.remaining

section

variable {values : List (Option Text)} {all names : List Text} {name : Text} {s : Supply}

/-- A name that comes up again takes nothing, if it does so in time. -/
theorem Supplied.take_of_mem (h : Supplied values all names s) (hall : names <+: all)
    (hmem : name ∈ names) (htime : InTime values names name) :
    take name s = ((ownValue values all name).getD [], s) := by
  rw [take, h.bound name hmem]
  cases hvalue : ownValue values all name with
  | some text => rfl
  | none =>
    have hlength : values.length ≤ names.eraseDups.length := by
      rw [ownValue_of_mem hall hmem] at hvalue
      cases hget : values[names.eraseDups.idxOf name]? with
      | none =>
        have hplace := List.idxOf_lt_length_of_mem (List.mem_eraseDups.2 hmem)
        exact Nat.le_of_lt (Nat.lt_of_le_of_lt (List.getElem?_eq_none_iff.1 hget) hplace)
      | some value =>
        rw [hget] at hvalue
        exact htime hmem (hget.trans (congrArg some hvalue))
    rw [h.remaining, List.drop_eq_nil_of_le hlength]
    rfl

/-- A name that has met a missing value takes another one, unless there are none left. -/
theorem Supplied.inTime_of_remaining_eq (h : Supplied values all names s) (hall : names <+: all)
    (heq : (take name s).2.remaining = s.remaining) : InTime values names name := by
  intro hmem hmissing
  have hassigned : s.assigned.get? name = none := by
    rw [h.bound name hmem, ownValue_of_mem hall hmem, hmissing]
    rfl
  cases hcase : s.remaining with
  | nil => exact List.drop_eq_nil_iff.1 (h.remaining.symm.trans hcase)
  | cons value rest =>
    have hrest : (take name s).2.remaining = rest := by
      rw [take, hassigned, hcase]
      cases value <;> rfl
    rw [hrest, hcase] at heq
    exact absurd heq.symm (List.cons_ne_self _ _)

/-- A new name takes the next value. -/
theorem Supplied.take_of_not_mem (h : Supplied values all names s) (hall : names ++ [name] <+: all)
    (hmem : name ∉ names) :
    (take name s).1 = (ownValue values all name).getD [] ∧
      Supplied values all (names ++ [name]) (take name s).2 := by
  have hunbound := h.unbound name hmem
  have hvalue : ownValue values all name = s.remaining.head?.join := by
    rw [ownValue_of_not_mem hall hmem, h.remaining, List.head?_drop]
  have hmissing (hnone : s.remaining.head?.join = none) (other : Text) :
      s.assigned.get? other = if other = name then ownValue values all name else s.assigned.get? other := by
    split
    · next heq => rw [heq, hunbound, hvalue, hnone]
    · rfl
  rw [hvalue, take, hunbound]
  obtain ⟨assigned, remaining⟩ := s
  cases remaining with
  | nil => exact ⟨rfl, h.concat_of_not_mem hmem (hmissing rfl)⟩
  | cons value rest =>
    cases value with
    | none => exact ⟨rfl, h.concat_of_not_mem hmem (hmissing rfl)⟩
    | some text =>
      refine ⟨rfl, h.concat_of_not_mem hmem fun other => ?_⟩
      rw [hvalue]
      exact Entries.get?_insert name other text assigned

/-- What a supply holds behind names that have come up in time. -/
theorem supplied_behind (hall : names <+: all) (h : AtEach (InTime values) names) :
    Supplied values all names (behind names ⟨[], values⟩) := by
  induction names using List.reverseRecOn with
  | nil => exact Taken.nil _ values
  | append_singleton names name ih =>
    have hprefix := (List.prefix_append names [name]).trans hall
    obtain ⟨hnames, hname⟩ := atEach_concat.1 h
    have hbehind := ih hprefix hnames
    rw [behind_concat]
    by_cases hmem : name ∈ names
    · rw [hbehind.take_of_mem hprefix hmem hname]
      exact hbehind.concat_of_mem hmem
    · exact (hbehind.take_of_not_mem hall hmem).2

end

/-- Whether a name takes the value that it is bound to from a list behind some names, and takes none if
it is one of them. -/
structure TakesOwn (bindings : Entries Text (Option Text)) (values : List (Option Text))
    (before : List Text) (name : Text) : Prop where
  value : (take name (behind before ⟨[], values⟩)).1 = valueOrEmpty bindings name
  once : name ∈ before →
    (take name (behind before ⟨[], values⟩)).2.remaining = (behind before ⟨[], values⟩).remaining

/-- Names take their own values, and take them once, just if they come up in time. -/
theorem atEach_takesOwn_iff {bindings : Entries Text (Option Text)} {values : List (Option Text)}
    {all names : List Text} (hall : names <+: all)
    (hown : ∀ name ∈ all, valueOrEmpty bindings name = (ownValue values all name).getD []) :
    AtEach (TakesOwn bindings values) names ↔ AtEach (InTime values) names := by
  induction names using List.reverseRecOn with
  | nil => simp [AtEach]
  | append_singleton names name ih =>
    have hprefix := (List.prefix_append names [name]).trans hall
    have hname := hown name (hall.subset (List.mem_append_right _ (List.mem_singleton.2 rfl)))
    rw [atEach_concat, atEach_concat, ih hprefix]
    refine and_congr_right fun htime => ?_
    -- Behind names that have come up in time the supply is known, and so is what the next one does.
    have hbehind := supplied_behind hprefix htime
    constructor
    · intro htakes hmem
      exact hbehind.inTime_of_remaining_eq hprefix (htakes.once hmem) hmem
    · intro hlast
      by_cases hmem : name ∈ names
      · have htake := hbehind.take_of_mem hprefix hmem hlast
        exact ⟨by rw [htake, hname], fun _ => by rw [htake]⟩
      · have htake := hbehind.take_of_not_mem hall hmem
        exact ⟨htake.1.trans hname.symm, fun h => absurd h hmem⟩

end Supply

/-- Filling in a range of a list is filling in by name what the distinct names are bound to, and each
occurrence of a name takes its own value and a repeated one nothing more, just if no name that has met a
missing value comes up again while there are values left. -/
theorem generateFrom_eq_iff {text : Text} {t : Template} (h : parse text = .ok t)
    {values : List (Option Text)} {offset length : Number} {first count : Nat}
    (hfirst : offset.toNat? = some first) (hcount : length.toNat? = some count)
    (hrange : first + count ≤ values.length) :
    let supplied := (values.drop first).take count
    let bindings := bindingsOf t.placeholders supplied
    let occurrences := t.outline.pieces.filterMap Piece.name?
    (t.generateFrom values offset (some length) = .ok (t.generate bindings) ∧
        AtEach (Supply.TakesOwn bindings supplied) occurrences) ↔
      AtEach (InTime supplied) occurrences := by
  intro supplied bindings occurrences
  obtain ⟨-, names, terms, hcompiled⟩ := compiled_of_parse h
  have hgenerateFrom : t.generateFrom values offset (some length) = .ok (t.generateList supplied) := by
    rw [generateFrom, Option.getD_some, rangeOf?, hfirst, hcount]
    simp only [if_pos hrange, supplied]
  have hown (name : Text) (hname : name ∈ occurrences) :
      valueOrEmpty bindings name = (ownValue supplied occurrences name).getD [] :=
    valueOrEmpty_bindingsOf hname supplied
  have htakes := Supply.atEach_takesOwn_iff List.prefix_rfl hown
  rw [htakes, hgenerateFrom, and_iff_right_iff_imp]
  intro htime
  rw [generateList, normalized, substitute_eq hcompiled.sound, generate_eq_fillPieces hcompiled.sound]
  have hmapM := Supply.mapM_take fun i hi => (htakes.2 htime i hi).value
  exact congrArg (fun texts => Except.ok (fillPieces t.outline.pieces texts)) hmapM

/-- A repeated name with a value, in a range inside a list. -/
theorem generateFrom_eq_repeated :
    ∃ t, parse "/\x7ba\x7d/\x7bb\x7d/\x7ba\x7d" = .ok t ∧
      t.generateFrom [some ↑"z", some ↑"1", none, some ↑"3"] (.ofInt 1) (some (.ofInt 2)) =
        .ok (t.generate [(↑"a", some ↑"1")]) := by
  have hparse : (parse "/\x7ba\x7d/\x7bb\x7d/\x7ba\x7d").toOption.map (fun t => t.outline.pieces) =
      some [.literal "/", .placeholder ⟨"a", none, 0⟩, .literal "/", .placeholder ⟨"b", none, 0⟩,
        .literal "/", .placeholder ⟨"a", none, 0⟩] := by
    decide +kernel
  cases h : parse "/\x7ba\x7d/\x7bb\x7d/\x7ba\x7d" with
  | error e => simp [h, Except.toOption] at hparse
  | ok t =>
    rw [h] at hparse
    have hpieces := Option.some.inj (show some t.outline.pieces = some _ from hparse)
    have hnames : t.placeholders = [↑"a", ↑"b"] := by
      rw [placeholders, Outline.names, hpieces]
      decide
    have hiff := @generateFrom_eq_iff _ t h [some ↑"z", some ↑"1", none, some ↑"3"] (.ofInt 1)
      (.ofInt 2) 1 2 (by decide +kernel) (by decide +kernel) (by decide)
    rw [hnames, hpieces] at hiff
    exact ⟨t, rfl, (hiff.2 (by decide)).1⟩

/-- A name whose first value is missing takes the one behind the others where it comes up again. -/
theorem generateFrom_asks_again :
    ∃ t, parse "/\x7ba\x7d/\x7bb\x7d/\x7ba\x7d" = .ok t ∧
      t.generateFrom [none, some ↑"2", some ↑"3"] (.ofInt 0) (some (.ofInt 3)) = .ok ↑"//2/3" ∧
      t.generate (bindingsOf t.placeholders [none, some ↑"2", some ↑"3"]) = "//2/" := by
  have htexts : (parse "/\x7ba\x7d/\x7bb\x7d/\x7ba\x7d").toOption.map (fun t =>
      ((t.generateFrom [none, some ↑"2", some ↑"3"] (.ofInt 0) (some (.ofInt 3))).toOption,
        t.generate (bindingsOf t.placeholders [none, some ↑"2", some ↑"3"]))) =
      some (some ↑"//2/3", ↑"//2/") := by
    decide +kernel
  cases h : parse "/\x7ba\x7d/\x7bb\x7d/\x7ba\x7d" with
  | error e => simp [h, Except.toOption] at htexts
  | ok t =>
    rw [h] at htexts
    obtain ⟨hfrom, hnamed⟩ := Prod.mk.inj (Option.some.inj htexts)
    refine ⟨t, rfl, ?_, hnamed⟩
    cases hgenerate : t.generateFrom [none, some ↑"2", some ↑"3"] (.ofInt 0) (some (.ofInt 3)) with
    | error e => simp [hgenerate, Except.toOption] at hfrom
    | ok generated =>
      rw [hgenerate] at hfrom
      exact congrArg Except.ok (Option.some.inj hfrom)

end Template

end UriRouting
