import UriRouting.Proofs.Regex.Ways

/-!
# What a pattern matches

A pattern is compiled with its source in a group between the anchors. A source that closes a group
which it did not open ends that group early: it may compile there although it is no expression by
itself, and then the anchors hold for parts of it only. These are the only sources with which a
pattern matches anything but what its source matches from the start of a candidate to its end
(`matches_whole_iff`).
-/

namespace UriRouting

namespace Regex

/-- Whether a source is an expression by itself that can be matched from the start of a text to its
end. -/
def MatchesWhole (source text : Text) : Prop :=
  ∃ r, ofSource? source = some r ∧
    ∃ way ∈ r.root.ways .forward (Cursor.start text r.groupCount), way.after = []

/-- An anchored expression matches a text if some way leads from the start of the text to its end. -/
theorem isSome_exec?_anchored_iff (r : Regex) (text : Text) :
    (exec? ⟨r.root.anchored, r.groupCount⟩ text).isSome ↔
      ∃ way ∈ r.root.ways .forward (Cursor.start text r.groupCount), way.after = [] := by
  rw [exec?_anchored, Option.isSome_map, List.find?_isSome]
  simp only [List.isEmpty_iff]

end Regex

namespace Pattern

open Regex (MatchesWhole)
open Template (closesUnopened)

variable {κ : Type} {source : Text} {groupNames : List (Option κ)} {p : Pattern κ}

/-- The expression of a pattern is its source between the anchors. -/
theorem ofSource?_of_compile (h : compile source groupNames = .ok p) :
    Regex.ofSource? (anchored source) = some p.regex := by
  rw [compile] at h
  split at h
  · next regex hregex =>
    obtain rfl := Except.ok.inj h
    exact hregex
  · cases h

/-- Of the sources that compile between the anchors, those that are expressions by themselves are the
ones that close no group which they did not open. -/
theorem isSome_ofSource_iff (h : compile source groupNames = .ok p) :
    (Regex.ofSource? source).isSome ↔ closesUnopened 0 false source = false := by
  constructor
  · intro hsource
    obtain ⟨r, hr⟩ := Option.isSome_iff_exists.1 hsource
    exact Regex.closesUnopened_of_ofSource hr
  · intro hunopened
    have hregex := ofSource?_of_compile h
    rw [Regex.ofSource?_anchored_eq hunopened] at hregex
    obtain ⟨r, hr, -⟩ := Option.map_eq_some_iff.1 hregex
    exact Option.isSome_of_mem hr

variable [DecidableEq κ]

/-- Whether a candidate matches a pattern, as the pattern answers it for every container. -/
def Matches (p : Pattern κ) (candidate : Text) : Prop :=
  ∀ container, (p.fill candidate container).1 = true

/-- A candidate matches a pattern if its groups have texts, whatever the container is. -/
theorem matches_iff_isSome (p : Pattern κ) (candidate : Text) :
    p.Matches candidate ↔ (p.groups? candidate).isSome := by
  constructor
  · intro h
    exact h (.groups [])
  · intro h container
    cases container with
    | bindings entries => simpa [fill, bindings?] using h
    | groups texts => exact h

/-- A pattern whose source is an expression by itself matches the candidates which the source matches
from their start to their end. -/
theorem matches_iff_matchesWhole (h : compile source groupNames = .ok p)
    (hsource : (Regex.ofSource? source).isSome) (candidate : Text) :
    p.Matches candidate ↔ MatchesWhole source candidate := by
  obtain ⟨r, hr⟩ := Option.isSome_iff_exists.1 hsource
  have hregex : p.regex = ⟨r.root.anchored, r.groupCount⟩ :=
    Option.some.inj ((ofSource?_of_compile h).symm.trans (Regex.ofSource?_anchored hr))
  rw [matches_iff_isSome, groups?, hregex, Regex.isSome_exec?_anchored_iff, MatchesWhole]
  simp only [hr, Option.some.injEq, exists_eq_left']

/-- The sources of patterns are expressions by themselves unless they close a group which they did not
open. A pattern matches exactly what its source matches by itself from the start of a candidate to its
end, for exactly the candidates which it does not match and, if its source closes no group that it did
not open, for all. -/
theorem matches_whole_iff (h : compile source groupNames = .ok p) :
    ((Regex.ofSource? source).isSome ↔ closesUnopened 0 false source = false) ∧
      ∀ candidate, (p.Matches candidate ↔ MatchesWhole source candidate) ↔
        closesUnopened 0 false source = false ∨ ¬ p.Matches candidate := by
  have hvalid := isSome_ofSource_iff h
  refine ⟨hvalid, ?_⟩
  intro candidate
  by_cases hsource : (Regex.ofSource? source).isSome
  · exact iff_of_true (matches_iff_matchesWhole h hsource candidate) (.inl (hvalid.1 hsource))
  · have hwhole : ¬ MatchesWhole source candidate := by
      intro hwhole
      obtain ⟨r, hr, -⟩ := hwhole
      exact hsource (Option.isSome_of_mem hr)
    have hleaks : closesUnopened 0 false source = true := by simpa using mt hvalid.2 hsource
    simp only [hwhole, hleaks, iff_false, Bool.true_eq_false, false_or]

/-- Of two alternatives the first matches a part of the candidate only, so the search goes on to the
second. -/
theorem matches_whole_alternatives :
    ∃ p : Pattern Text, compile "a|a(b)" [none] = .ok p ∧ p.Matches "ab" ∧
      MatchesWhole "a|a(b)" "ab" ∧ ¬ p.Matches "abc" ∧ ¬ MatchesWhole "a|a(b)" "abc" := by
  have hcompile : (compile (κ := Text) "a|a(b)" [none]).toOption.map
      (fun p => ((p.groups? "ab").isSome, (p.groups? "abc").isSome)) = some (true, false) := by
    decide +kernel
  have hunopened : closesUnopened 0 false "a|a(b)" = false := by decide +kernel
  cases h : compile (κ := Text) "a|a(b)" [none] with
  | error e => simp [h, Except.toOption] at hcompile
  | ok p =>
    obtain ⟨hab, habc⟩ : (p.groups? "ab").isSome = true ∧ (p.groups? "abc").isSome = false := by
      simpa [h, Except.toOption] using hcompile
    have hwhole (candidate : Text) : p.Matches candidate ↔ MatchesWhole "a|a(b)" candidate :=
      ((matches_whole_iff h).2 candidate).2 (.inl hunopened)
    have hmatches : p.Matches "ab" := (p.matches_iff_isSome _).2 hab
    have hfails : ¬ p.Matches "abc" := by simp [matches_iff_isSome, habc]
    exact ⟨p, rfl, hmatches, (hwhole _).1 hmatches, hfails, fun h => hfails ((hwhole _).2 h)⟩

/-- A source that closes the group around it and opens another one: the pattern matches a candidate
of which it has matched the first unit, as its first anchor holds for one alternative and its last for
the other. -/
theorem matches_front_of_leak :
    ∃ p : Pattern Text, compile "a)|(?:b" [] = .ok p ∧ p.Matches "axx" ∧
      ¬ MatchesWhole "a)|(?:b" "axx" := by
  have hcompile : (compile (κ := Text) "a)|(?:b" []).toOption.map
      (fun p => (p.groups? "axx").isSome) = some true := by
    decide +kernel
  have hsource : Regex.ofSource? "a)|(?:b" = none := by decide +kernel
  cases h : compile (κ := Text) "a)|(?:b" [] with
  | error e => simp [h, Except.toOption] at hcompile
  | ok p =>
    have hmatches : (p.groups? "axx").isSome := by simpa [h, Except.toOption] using hcompile
    refine ⟨p, rfl, (p.matches_iff_isSome _).2 hmatches, ?_⟩
    intro hwhole
    obtain ⟨r, hr, -⟩ := hwhole
    rw [hsource] at hr
    cases hr

end Pattern

end UriRouting
