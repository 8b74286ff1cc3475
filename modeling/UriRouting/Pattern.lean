import UriRouting.Entries
import UriRouting.Regex.Reader
import UriRouting.Regex.Matching
import UriRouting.Text.Hash
import UriRouting.Template.Error

/-!
# Compiled patterns

A pattern is an expression that matches whole candidates, with the placeholder name of each of its
capturing groups. `Pattern.groups?` gives the text of every group, and `Pattern.bindings?` the text
of every name; where a name has several groups, the last one that took part decides.
-/

namespace UriRouting

/-- An anchored expression and the name of each of its groups, if it has one. -/
structure Pattern (κ : Type) where
  source : Text
  groupNames : List (Option κ)
  regex : Regex

/-- What a match puts its results into, with what it holds before: bindings of names, or the texts
of the groups in order. -/
inductive Container (κ : Type) where
  | bindings (entries : Entries κ Text)
  | groups (texts : List (Option Text))

namespace Pattern

variable {κ : Type} [DecidableEq κ]

/-- The anchored form of an expression. -/
def anchored (source : Text) : Text := "^(?:" ++ source ++ ")$"

/-- Compile an expression whose groups have the given names. -/
def compile (source : Text) (groupNames : List (Option κ)) : Except Template.Error (Pattern κ) :=
  match Regex.ofSource? (anchored source) with
  | some regex => .ok ⟨source, groupNames, regex⟩
  | none => .error (.invalidPattern source)

/-- The pattern of the empty expression. -/
def empty : Pattern κ :=
  ⟨[], [], ⟨.sequence [.assertion .start, .empty, .assertion .finish], 0⟩⟩

/-- Patterns are the same when their sources are. -/
def sameAs (p q : Pattern κ) : Bool := p.source = q.source

/-- The hash of the source. -/
def hash (p : Pattern κ) : Int := p.source.hash

/-- The texts of the groups if a candidate matches; a group that took no part has none. -/
def groups? (p : Pattern κ) (candidate : Text) : Option (List (Option Text)) :=
  p.regex.exec? candidate

/-- Bind a name to the text of its group, if the group has both. -/
def bind (entries : Entries κ Text) : Option κ × Option Text → Entries κ Text
  | (some name, some text) => entries.insert name text
  | _ => entries

/-- Bind the names of the groups to their texts, from the first group to the last. -/
def bindAll (groupNames : List (Option κ)) (texts : List (Option Text)) : Entries κ Text :=
  (groupNames.zip texts).foldl bind []

/-- The bindings of the names if a candidate matches. -/
def bindings? (p : Pattern κ) (candidate : Text) : Option (Entries κ Text) :=
  (p.groups? candidate).map (bindAll p.groupNames)

/-- Match a candidate into a container, whose former content is dropped in any case. -/
def fill (p : Pattern κ) (candidate : Text) : Container κ → Bool × Container κ
  | .bindings _ =>
    let result := p.bindings? candidate
    (result.isSome, .bindings (result.getD []))
  | .groups _ =>
    let result := p.groups? candidate
    (result.isSome, .groups (result.getD []))

end Pattern

end UriRouting
