import UriRouting.Template.Specificity

/-!
# Route tables

A builder registers templates with values; a table is what it builds: the first registration of each
template, the most specific one first. A later registration of the same template can never be
reached, so it is dropped and reported. A table answers a path with the first route that matches it.
-/

namespace UriRouting

/-- A template with the value it leads to. -/
structure Route (α : Type) where
  template : Template
  value : α

namespace Route

variable {α : Type}

/-- A registration that was dropped, with the earlier one of the same template. -/
structure Shadowing where
  dropped : Template
  kept : Template

/-- The report of a dropped registration. -/
def Shadowing.message (s : Shadowing) : Text :=
  "Route \"" ++ s.dropped.text ++ "\" is shadowed by \"" ++ s.kept.text ++ "\""

/-- A route that matches a path, with the values of its placeholders. -/
structure Found (α : Type) where
  value : α
  template : Template
  params : Entries Text Text

/-- Routes in the order in which they are tried. -/
structure Table (α : Type) where
  routes : List (Route α)

/-- The number of routes. -/
def Table.size (t : Table α) : Nat := t.routes.length

/-- What a route answers to a path. -/
def answer? (path : Text) (r : Route α) : Option (Found α) :=
  (r.template.params? path).map fun params => ⟨r.value, r.template, params⟩

/-- The answer of the first route that matches a path. -/
def Table.match? (t : Table α) (path : Text) : Option (Found α) :=
  t.routes.findSome? (answer? path)

/-- Registrations in order. -/
structure Builder (α : Type) where
  entries : List (Route α)

namespace Builder

/-- Nothing registered. -/
def empty : Builder α := ⟨[]⟩

/-- Register a template. -/
def add (b : Builder α) (template : Template) (value : α) : Builder α :=
  ⟨b.entries ++ [⟨template, value⟩]⟩

/-- Read, compile and register a template. -/
def addText (b : Builder α) (template : Text) (value : α) : Except Template.Error (Builder α) :=
  (Template.parse template).map fun t => b.add t value

end Builder

/-- What has been kept of the registrations, and what has been dropped, both in order. -/
structure Selection (α : Type) where
  kept : List (Route α)
  dropped : List Shadowing

/-- Keep a route unless one of the same template has been kept. -/
def Selection.consider (s : Selection α) (r : Route α) : Selection α :=
  match s.kept.find? fun k => k.template.sameAs r.template with
  | some earlier => { s with dropped := s.dropped ++ [⟨r.template, earlier.template⟩] }
  | none => { s with kept := s.kept ++ [r] }

/-- The first registration of each template, and the registrations dropped for it. -/
def select (routes : List (Route α)) : Selection α := routes.foldl Selection.consider ⟨[], []⟩

/-- Put a route before the first one that is less specific. -/
def insertBySpecificity (r : Route α) : List (Route α) → List (Route α)
  | [] => [r]
  | s :: rest =>
    if Template.compareSpecificity r.template s.template < 0 then r :: s :: rest
    else s :: insertBySpecificity r rest

/-- Order routes from the most specific to the least. -/
def sortBySpecificity (routes : List (Route α)) : List (Route α) :=
  routes.foldl (fun sorted r => insertBySpecificity r sorted) []

/-- Inserting a route adds it and changes nothing else. -/
theorem insertBySpecificity_perm (r : Route α) (routes : List (Route α)) :
    (insertBySpecificity r routes).Perm (r :: routes) := by
  induction routes with
  | nil => exact List.Perm.refl _
  | cons s rest ih =>
    by_cases h : Template.compareSpecificity r.template s.template < 0
    · simp only [insertBySpecificity, if_pos h]
      exact List.Perm.refl _
    · simp only [insertBySpecificity, if_neg h]
      exact (ih.cons s).trans (List.Perm.swap r s rest)

/-- Ordering routes neither adds nor loses one. -/
theorem sortBySpecificity_perm (routes : List (Route α)) :
    (sortBySpecificity routes).Perm routes := by
  have from_sorted (rest sorted : List (Route α)) :
      (rest.foldl (fun sorted r => insertBySpecificity r sorted) sorted).Perm (sorted ++ rest) := by
    induction rest generalizing sorted with
    | nil => simp
    | cons r rest ih =>
      exact (ih _).trans <| ((insertBySpecificity_perm r sorted).append_right rest).trans
        List.perm_middle.symm
  simpa [sortBySpecificity] using from_sorted routes []

/-- Build the table, and report what was dropped. -/
def Builder.build (b : Builder α) : Table α × List Shadowing :=
  let selection := select b.entries
  (⟨sortBySpecificity selection.kept⟩, selection.dropped)

end Route

end UriRouting
