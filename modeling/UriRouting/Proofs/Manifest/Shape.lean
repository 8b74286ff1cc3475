import UriRouting.Manifest.Loading
import Mathlib.Data.List.Forall2

/-!
# The shape of a manifest

`Describes` says what a document of the right shape is, and which version and routes it gives,
without naming a schema or a validator. A validator that keeps the laws lists nothing of a document
exactly if it describes some version and routes (`validate_schema_eq_nil_iff`): the laws are applied
along the schema, from the texts of a route up to the document. The version and the routes are then
what is read off the document.
-/

namespace UriRouting

namespace Manifest

open Json

variable {validate : Validator} {value document : Value}

/-- A route of the right shape, and the entry that it is. -/
structure IsRoute (value : Value) (entry : Text × Target) : Prop where
  named : value.NamedWithin ["template", "handler", "name"]
  template : value.field? "template" = some (.text entry.1)
  handler : value.field? "handler" = some (.text entry.2.handler)
  name : value.field? "name" = entry.2.name.map .text

/-- A document of the right shape, its version, which is an integer below 256, and its routes. -/
structure Describes (document : Value) (version : Nat) (routes : List (Text × Target)) : Prop where
  named : document.NamedWithin ["version", "routes"]
  small : version < 256
  version : ∃ n, document.field? "version" = some (.number n) ∧ n.toNat? = some version
  routes : ∃ items, document.field? "routes" = some (.array items) ∧
    List.Forall₂ IsRoute items routes

/-- An optional property is a text wherever it is there exactly if it is absent or a text. -/
theorem optionalText_iff {content : Option Value} :
    (∀ value, content = some value → ∃ t, value = .text t) ↔
      ∃ t : Option Text, content = t.map .text := by
  constructor
  · intro h
    cases content with
    | none => exact ⟨none, rfl⟩
    | some value =>
      obtain ⟨t, rfl⟩ := h value rfl
      exact ⟨some t, rfl⟩
  · rintro ⟨t, rfl⟩ value h
    obtain ⟨t, -, rfl⟩ := Option.map_eq_some_iff.1 h
    exact ⟨t, rfl⟩

/-- Nothing is listed of a route exactly if it has the right shape. -/
theorem validate_routeSchema_eq_nil_iff (hvalidate : validate.Lawful)
    (hnames : Validator.queryName ∉ value.names) :
    validate routeSchema value limits = [] ↔ ∃ entry, IsRoute value entry := by
  rw [routeSchema, hvalidate.properties _ _ _ _ hnames]
  simp only [hvalidate.string, List.forall_mem_cons, List.not_mem_nil, false_imp_iff, implies_true,
    and_true, optionalText_iff]
  constructor
  · rintro ⟨hnamed, ⟨⟨_, htemplate, template, rfl⟩, _, hhandler, handler, rfl⟩, name, hname⟩
    exact ⟨(template, ⟨handler, name⟩), hnamed, htemplate, hhandler, hname⟩
  · rintro ⟨entry, hnamed, htemplate, hhandler, hname⟩
    exact ⟨hnamed, ⟨⟨_, htemplate, _, rfl⟩, _, hhandler, _, rfl⟩, _, hname⟩

/-- Values that are routes are the routes of one list of entries. -/
theorem forall_isRoute_iff {items : List Value} :
    (∀ item ∈ items, ∃ entry, IsRoute item entry) ↔
      ∃ entries, List.Forall₂ IsRoute items entries := by
  induction items with
  | nil => exact iff_of_true (List.forall_mem_nil _) ⟨[], .nil⟩
  | cons item rest ih =>
    rw [List.forall_mem_cons, ih]
    constructor
    · rintro ⟨⟨entry, hentry⟩, entries, hentries⟩
      exact ⟨entry :: entries, .cons hentry hentries⟩
    · rintro ⟨_, hentries⟩
      cases hentries with
      | cons hentry hrest => exact ⟨⟨_, hentry⟩, _, hrest⟩

/-- Nothing is listed of the routes of a document exactly if they are an array of routes of the right
shape. -/
theorem validate_elements_eq_nil_iff (hvalidate : validate.Lawful)
    (hnames : Validator.queryName ∉ value.names) :
    validate (.elements routeSchema) value limits = [] ↔
      ∃ items entries, value = .array items ∧ List.Forall₂ IsRoute items entries := by
  rw [hvalidate.elements _ _ _ hnames]
  simp only [exists_and_left]
  refine exists_congr fun items => and_congr_right ?_
  rintro rfl
  rw [← forall_isRoute_iff]
  refine forall₂_congr fun item hitem => validate_routeSchema_eq_nil_iff hvalidate fun h => ?_
  exact hnames (Value.names_subset_of_mem hitem h)

/-- Nothing is listed of a document exactly if it describes some version and routes. -/
theorem validate_schema_eq_nil_iff (hvalidate : validate.Lawful)
    (hnames : Validator.queryName ∉ document.names) :
    validate schema document limits = [] ↔
      ∃ version routes, Describes document version routes := by
  have hroutes {content : Value} (h : document.field? "routes" = some content) :
      validate (.elements routeSchema) content limits = [] ↔
        ∃ items entries, content = .array items ∧ List.Forall₂ IsRoute items entries :=
    validate_elements_eq_nil_iff hvalidate fun hmem =>
      hnames (Value.names_subset_of_field? h hmem)
  rw [schema, hvalidate.properties _ _ _ _ hnames]
  simp only [hvalidate.uint8, List.forall_mem_cons, List.not_mem_nil, false_imp_iff, implies_true,
    and_true]
  constructor
  · rintro ⟨hnamed, ⟨_, hversion, n, version, rfl, hnat, hsmall⟩, _, hfield, hlist⟩
    obtain ⟨items, routes, rfl, hitems⟩ := (hroutes hfield).1 hlist
    exact ⟨version, routes, hnamed, hsmall, ⟨n, hversion, hnat⟩, items, hfield, hitems⟩
  · rintro ⟨version, routes, hnamed, hsmall, ⟨n, hversion, hnat⟩, items, hfield, hitems⟩
    exact ⟨hnamed, ⟨_, hversion, n, version, rfl, hnat, hsmall⟩, _, hfield,
      (hroutes hfield).2 ⟨items, routes, rfl, hitems⟩⟩

/-- What is read off a route of the right shape is its entry. -/
theorem IsRoute.entryOf_eq {entry : Text × Target} (h : IsRoute value entry) :
    entryOf value = entry := by
  obtain ⟨template, handler, name⟩ := entry
  have hname : textField? value "name" = name := by
    rw [textField?, h.name]
    cases name <;> rfl
  rw [entryOf, hname, textField?, textField?, h.template, h.handler]
  rfl

namespace Describes

variable {version : Nat} {routes : List (Text × Target)}

/-- The version that is read off a document. -/
theorem natField_eq (h : Describes document version routes) :
    natField document "version" = version := by
  obtain ⟨n, hfield, hversion⟩ := h.version
  simp [natField, hfield, hversion]

/-- The routes that are read off a document. -/
theorem entries_eq (h : Describes document version routes) : entries document = routes := by
  obtain ⟨items, hfield, hroutes⟩ := h.routes
  have hentries : List.Forall₂ (fun item entry => entryOf item = entry) items routes :=
    hroutes.imp fun _ _ hroute => hroute.entryOf_eq
  rw [entries, hfield]
  rwa [← List.forall₂_map_left_iff, List.forall₂_eq_eq_eq] at hentries

end Describes

end Manifest

end UriRouting
