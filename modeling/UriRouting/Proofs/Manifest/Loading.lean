import UriRouting.Proofs.Json.Checking
import UriRouting.Proofs.Manifest.Shape
import UriRouting.Proofs.Route.Selection

/-!
# Tables from manifests

Registering the routes of a manifest either compiles all of them or stops at the first template that
is refused (`compiles_or_refuses`). Together with the shape of the document, which any validator that
keeps the laws finds, this decides what a manifest is answered with (`ofValue_eq_iff`): the table of
its routes, or one error. An error comes without a table and without reports of dropped
registrations.
-/

namespace UriRouting

namespace Route

/-- Routes can be registered with a builder that holds them, and with no other. -/
theorem registers_iff {α : Type} {routes : List (Route α)} {b : Builder α} :
    Registers routes b ↔ b.entries = routes := by
  refine ⟨Registers.entries_eq, ?_⟩
  obtain ⟨entries⟩ := b
  rintro rfl
  induction entries using List.reverseRecOn with
  | nil => exact .empty
  | append_singleton routes r ih => exact ih.add r.template r.value

end Route

namespace Manifest

open Json

variable {entries : List (Text × Target)} {routes : List (Route Target)} {e : Template.Error}

/-- Entries whose templates compile, and the routes that they become. -/
def Compiles (entries : List (Text × Target)) (routes : List (Route Target)) : Prop :=
  List.Forall₂ (fun entry r => Template.parse entry.1 = .ok r.template ∧ r.value = entry.2)
    entries routes

/-- The first template of some entries that does not compile is refused with an error. -/
def Refuses (entries : List (Text × Target)) (e : Template.Error) : Prop :=
  ∃ before entry after, entries = before ++ entry :: after ∧
    (∃ routes, Compiles before routes) ∧ Template.parse entry.1 = .error e

/-- The templates of some entries all compile, or one is the first that does not. -/
theorem compiles_or_refuses (entries : List (Text × Target)) :
    (∃ routes, Compiles entries routes) ∨ ∃ e, Refuses entries e := by
  induction entries with
  | nil => exact .inl ⟨[], .nil⟩
  | cons entry rest ih =>
    cases hparse : Template.parse entry.1 with
    | error e => exact .inr ⟨e, [], entry, rest, rfl, ⟨[], .nil⟩, hparse⟩
    | ok template =>
      have hentry : Template.parse entry.1 = .ok (Route.mk template entry.2).template ∧
          (Route.mk template entry.2).value = entry.2 := ⟨hparse, rfl⟩
      obtain ⟨routes, hroutes⟩ | ⟨e, before, other, after, rfl, ⟨routes, hroutes⟩, he⟩ := ih
      · exact .inl ⟨_, .cons hentry hroutes⟩
      · exact .inr ⟨e, entry :: before, other, after, rfl, ⟨_, .cons hentry hroutes⟩, he⟩

/-- Entries that compile are registered behind what a builder holds. -/
theorem foldlM_addText_of_compiles (b : Route.Builder Target) (h : Compiles entries routes) :
    entries.foldlM (fun b entry => b.addText entry.1 entry.2) b =
      (.ok ⟨b.entries ++ routes⟩ : Except Template.Error (Route.Builder Target)) := by
  induction h generalizing b with
  | nil => simp [pure, Except.pure]
  | @cons entry r _ _ hentry _ ih =>
    obtain ⟨hparse, hvalue⟩ := hentry
    have hadd : b.addText entry.1 entry.2 = .ok (b.add r.template r.value) := by
      rw [Route.Builder.addText, hparse, hvalue]
      rfl
    rw [List.foldlM_cons, hadd]
    exact (ih _).trans (by simp [Route.Builder.add])

/-- Entries that compile are registered as their routes. -/
theorem register_of_compiles (h : Compiles entries routes) : register entries = .ok ⟨routes⟩ :=
  foldlM_addText_of_compiles .empty h

/-- The first template that is refused ends the registration. -/
theorem register_of_refuses (h : Refuses entries e) : register entries = .error e := by
  obtain ⟨before, entry, after, rfl, ⟨routes, hroutes⟩, hparse⟩ := h
  have hafter (b : Route.Builder Target) :
      (entry :: after).foldlM (fun b entry => b.addText entry.1 entry.2) b =
        (.error e : Except Template.Error (Route.Builder Target)) := by
    rw [List.foldlM_cons, Route.Builder.addText, hparse]
    rfl
  rw [register, List.foldlM_append, foldlM_addText_of_compiles _ hroutes]
  exact hafter _

/-- Routes are registered exactly as the entries that compile. -/
theorem register_eq_ok_iff {b : Route.Builder Target} :
    register entries = .ok b ↔ ∃ routes, Compiles entries routes ∧ Route.Registers routes b := by
  constructor
  · intro h
    obtain ⟨routes, hroutes⟩ | ⟨e, he⟩ := compiles_or_refuses entries
    · rw [register_of_compiles hroutes] at h
      obtain rfl := Except.ok.inj h
      exact ⟨routes, hroutes, Route.registers_iff.2 rfl⟩
    · rw [register_of_refuses he] at h
      cases h
  · rintro ⟨routes, hroutes, hregisters⟩
    rw [register_of_compiles hroutes, ← Route.registers_iff.1 hregisters]

/-- A registration fails exactly with the error of the first template that is refused. -/
theorem register_eq_error_iff : register entries = .error e ↔ Refuses entries e := by
  constructor
  · intro h
    obtain ⟨routes, hroutes⟩ | ⟨e', he'⟩ := compiles_or_refuses entries
    · rw [register_of_compiles hroutes] at h
      cases h
    · rw [register_of_refuses he'] at h
      obtain rfl := Except.error.inj h
      exact he'
  · exact register_of_refuses

/-- The violations that an error of a manifest lists; the error of a template is none. -/
def Error.listed? : Error → Option (List Violation)
  | invalid violations => some violations
  | unsupportedVersion _ => some []
  | unreadable => some []
  | template _ => none

section Lawful

variable {validate : Validator} (hvalidate : validate.Lawful) {document : Value}
  (hnames : Validator.queryName ∉ document.names)

include hvalidate hnames

/-- Between one and ten violations are listed unless a document describes a version and routes. -/
theorem length_violations (h : ¬ ∃ version routes, Describes document version routes) :
    1 ≤ (validate schema document limits).length ∧
      (validate schema document limits).length ≤ 10 := by
  rw [← validate_schema_eq_nil_iff hvalidate hnames] at h
  exact ⟨List.length_pos_iff.2 h, hvalidate.bounded schema document limits (by decide)⟩

/-- A document that describes no version and no routes is refused with its violations. -/
theorem ofValue_of_misshapen (h : ¬ ∃ version routes, Describes document version routes) :
    ofValue validate document = .error (.invalid (validate schema document limits)) := by
  rw [ofValue, if_pos (List.length_pos_iff.1 (length_violations hvalidate hnames h).1)]

/-- A document that describes a version and routes is refused if the version is not supported, and
else as the first template of its routes is. -/
theorem Describes.ofValue_eq {version : Nat} (h : Describes document version entries) :
    ofValue validate document =
      if version ≠ 1 then .error (.unsupportedVersion version)
      else match register entries with
        | .error e => .error (.template e)
        | .ok builder => .ok builder.build := by
  have hviolations : validate schema document limits = [] :=
    (validate_schema_eq_nil_iff hvalidate hnames).2 ⟨version, entries, h⟩
  rw [ofValue, hviolations, h.natField_eq, h.entries_eq]
  rfl

/-- A document that is answered with a table describes version 1 and routes that compile. -/
theorem ofValue_eq_ok_iff {result : Route.Table Target × List Route.Shadowing} :
    ofValue validate document = .ok result ↔ ∃ entries routes b, Describes document 1 entries ∧
      Compiles entries routes ∧ Route.Registers routes b ∧ result = b.build := by
  constructor
  · intro h
    by_cases hshape : ∃ version entries, Describes document version entries
    · obtain ⟨version, entries, hdescribes⟩ := hshape
      rw [hdescribes.ofValue_eq hvalidate hnames] at h
      split_ifs at h with hversion
      obtain rfl : version = 1 := not_not.1 hversion
      split at h
      · cases h
      · next b hb =>
        obtain ⟨routes, hroutes, hregisters⟩ := register_eq_ok_iff.1 hb
        exact ⟨entries, routes, b, hdescribes, hroutes, hregisters, (Except.ok.inj h).symm⟩
    · rw [ofValue_of_misshapen hvalidate hnames hshape] at h
      cases h
  · rintro ⟨entries, routes, b, hdescribes, hroutes, hregisters, rfl⟩
    rw [hdescribes.ofValue_eq hvalidate hnames, if_neg (not_not.2 rfl),
      register_eq_ok_iff.2 ⟨routes, hroutes, hregisters⟩]

/-- The error that a document is answered with, and when it is. -/
theorem error_cases {error : Error} (h : ofValue validate document = .error error) :
    ((¬ ∃ version entries, Describes document version entries) ∧
      error = .invalid (validate schema document limits)) ∨
    (∃ version entries, Describes document version entries ∧ version ≠ 1 ∧
      error = .unsupportedVersion version) ∨
    ∃ entries e, Describes document 1 entries ∧ Refuses entries e ∧ error = .template e := by
  by_cases hshape : ∃ version entries, Describes document version entries
  · obtain ⟨version, entries, hdescribes⟩ := hshape
    rw [hdescribes.ofValue_eq hvalidate hnames] at h
    split_ifs at h with hversion
    · exact .inr (.inl ⟨version, entries, hdescribes, hversion, (Except.error.inj h).symm⟩)
    · obtain rfl : version = 1 := not_not.1 hversion
      split at h
      · next e he =>
        exact .inr (.inr ⟨entries, e, hdescribes, register_eq_error_iff.1 he,
          (Except.error.inj h).symm⟩)
      · cases h
  · rw [ofValue_of_misshapen hvalidate hnames hshape] at h
    exact .inl ⟨hshape, (Except.error.inj h).symm⟩

/-- A document lists between one and ten violations exactly if it has the wrong shape. -/
theorem misshapen_iff :
    (¬ ∃ version entries, Describes document version entries) ↔ ∃ error violations,
      ofValue validate document = .error error ∧ error.listed? = some violations ∧
        1 ≤ violations.length ∧ violations.length ≤ 10 := by
  constructor
  · intro hshape
    exact ⟨_, _, ofValue_of_misshapen hvalidate hnames hshape, rfl,
      length_violations hvalidate hnames hshape⟩
  · rintro ⟨error, violations, herror, hlisted, hcount, -⟩
    obtain ⟨hshape, -⟩ | ⟨_, _, -, -, rfl⟩ | ⟨_, _, -, -, rfl⟩ :=
      error_cases hvalidate hnames herror
    · exact hshape
    · obtain rfl := Option.some.inj hlisted
      cases hcount
    · cases hlisted

/-- A document of the right shape is refused for a version exactly if this is its version, and it is
not 1. -/
theorem unsupported_iff {version : Nat} :
    (∃ entries, Describes document version entries ∧ version ≠ 1) ↔
      ofValue validate document = .error (.unsupportedVersion version) := by
  constructor
  · rintro ⟨entries, h, hversion⟩
    rw [h.ofValue_eq hvalidate hnames, if_pos hversion]
  · intro herror
    obtain ⟨-, h⟩ | ⟨_, entries, h, hversion, heq⟩ | ⟨_, _, -, -, h⟩ :=
      error_cases hvalidate hnames herror
    · cases h
    · obtain rfl := Error.unsupportedVersion.inj heq
      exact ⟨entries, h, hversion⟩
    · cases h

/-- A document lists no violations in its error exactly if it has the right shape and another version
than 1. -/
theorem listed_nil_iff :
    (∃ version entries, Describes document version entries ∧ version ≠ 1) ↔ ∃ error,
      ofValue validate document = .error error ∧ error.listed? = some [] := by
  constructor
  · rintro ⟨version, hversion⟩
    exact ⟨_, (unsupported_iff hvalidate hnames).1 hversion, rfl⟩
  · rintro ⟨error, herror, hlisted⟩
    obtain ⟨hshape, rfl⟩ | ⟨version, entries, h, hversion, -⟩ | ⟨_, _, -, -, rfl⟩ :=
      error_cases hvalidate hnames herror
    · have hcount := (length_violations hvalidate hnames hshape).1
      rw [Option.some.inj hlisted] at hcount
      cases hcount
    · exact ⟨version, entries, h, hversion⟩
    · cases hlisted

/-- A document is answered with the error of a template exactly if it has the right shape, version 1
and this error at the first template that is refused. -/
theorem refused_iff {e : Template.Error} :
    (∃ entries, Describes document 1 entries ∧ Refuses entries e) ↔
      ofValue validate document = .error (.template e) := by
  constructor
  · rintro ⟨entries, h, hrefuses⟩
    rw [h.ofValue_eq hvalidate hnames, if_neg (not_not.2 rfl), register_of_refuses hrefuses]
  · intro herror
    obtain ⟨-, h⟩ | ⟨_, _, -, -, h⟩ | ⟨entries, _, h, hrefuses, heq⟩ :=
      error_cases hvalidate hnames herror
    · cases h
    · cases h
    · obtain rfl := Error.template.inj heq
      exact ⟨entries, h, hrefuses⟩

end Lawful

/-- What a manifest is answered with, for every validator that keeps the laws and every document that
it can ask. The table of its routes, registered in order, exactly if the document has the right shape
and version 1 and all templates compile. Otherwise there is one error. Exactly if the shape is wrong,
it lists between one and ten violations; exactly if the shape is right and the version is another
one, it lists none, and it names the version; and else it is that of the first template that is
refused. -/
theorem ofValue_eq_iff {validate : Validator} (hvalidate : validate.Lawful) (document : Value)
    (hnames : Validator.queryName ∉ document.names) :
    (∀ result, ofValue validate document = .ok result ↔ ∃ entries routes b,
      Describes document 1 entries ∧ Compiles entries routes ∧ Route.Registers routes b ∧
        result = b.build) ∧
    ((¬ ∃ version entries, Describes document version entries) ↔ ∃ error violations,
      ofValue validate document = .error error ∧ error.listed? = some violations ∧
        1 ≤ violations.length ∧ violations.length ≤ 10) ∧
    ((∃ version entries, Describes document version entries ∧ version ≠ 1) ↔ ∃ error,
      ofValue validate document = .error error ∧ error.listed? = some []) ∧
    (∀ version, (∃ entries, Describes document version entries ∧ version ≠ 1) ↔
      ofValue validate document = .error (.unsupportedVersion version)) ∧
    ∀ e, (∃ entries, Describes document 1 entries ∧ Refuses entries e) ↔
      ofValue validate document = .error (.template e) :=
  ⟨fun _ => ofValue_eq_ok_iff hvalidate hnames, misshapen_iff hvalidate hnames,
    listed_nil_iff hvalidate hnames, fun _ => unsupported_iff hvalidate hnames,
    fun _ => refused_iff hvalidate hnames⟩

/-- A manifest of a version with one route. -/
def single (version : Int) (template : Text) : Value :=
  .object [("version", .number (.ofInt version)),
    ("routes", .array [.object [("template", .text template), ("handler", .text "page")]])]

/-- The names in a manifest with one route. -/
theorem names_single (version : Int) (template : Text) :
    (single version template).names = ["version", "routes", "template", "handler"] :=
  rfl

/-- A manifest with one route has the right shape if its version has. -/
theorem describes_single {version : Nat} (template : Text) (hsmall : version < 256)
    (hversion : (Number.ofInt version).toNat? = some version) :
    Describes (single version template) version [(template, ⟨"page", none⟩)] where
  named := Value.namedWithin_object.2 fun _ => .inl
  small := hsmall
  version := ⟨_, rfl, hversion⟩
  routes := by
    refine ⟨_, rfl, .cons ⟨Value.namedWithin_object.2 ?_, rfl, rfl, rfl⟩ .nil⟩
    exact fun _ hname => .inl (List.mem_append_left [Text.ofString "name"] hname)

/-- A validator that keeps the laws, with a manifest that is answered with a table, one of another
version, one with a template that is refused, and a document that is no manifest. -/
theorem ofValue_check :
    Validator.Lawful Schema.check ∧
    (∃ template, Template.parse "/a" = .ok template ∧
      ofValue Schema.check (single 1 "/a") =
        .ok (Route.Builder.mk [⟨template, (⟨"page", none⟩ : Target)⟩]).build) ∧
    ofValue Schema.check (single 2 "/a") = .error (.unsupportedVersion 2) ∧
    (∃ e, Template.parse "/\x7b" = .error e ∧
      ofValue Schema.check (single 1 "/\x7b") = .error (.template e)) ∧
    ∃ error violations, ofValue Schema.check .null = .error error ∧
      error.listed? = some violations ∧ 1 ≤ violations.length ∧ violations.length ≤ 10 := by
  have hreads : (Template.parse "/a").toOption.isSome = true ∧
      (Template.parse "/\x7b").toOption.isSome = false := by
    decide +kernel
  have hanswer (version : Int) (template : Text) :=
    ofValue_eq_iff Schema.check_lawful (single version template)
      (by rw [names_single]; decide)
  refine ⟨Schema.check_lawful, ?_, ?_, ?_, ?_⟩
  · cases hparse : Template.parse "/a" with
    | error e => simp [hparse, Except.toOption] at hreads
    | ok template =>
      exact ⟨template, rfl, ((hanswer 1 "/a").1 _).2 ⟨_, _, _,
        describes_single "/a" (by decide) (by decide +kernel), .cons ⟨hparse, rfl⟩ .nil,
        Route.registers_iff.2 rfl, rfl⟩⟩
  · exact ((hanswer 2 "/a").2.2.2.1 2).1
      ⟨_, describes_single "/a" (by decide) (by decide +kernel), by decide⟩
  · cases hparse : Template.parse "/\x7b" with
    | ok template => simp [hparse, Except.toOption] at hreads
    | error e =>
      exact ⟨e, rfl, ((hanswer 1 "/\x7b").2.2.2.2 e).1
        ⟨_, describes_single "/\x7b" (by decide) (by decide +kernel),
          [], _, [], rfl, ⟨[], .nil⟩, hparse⟩⟩
  · apply (ofValue_eq_iff Schema.check_lawful .null (by decide)).2.1.1
    rintro ⟨version, entries, ⟨fields, hfields, -⟩, -⟩
    cases hfields

end Manifest

end UriRouting
