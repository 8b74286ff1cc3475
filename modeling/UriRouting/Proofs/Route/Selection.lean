import UriRouting.Proofs.Route.Order
import Mathlib.Data.List.Induction

/-!
# What a builder keeps and what it reports

A builder keeps the registrations whose source no earlier one has, and reports each other one with
the first registration of its source (`select_eq`). The table holds what is kept in the order of
specificity, and since no two kept routes have the same source there is only one such order. So the
table of registrations with distinct sources does not depend on the order in which they are made
(`build_of_registers`).
-/

namespace UriRouting

open Template (Precedes)

namespace Route

variable {α : Type}

/-- The builder that some calls have led to from an empty one, with the routes that they registered.
A template is handed over compiled, or as a text that compiles. -/
inductive Registers : List (Route α) → Builder α → Prop
  | empty : Registers [] Builder.empty
  | add {routes : List (Route α)} {b : Builder α} (h : Registers routes b) (template : Template)
      (value : α) : Registers (routes ++ [⟨template, value⟩]) (b.add template value)
  | addText {routes : List (Route α)} {b next : Builder α} {text : Text} {template : Template}
      {value : α} (h : Registers routes b) (hparse : Template.parse text = .ok template)
      (hadd : b.addText text value = .ok next) : Registers (routes ++ [⟨template, value⟩]) next

/-- The routes registered are the entries of the builder. -/
theorem Registers.entries_eq {routes : List (Route α)} {b : Builder α} (h : Registers routes b) :
    b.entries = routes := by
  induction h with
  | empty => rfl
  | add _ template value ih => rw [Builder.add, ih]
  | @addText routes b next text template value _ hparse hadd ih =>
    rw [Builder.addText, hparse] at hadd
    obtain rfl : b.add template value = next := Except.ok.inj hadd
    rw [Builder.add, ih]

/-- A text that compiles is registered as its template. -/
theorem Registers.addParsed {routes : List (Route α)} {b : Builder α} (h : Registers routes b)
    {text : Text} {template : Template} (hparse : Template.parse text = .ok template) (value : α) :
    Registers (routes ++ [⟨template, value⟩]) (b.add template value) :=
  h.addText hparse (by rw [Builder.addText, hparse]; rfl)

/-- Each route together with the routes before it. -/
def histories (before : List (Route α)) : List (Route α) → List (List (Route α) × Route α)
  | [] => []
  | r :: rest => (before, r) :: histories (before ++ [r]) rest

/-- The first of some earlier routes that has the source of a route. -/
def first? (before : List (Route α)) (r : Route α) : Option (Route α) :=
  before.find? fun earlier => earlier.source = r.source

/-- The routes whose source no earlier one has. -/
def firsts (routes : List (Route α)) : List (Route α) :=
  (histories [] routes).filterMap fun (before, r) => if (first? before r).isNone then some r else none

/-- The routes whose source an earlier one has, each reported with the first route of the source. -/
def shadowings (routes : List (Route α)) : List Shadowing :=
  (histories [] routes).filterMap fun (before, r) =>
    (first? before r).map fun earlier => ⟨r.template, earlier.template⟩

/-- A route added at the end has all routes before it. -/
theorem histories_concat (before routes : List (Route α)) (r : Route α) :
    histories before (routes ++ [r]) = histories before routes ++ [(before ++ routes, r)] := by
  induction routes generalizing before with
  | nil => simp [histories]
  | cons s rest ih => simp [histories, ih]

/-- A route added at the end is a first one if its source is new. -/
theorem firsts_concat (routes : List (Route α)) (r : Route α) :
    firsts (routes ++ [r]) =
      firsts routes ++ if (first? routes r).isNone then [r] else [] := by
  rw [firsts, histories_concat, List.filterMap_append, ← firsts, List.nil_append]
  cases h : first? routes r <;> simp [h]

/-- A route added at the end is reported if its source is not new. -/
theorem shadowings_concat (routes : List (Route α)) (r : Route α) :
    shadowings (routes ++ [r]) =
      shadowings routes ++
        ((first? routes r).map fun earlier => ⟨r.template, earlier.template⟩).toList := by
  rw [shadowings, histories_concat, List.filterMap_append, ← shadowings, List.nil_append]
  cases h : first? routes r <;> simp [h]

/-- The first route of a source among some routes is looked for in the front ones first. -/
theorem first?_append (before after : List (Route α)) (r : Route α) :
    first? (before ++ after) r = (first? before r).or (first? after r) :=
  List.find?_append

/-- The first route of a source is among the first routes, and is the only one of its source there. -/
theorem first?_firsts (routes : List (Route α)) (r : Route α) :
    first? (firsts routes) r = first? routes r := by
  induction routes using List.reverseRecOn with
  | nil => rfl
  | append_singleton routes s ih =>
    rw [firsts_concat, first?_append, first?_append, ih]
    cases hfirst : first? routes r with
    | some earlier => rfl
    | none =>
      split_ifs with hnew
      · rfl
      · -- A source that is not new is not that of the route looked for.
        have hne : s.source ≠ r.source := by
          intro hsource
          rw [first?, hsource, ← first?, hfirst] at hnew
          exact hnew rfl
        simp [first?, hne]

/-- A selection keeps the first routes and reports the others. -/
theorem select_eq (routes : List (Route α)) : select routes = ⟨firsts routes, shadowings routes⟩ := by
  induction routes using List.reverseRecOn with
  | nil => rfl
  | append_singleton routes r ih =>
    have hfind : (firsts routes).find? (fun k => k.template.sameAs r.template) = first? routes r :=
      first?_firsts routes r
    rw [select, List.foldl_append, ← select, ih, List.foldl_cons, List.foldl_nil,
      Selection.consider, hfind, firsts_concat, shadowings_concat]
    cases first? routes r <;> simp

/-- Every route is either a first one or reported. -/
theorem length_firsts_add_shadowings (routes : List (Route α)) :
    (firsts routes).length + (shadowings routes).length = routes.length := by
  induction routes using List.reverseRecOn with
  | nil => rfl
  | append_singleton routes r ih =>
    rw [firsts_concat, shadowings_concat, List.length_append, List.length_append,
      List.length_append, ← ih]
    cases first? routes r <;> simp <;> omega

/-- Routes with distinct sources are all first ones. -/
theorem firsts_eq_self {routes : List (Route α)}
    (h : routes.Pairwise fun r s => r.source ≠ s.source) : firsts routes = routes := by
  induction routes using List.reverseRecOn with
  | nil => rfl
  | append_singleton routes r ih =>
    obtain ⟨hroutes, -, hr⟩ := List.pairwise_append.1 h
    have hnew : first? routes r = none := by
      rw [first?, List.find?_eq_none]
      intro s hs
      simpa using hr s hs r (List.mem_singleton.2 rfl)
    rw [firsts_concat, hnew, ih hroutes]
    rfl

/-- Routes can be put in order in only one way. -/
theorem InOrder.eq_of_perm {routes others : List (Route α)} (h : InOrder routes)
    (h' : InOrder others) (hperm : routes.Perm others) : routes = others :=
  List.Perm.eq_of_pairwise (fun _ _ _ _ hab hba => absurd hba hab.asymm) h h' hperm

/-- The table of a builder holds the first registrations in the order of specificity. -/
theorem Registers.routes_build {routes : List (Route α)} {b : Builder α} (h : Registers routes b) :
    b.build.1.routes.Perm (firsts routes) ∧ InOrder b.build.1.routes := by
  have hkept : (select routes).kept = firsts routes := by rw [select_eq]
  rw [Builder.build, h.entries_eq]
  refine ⟨?_, inOrder_sortBySpecificity (select_covers routes).distinct⟩
  rw [← hkept]
  exact sortBySpecificity_perm (select routes).kept

/-- Building a table keeps exactly the first registrations, in the order of specificity, and reports
exactly the others, in the order of their registration, each with the first registration of its
source. Registrations with distinct sources build the same table in whatever order they are made. -/
theorem build_of_registers {routes : List (Route α)} {b : Builder α} (h : Registers routes b) :
    b.build.1.routes.Perm (firsts routes) ∧ InOrder b.build.1.routes ∧
      b.build.2 = shadowings routes ∧ b.build.1.size + b.build.2.length = routes.length ∧
      (routes.Pairwise (fun r s => r.source ≠ s.source) →
        ∀ (others : List (Route α)) (b' : Builder α), Registers others b' → others.Perm routes →
          b'.build.1.routes = b.build.1.routes) := by
  obtain ⟨hperm, horder⟩ := h.routes_build
  have hreported : b.build.2 = shadowings routes := by
    rw [Builder.build, h.entries_eq, select_eq]
  refine ⟨hperm, horder, hreported, ?_, ?_⟩
  · rw [Table.size, hperm.length_eq, hreported, length_firsts_add_shadowings]
  · intro hdistinct others b' h' hothers
    obtain ⟨hperm', horder'⟩ := h'.routes_build
    have hdistinct' : others.Pairwise fun r s => r.source ≠ s.source :=
      (hothers.pairwise_iff fun hne => Ne.symm hne).2 hdistinct
    apply horder'.eq_of_perm horder
    calc b'.build.1.routes.Perm (firsts others) := hperm'
      _ = others := firsts_eq_self hdistinct'
      List.Perm _ routes := hothers
      _ = firsts routes := (firsts_eq_self hdistinct).symm
      List.Perm _ b.build.1.routes := hperm.symm

/-- Two names for one placeholder and a fixed path: the second name is reported with the first. -/
theorem build_of_registers_names :
    ∃ (x y a : Template) (b : Builder Nat),
      Registers [⟨x, 1⟩, ⟨y, 2⟩, ⟨a, 3⟩] b ∧ x.text = "/\x7bx\x7d" ∧ y.text = "/\x7by\x7d" ∧
        a.text = "/a" ∧ b.build.1.routes.Perm [⟨x, 1⟩, ⟨a, 3⟩] ∧ InOrder b.build.1.routes ∧
        b.build.2 = [⟨y, x⟩] := by
  have h : (match Template.parse "/\x7bx\x7d", Template.parse "/\x7by\x7d", Template.parse "/a" with
    | .ok x, .ok y, .ok a =>
      decide (x.pattern.source = y.pattern.source ∧ x.pattern.source ≠ a.pattern.source ∧
        x.text = "/\x7bx\x7d" ∧ y.text = "/\x7by\x7d" ∧ a.text = "/a")
    | _, _, _ => false) = true := by
    decide +kernel
  split at h
  · next x y a hx hy ha =>
    obtain ⟨hsame, hdiffer, htexts⟩ := of_decide_eq_true h
    have hregisters : Registers [⟨x, 1⟩, ⟨y, 2⟩, ⟨a, 3⟩]
        (((Builder.empty.add x 1).add y 2).add a 3) :=
      .addText (.addText (.addText .empty hx (by rw [Builder.addText, hx]; rfl)) hy
        (by rw [Builder.addText, hy]; rfl)) ha (by rw [Builder.addText, ha]; rfl)
    obtain ⟨hperm, horder, hreported, -⟩ := build_of_registers hregisters
    have hfirsts : firsts [⟨x, 1⟩, ⟨y, 2⟩, ⟨a, 3⟩] = [⟨x, 1⟩, ⟨a, 3⟩] := by
      simp only [firsts, histories, List.filterMap_cons, List.filterMap_nil]
      simp [first?, source, ← hsame, hdiffer]
    have hshadowings : shadowings [(⟨x, 1⟩ : Route Nat), ⟨y, 2⟩, ⟨a, 3⟩] = [⟨y, x⟩] := by
      simp only [shadowings, histories, List.filterMap_cons, List.filterMap_nil]
      simp [first?, source, ← hsame, hdiffer]
    rw [hfirsts] at hperm
    rw [hshadowings] at hreported
    exact ⟨x, y, a, _, hregisters, htexts.1, htexts.2.1, htexts.2.2, hperm, horder, hreported⟩
  · cases h

end Route

end UriRouting
