import UriRouting.Proofs.Route.Selection
import UriRouting.Proofs.Template.Exact

/-!
# What a table answers

A table tries its routes in the order of specificity, so the route that answers a path precedes all
others that match it (`InOrder.findSome?_eq_some_iff`). What has been dropped cannot be missed: a
route of the same source is there, and matches the same paths. So a table answers every path that
some registration matches, with the value and the parameters of the most specific route that is kept
(`match?_build`). In a table of templates without constraints this is the exact route of the path,
if there is one, whatever else is registered (`match?_exact`).
-/

namespace UriRouting

open Template (Precedes)

namespace Route

variable {α : Type}

/-- A route answers a path exactly if its template matches it. -/
theorem answers_iff_matches (path : Text) (r : Route α) :
    answers path r = true ↔ r.template.Matches path := by
  rw [Template.matches_iff, answers, answer?, Option.isSome_map, Template.params?,
    Pattern.bindings?, Option.isSome_map]

/-- A route has no answer to the paths that its template does not match. -/
theorem answer?_eq_none_iff {path : Text} {r : Route α} :
    answer? path r = none ↔ ¬ r.template.Matches path := by
  rw [← answers_iff_matches, answers, Option.not_isSome_iff_eq_none]

/-- The answer of a route has its value, its template and the parameters of its template. -/
theorem answer?_eq_some_iff {path : Text} {r : Route α} {found : Found α} :
    answer? path r = some found ↔
      found.value = r.value ∧ found.template = r.template ∧
        r.template.params? path = some found.params := by
  obtain ⟨value, template, params⟩ := found
  rw [answer?, Option.map_eq_some_iff]
  constructor
  · rintro ⟨_, hparams, heq⟩
    obtain ⟨rfl, rfl, rfl⟩ := Found.mk.inj heq
    exact ⟨rfl, rfl, hparams⟩
  · rintro ⟨rfl, rfl, hparams⟩
    exact ⟨params, hparams, rfl⟩

/-- Routes in order answer a path with the route that precedes all others matching it. -/
theorem InOrder.findSome?_eq_some_iff {routes : List (Route α)} (h : InOrder routes) {path : Text}
    {found : Found α} :
    routes.findSome? (answer? path) = some found ↔
      ∃ before r after, routes = before ++ r :: after ∧ answer? path r = some found ∧
        ∀ s ∈ before ++ after, answers path s = true → Precedes r.template s.template := by
  rw [List.findSome?_eq_some_iff]
  constructor
  · rintro ⟨before, r, after, rfl, hfound, hbefore⟩
    refine ⟨before, r, after, rfl, hfound, ?_⟩
    intro s hs hanswers
    rcases List.mem_append.1 hs with hs | hs
    · rw [answers, hbefore s hs] at hanswers
      cases hanswers
    · obtain ⟨-, hafter, -⟩ := List.pairwise_append.1 h
      exact (List.pairwise_cons.1 hafter).1 s hs
  · rintro ⟨before, r, after, rfl, hfound, hleast⟩
    refine ⟨before, r, after, rfl, hfound, ?_⟩
    intro s hs
    obtain ⟨-, -, hbetween⟩ := List.pairwise_append.1 h
    have hnot : ¬ answers path s = true := fun hanswers =>
      (hleast s (List.mem_append_left _ hs) hanswers).asymm (hbetween s hs r List.mem_cons_self)
    simpa [answers] using hnot

/-- The first registrations are one of each source. -/
theorem firsts_covers (routes : List (Route α)) :
    Selection.Covers ⟨firsts routes, shadowings routes⟩ routes :=
  select_eq routes ▸ select_covers routes

/-- No first registration matches a path exactly if no registration does. -/
theorem forall_firsts_not_matches_iff {routes : List (Route α)}
    (hconstructed : ∀ r ∈ routes, r.template.Constructed) (path : Text) :
    (∀ k ∈ firsts routes, ¬ k.template.Matches path) ↔ ∀ r ∈ routes, ¬ r.template.Matches path := by
  have hcovers := firsts_covers routes
  constructor
  · intro hnone r hr
    obtain ⟨k, hk, hsource⟩ := hcovers.covered r hr
    have hsame := answers_congr (hconstructed k (hcovers.mem k hk)) (hconstructed r hr) hsource path
    rw [← answers_iff_matches, ← hsame, answers_iff_matches]
    exact hnone k hk
  · intro hnone k hk
    exact hnone k (hcovers.mem k hk)

/-- A table answers a path exactly if some registration matches it, those that have been dropped
included. The answer is the value, the template and the parameters of a route of the table that is
more specific than all its other routes that match the path. -/
theorem match?_build {routes : List (Route α)} {b : Builder α} (h : Registers routes b)
    (hconstructed : ∀ r ∈ routes, r.template.Constructed) (path : Text) :
    (b.build.1.match? path = none ↔ ∀ r ∈ routes, ¬ r.template.Matches path) ∧
      ∀ found, b.build.1.match? path = some found →
        ∃ before r after, b.build.1.routes = before ++ r :: after ∧ r.template.Matches path ∧
          (∀ s ∈ before ++ after, s.template.Matches path →
            Template.compareSpecificity r.template s.template < 0) ∧
          found.value = r.value ∧ found.template = r.template ∧
          r.template.params? path = some found.params := by
  obtain ⟨hperm, horder⟩ := h.routes_build
  constructor
  · rw [← forall_firsts_not_matches_iff hconstructed path, Table.match?, List.findSome?_eq_none_iff]
    simp only [answer?_eq_none_iff, hperm.mem_iff]
  · intro found hfound
    obtain ⟨before, r, after, hroutes, hanswer, hleast⟩ := horder.findSome?_eq_some_iff.1 hfound
    refine ⟨before, r, after, hroutes, ?_, ?_, answer?_eq_some_iff.1 hanswer⟩
    · rw [← answers_iff_matches, answers, hanswer]
      rfl
    · intro s hs hmatches
      exact hleast s hs ((answers_iff_matches path s).2 hmatches)

/-- Two names for one placeholder and a fixed path: the path is answered with its own route,
although the placeholder matches it and has been registered before. -/
theorem match?_build_users :
    ∃ (x y a : Template) (b : Builder Nat),
      Registers [⟨x, 1⟩, ⟨y, 2⟩, ⟨a, 3⟩] b ∧ x.text = "/users/\x7bid\x7d" ∧
        y.text = "/users/\x7bname\x7d" ∧ a.text = "/users/me" ∧ x.Matches "/users/me" ∧
        b.build.1.match? "/users" = none ∧
        ∃ found, b.build.1.match? "/users/me" = some found ∧ found.value = 3 := by
  have h : (match Template.parse "/users/\x7bid\x7d", Template.parse "/users/\x7bname\x7d",
      Template.parse "/users/me" with
    | .ok x, .ok y, .ok a =>
      decide ((x.text = "/users/\x7bid\x7d" ∧ y.text = "/users/\x7bname\x7d" ∧
          a.text = "/users/me") ∧
        (∀ t ∈ [x, y, a], ¬ (t.pattern.groups? "/users").isSome) ∧
        (x.pattern.groups? "/users/me").isSome ∧ (a.pattern.groups? "/users/me").isSome ∧
        (x.pattern.source = y.pattern.source ∧ x.pattern.source ≠ a.pattern.source) ∧
        ¬ Precedes x a)
    | _, _, _ => false) = true := by
    decide +kernel
  split at h
  · next x y a hx hy ha =>
    obtain ⟨⟨hxtext, hytext, hatext⟩, hnone, hxmatch, hamatch, ⟨hsame, hdiffer⟩, hnot⟩ :=
      of_decide_eq_true h
    have hregisters : Registers [⟨x, 1⟩, ⟨y, 2⟩, ⟨a, 3⟩]
        (((Builder.empty.add x 1).add y 2).add a 3) :=
      ((Registers.empty.addParsed hx 1).addParsed hy 2).addParsed ha 3
    have hconstructed : ∀ r ∈ ([⟨x, 1⟩, ⟨y, 2⟩, ⟨a, 3⟩] : List (Route Nat)),
        r.template.Constructed := by
      simpa using ⟨.inr ⟨_, hx⟩, .inr ⟨_, hy⟩, .inr ⟨_, ha⟩⟩
    have hmatches : a.Matches "/users/me" := (Template.matches_iff a _).2 hamatch
    have hunanswered := (match?_build hregisters hconstructed "/users").1.2
      (by simpa [Template.matches_iff] using hnone)
    obtain ⟨hanswered, hbest⟩ := match?_build hregisters hconstructed "/users/me"
    obtain ⟨found, hfound⟩ := Option.ne_none_iff_exists'.1
      fun heq => hanswered.1 heq ⟨a, 3⟩ (by simp) hmatches
    obtain ⟨before, r, after, hroutes, -, hleast, hvalue, -⟩ := hbest found hfound
    have hkept (s : Route Nat) : s ∈ r :: (before ++ after) ↔ s = ⟨x, 1⟩ ∨ s = ⟨a, 3⟩ := by
      rw [← List.perm_middle.mem_iff, ← hroutes, hregisters.routes_build.1.mem_iff]
      simp [firsts, histories, first?, source, ← hsame, hdiffer]
    refine ⟨x, y, a, _, hregisters, hxtext, hytext, hatext, (Template.matches_iff x _).2 hxmatch,
      hunanswered, found, hfound, ?_⟩
    rcases (hkept r).1 List.mem_cons_self with rfl | rfl
    · -- The placeholder would have to precede the fixed path.
      have ha : ⟨a, 3⟩ ∈ before ++ after := by
        rcases List.mem_cons.1 ((hkept ⟨a, 3⟩).2 (.inr rfl)) with heq | ha
        · cases congrArg Route.value heq
        · exact ha
      exact absurd (hleast _ ha hmatches) hnot
    · exact hvalue
  · cases h

/-- In a table of templates without constraints, an exact route answers the text of its template
with its value and no parameters. -/
theorem match?_exact {routes : List (Route α)} {b : Builder α} (h : Registers routes b)
    (hconstructed : ∀ r ∈ routes, r.template.Constructed)
    (hfree : ∀ r ∈ routes, r.template.outline.explicitConstraints = 0) {r : Route α}
    (hr : r ∈ b.build.1.routes) (hexact : r.template.placeholders = []) :
    b.build.1.match? r.template.text = some ⟨r.value, r.template, []⟩ := by
  obtain ⟨hperm, horder⟩ := h.routes_build
  have registered {s : Route α} (hs : s ∈ b.build.1.routes) : s ∈ routes :=
    (firsts_covers routes).mem s (hperm.mem_iff.1 hs)
  have hr' := hconstructed r (registered hr)
  obtain ⟨before, after, hsplit⟩ := List.append_of_mem hr
  have hne := InOrder.source_ne (hsplit ▸ horder)
  refine horder.findSome?_eq_some_iff.2 ⟨before, r, after, hsplit, ?_, ?_⟩
  · rw [answer?, hr'.params_of_exact hexact, Option.map_some]
  · intro s hs hanswers
    have hsr : s ∈ routes := by
      apply registered
      rw [hsplit]
      exact List.perm_middle.mem_iff.2 (List.mem_cons_of_mem _ hs)
    exact Template.precedes_of_exact hr' (hconstructed s hsr) hexact (hfree s hsr)
      ((answers_iff_matches _ s).1 hanswers) (hne s hs)

/-- A path full of special units, registered behind two placeholders that match it. -/
theorem match?_exact_special :
    ∃ (x y a : Template) (b : Builder Nat),
      Registers [⟨x, 1⟩, ⟨y, 2⟩, ⟨a, 3⟩] b ∧ x.text = "/\x7bx\x7d" ∧ y.text = "/a.\x7by\x7d" ∧
        a.text = "/a.b(c)*" ∧ x.Matches "/a.b(c)*" ∧ y.Matches "/a.b(c)*" ∧
        b.build.1.match? "/a.b(c)*" = some ⟨3, a, []⟩ := by
  have h : (match Template.parse "/\x7bx\x7d", Template.parse "/a.\x7by\x7d",
      Template.parse "/a.b(c)*" with
    | .ok x, .ok y, .ok a =>
      decide ((x.text = "/\x7bx\x7d" ∧ y.text = "/a.\x7by\x7d" ∧ a.text = "/a.b(c)*") ∧
        (x.pattern.groups? "/a.b(c)*").isSome ∧ (y.pattern.groups? "/a.b(c)*").isSome ∧
        (x.pattern.source ≠ y.pattern.source ∧ x.pattern.source ≠ a.pattern.source ∧
          y.pattern.source ≠ a.pattern.source) ∧
        (x.outline.explicitConstraints = 0 ∧ y.outline.explicitConstraints = 0 ∧
          a.outline.explicitConstraints = 0) ∧
        a.placeholders = [])
    | _, _, _ => false) = true := by
    decide +kernel
  split at h
  · next x y a hx hy ha =>
    obtain ⟨⟨hxtext, hytext, hatext⟩, hxmatch, hymatch, ⟨hxy, hxa, hya⟩, hfree, hexact⟩ :=
      of_decide_eq_true h
    have hregisters : Registers [⟨x, 1⟩, ⟨y, 2⟩, ⟨a, 3⟩]
        (((Builder.empty.add x 1).add y 2).add a 3) :=
      ((Registers.empty.addParsed hx 1).addParsed hy 2).addParsed ha 3
    have hdistinct : ([⟨x, 1⟩, ⟨y, 2⟩, ⟨a, 3⟩] : List (Route Nat)).Pairwise
        fun r s => r.source ≠ s.source := by
      simpa [source] using ⟨⟨hxy, hxa⟩, hya⟩
    have hr : ⟨a, 3⟩ ∈ (((Builder.empty.add x 1).add y 2).add a 3).build.1.routes := by
      rw [hregisters.routes_build.1.mem_iff, firsts_eq_self hdistinct]
      simp
    have hanswer := match?_exact hregisters
      (by simpa using ⟨.inr ⟨_, hx⟩, .inr ⟨_, hy⟩, .inr ⟨_, ha⟩⟩) (by simpa using hfree) hr hexact
    rw [hatext] at hanswer
    exact ⟨x, y, a, _, hregisters, hxtext, hytext, hatext, (Template.matches_iff x _).2 hxmatch,
      (Template.matches_iff y _).2 hymatch, hanswer⟩
  · cases h

end Route

end UriRouting
