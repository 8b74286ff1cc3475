import UriRouting.Proofs.Route.Selection

/-!
# One more registration

What a builder keeps and reports does not depend on what is registered later, and its routes can be
put in order in only one way. So a further registration either leaves the table as it is and adds one
report behind the others, or puts its route into the table at one place and adds no report
(`build_after`). Over any number of requests, the routes of a table stay in all later tables and the
reports stay in front of all later ones (`build_afterAll`).
-/

namespace UriRouting

open Template (Precedes)

namespace Route

variable {α : Type}

/-- A registration that is asked for, with a compiled template or with a text that has to compile. -/
inductive Request (α : Type) where
  | ofTemplate (template : Template) (value : α)
  | ofText (text : Text) (value : α)

/-- The route that a request is for; there is none if its text does not compile. -/
def Request.route : Request α → Except Template.Error (Route α)
  | ofTemplate template value => .ok ⟨template, value⟩
  | ofText text value => (Template.parse text).map fun template => ⟨template, value⟩

/-- A source is registered exactly if it has a first registration. -/
theorem exists_source_eq_iff {routes : List (Route α)} {r : Route α} :
    (∃ s ∈ routes, s.source = r.source) ↔ ∃ earlier, first? routes r = some earlier := by
  rw [← Option.isSome_iff_exists, first?, List.find?_isSome]
  simp only [decide_eq_true_eq]

/-- A source is new exactly if it has no first registration. -/
theorem first?_eq_none_iff {routes : List (Route α)} {r : Route α} :
    first? routes r = none ↔ ∀ s ∈ routes, s.source ≠ r.source := by
  rw [first?, List.find?_eq_none]
  simp only [decide_eq_true_eq, ne_eq]

/-- Routes in order that hold one more than others in order are these with the one inserted, behind
all that precede it and before all that it precedes. -/
theorem InOrder.exists_insertion {routes next : List (Route α)} {r : Route α} (h : InOrder routes)
    (hnext : InOrder next) (hperm : next.Perm (r :: routes)) :
    ∃ before after, routes = before ++ after ∧ next = before ++ r :: after ∧
      (∀ s ∈ before, Precedes s.template r.template) ∧
      ∀ s ∈ after, Precedes r.template s.template := by
  obtain ⟨before, after, rfl⟩ := List.append_of_mem (hperm.mem_iff.2 List.mem_cons_self)
  obtain ⟨hbefore, hafter, hbetween⟩ := List.pairwise_append.1 hnext
  rw [List.pairwise_cons] at hafter
  -- Without the one route the longer list is in order too, so it can only be the shorter one.
  have hothers : InOrder (before ++ after) :=
    List.pairwise_append.2 ⟨hbefore, hafter.2, fun s hs t ht =>
      hbetween s hs t (List.mem_cons_of_mem _ ht)⟩
  have hsame : routes.Perm (before ++ after) :=
    (List.perm_middle.symm.trans hperm).cons_inv.symm
  exact ⟨before, after, h.eq_of_perm hothers hsame, rfl,
    fun s hs => hbetween s hs r List.mem_cons_self, hafter.1⟩

namespace Builder

/-- Try to register what is asked for. -/
def submit (b : Builder α) : Request α → Except Template.Error (Builder α)
  | .ofTemplate template value => .ok (b.add template value)
  | .ofText text value => b.addText text value

/-- The builder behind a request: one that fails leaves it as it was. -/
def after (b : Builder α) (request : Request α) : Builder α :=
  match b.submit request with
  | .ok next => next
  | .error _ => b

/-- The builder behind some requests, one after the other. -/
def afterAll (b : Builder α) (requests : List (Request α)) : Builder α := requests.foldl after b

/-- A request enters its route behind the others, if it has one. -/
theorem submit_eq (b : Builder α) (request : Request α) :
    b.submit request = request.route.map fun r => ⟨b.entries ++ [r]⟩ := by
  cases request with
  | ofTemplate template value => rfl
  | ofText text value =>
    rw [submit, addText, Request.route]
    cases Template.parse text <;> rfl

/-- A request without a route fails and changes nothing. -/
theorem submit_of_error {b : Builder α} {request : Request α} {e : Template.Error}
    (h : request.route = .error e) : b.submit request = .error e ∧ b.after request = b := by
  have hsubmit : b.submit request = .error e := by
    rw [submit_eq, h]
    rfl
  exact ⟨hsubmit, by rw [after, hsubmit]⟩

/-- A request with a route succeeds and enters the route behind the others. -/
theorem submit_of_ok {b : Builder α} {request : Request α} {r : Route α}
    (h : request.route = .ok r) :
    b.submit request = .ok (b.after request) ∧ (b.after request).entries = b.entries ++ [r] := by
  have hsubmit : b.submit request = .ok ⟨b.entries ++ [r]⟩ := by
    rw [submit_eq, h]
    rfl
  have hafter : b.after request = ⟨b.entries ++ [r]⟩ := by rw [after, hsubmit]
  exact ⟨by rw [hsubmit, hafter], by rw [hafter]⟩

/-- Every builder is one that some calls have led to from an empty one. -/
theorem registers_entries (b : Builder α) : Registers b.entries b := by
  obtain ⟨entries⟩ := b
  induction entries using List.reverseRecOn with
  | nil => exact .empty
  | append_singleton routes r ih => exact ih.add r.template r.value

/-- Building orders the first registrations and reports the others. -/
theorem build_eq (b : Builder α) :
    b.build = (⟨sortBySpecificity (firsts b.entries)⟩, shadowings b.entries) := by
  rw [build, select_eq]

section

variable {b next : Builder α} {r : Route α} (hentries : next.entries = b.entries ++ [r])

include hentries

/-- A route whose source is registered leaves the table as it is and is reported behind the others,
with the first registration of its source. -/
theorem build_of_known {earlier : Route α} (h : first? b.entries r = some earlier) :
    next.build.1.routes = b.build.1.routes ∧
      next.build.2 = b.build.2 ++ [⟨r.template, earlier.template⟩] := by
  rw [build_eq, build_eq, hentries, firsts_concat, shadowings_concat, h]
  exact ⟨by simp, by simp⟩

/-- A route whose source is new is put into the table at its place, and nothing is reported. -/
theorem build_of_new (h : first? b.entries r = none) :
    (∃ before after, b.build.1.routes = before ++ after ∧
      next.build.1.routes = before ++ r :: after ∧
      (∀ s ∈ before, Precedes s.template r.template) ∧
      ∀ s ∈ after, Precedes r.template s.template) ∧
    next.build.2 = b.build.2 := by
  obtain ⟨hperm, horder⟩ := b.registers_entries.routes_build
  obtain ⟨hpermNext, horderNext⟩ := next.registers_entries.routes_build
  constructor
  · apply horder.exists_insertion horderNext
    calc next.build.1.routes.Perm (firsts next.entries) := hpermNext
      _ = firsts b.entries ++ [r] := by rw [hentries, firsts_concat, h]; rfl
      List.Perm _ (r :: firsts b.entries) := List.perm_append_singleton ..
      List.Perm _ (r :: b.build.1.routes) := hperm.symm.cons r
  · rw [build_eq, build_eq, hentries, shadowings_concat, h]
    simp

/-- One route more leaves the other routes of the table in their order and the reports in front. -/
theorem build_extends :
    b.build.1.routes.Sublist next.build.1.routes ∧ b.build.2 <+: next.build.2 := by
  cases h : first? b.entries r with
  | some earlier =>
    obtain ⟨hroutes, hreports⟩ := build_of_known hentries h
    rw [hroutes, hreports]
    exact ⟨List.Sublist.refl _, List.prefix_append ..⟩
  | none =>
    obtain ⟨⟨before, after, hroutes, hnext, -⟩, hreports⟩ := build_of_new hentries h
    rw [hroutes, hnext, hreports]
    exact ⟨(List.sublist_cons_self r after).append_left before, List.prefix_refl _⟩

end

/-- Whatever is asked for later, the routes of a table are in all later tables and in the same order,
and all later reports begin with those that there were. -/
theorem build_afterAll (b : Builder α) (requests : List (Request α)) :
    b.build.1.routes.Sublist (b.afterAll requests).build.1.routes ∧
      b.build.2 <+: (b.afterAll requests).build.2 := by
  induction requests generalizing b with
  | nil => exact ⟨List.Sublist.refl _, List.prefix_refl _⟩
  | cons request rest ih =>
    obtain ⟨hroutes, hreports⟩ := ih (b.after request)
    rw [afterAll, List.foldl_cons, ← afterAll]
    cases h : request.route with
    | error e =>
      rw [(submit_of_error h).2] at hroutes hreports ⊢
      exact ⟨hroutes, hreports⟩
    | ok r =>
      obtain ⟨hroutes', hreports'⟩ := build_extends (submit_of_ok (b := b) h).2
      exact ⟨hroutes'.trans hroutes, hreports'.trans hreports⟩

/-- A request whose template is refused fails, and the builder builds what it would have built
without it. Any other request succeeds. If the source of its template is registered, the table stays
as it is, and there is one report more, behind the others. If the source is new, the route is
inserted into the table behind all routes that precede it and before all that it precedes, and the
reports stay as they are. -/
theorem build_after (b : Builder α) (request : Request α) :
    (∀ e, request.route = .error e →
      b.submit request = .error e ∧ (b.after request).build = b.build) ∧
    ∀ r, request.route = .ok r →
      b.submit request = .ok (b.after request) ∧
      ((∃ s ∈ b.entries, s.source = r.source) →
        (b.after request).build.1.routes = b.build.1.routes ∧
        ∃ earlier, first? b.entries r = some earlier ∧
          (b.after request).build.2 = b.build.2 ++ [⟨r.template, earlier.template⟩]) ∧
      ((∀ s ∈ b.entries, s.source ≠ r.source) →
        (∃ before after, b.build.1.routes = before ++ after ∧
          (b.after request).build.1.routes = before ++ r :: after ∧
          (∀ s ∈ before, Precedes s.template r.template) ∧
          ∀ s ∈ after, Precedes r.template s.template) ∧
        (b.after request).build.2 = b.build.2) := by
  constructor
  · intro e h
    obtain ⟨hsubmit, hafter⟩ := submit_of_error h
    exact ⟨hsubmit, by rw [hafter]⟩
  · intro r h
    obtain ⟨hsubmit, hentries⟩ := submit_of_ok h
    refine ⟨hsubmit, ?_, ?_⟩
    · intro hknown
      obtain ⟨earlier, hearlier⟩ := exists_source_eq_iff.1 hknown
      obtain ⟨hroutes, hreports⟩ := build_of_known hentries hearlier
      exact ⟨hroutes, earlier, hearlier, hreports⟩
    · intro hnew
      exact build_of_new hentries (first?_eq_none_iff.2 hnew)

/-- A placeholder and a fixed path are registered. A text that does not compile, another name for the
placeholder and a template that stands between the two are asked for. -/
theorem build_after_placeholders :
    ∃ (x y z a : Template) (b : Builder Nat),
      b.entries = [⟨x, 1⟩, ⟨a, 2⟩] ∧ x.text = "/\x7bx\x7d" ∧ a.text = "/a" ∧
        (b.after (.ofText "/\x7bx" 3)).build = b.build ∧
        y.text = "/\x7by\x7d" ∧ (b.after (.ofText "/\x7by\x7d" 4)).build.1.routes = b.build.1.routes ∧
        (b.after (.ofText "/\x7by\x7d" 4)).build.2 = [⟨y, x⟩] ∧
        z.text = "/\x7bz\x7d-" ∧
        (b.after (.ofText "/\x7bz\x7d-" 5)).build.1.routes = [⟨a, 2⟩, ⟨z, 5⟩, ⟨x, 1⟩] ∧
        (b.after (.ofText "/\x7bz\x7d-" 5)).build.2 = [] := by
  have h : (match Template.parse "/\x7bx\x7d", Template.parse "/\x7by\x7d",
      Template.parse "/\x7bz\x7d-", Template.parse "/a", Template.parse "/\x7bx" with
    | .ok x, .ok y, .ok z, .ok a, .error _ =>
      decide ((x.text = "/\x7bx\x7d" ∧ y.text = "/\x7by\x7d" ∧ z.text = "/\x7bz\x7d-" ∧
          a.text = "/a") ∧
        (x.pattern.source = y.pattern.source ∧ x.pattern.source ≠ a.pattern.source ∧
          x.pattern.source ≠ z.pattern.source ∧ a.pattern.source ≠ z.pattern.source) ∧
        Precedes a z ∧ Precedes z x ∧ Template.compareSpecificity a x < 0)
    | _, _, _, _, _ => false) = true := by
    decide +kernel
  split at h
  · next x y z a e hx hy hz ha he =>
    obtain ⟨⟨hxtext, hytext, hztext, hatext⟩, ⟨hxy, hxa, hxz, haz⟩, hfirst, hsecond, hends⟩ :=
      of_decide_eq_true h
    let b : Builder Nat := ⟨[⟨x, 1⟩, ⟨a, 2⟩]⟩
    have hroutes : b.build = (⟨[⟨a, 2⟩, ⟨x, 1⟩]⟩, []) := by
      simp [b, build_eq, firsts, shadowings, histories, first?, source, hxa, sortBySpecificity,
        insertBySpecificity, hends]
    obtain ⟨-, hsame⟩ := (build_after b (.ofText "/\x7bx" 3)).1 e (by rw [Request.route, he]; rfl)
    obtain ⟨-, hknown, -⟩ := (build_after b (.ofText "/\x7by\x7d" 4)).2 ⟨y, 4⟩
      (by rw [Request.route, hy]; rfl)
    obtain ⟨hkept, earlier, hearlier, hreports⟩ := hknown ⟨⟨x, 1⟩, by simp [b], hxy⟩
    obtain rfl : ⟨x, 1⟩ = earlier := by simpa [b, first?, source, hxy] using hearlier
    obtain ⟨-, -, hnew⟩ := (build_after b (.ofText "/\x7bz\x7d-" 5)).2 ⟨z, 5⟩
      (by rw [Request.route, hz]; rfl)
    obtain ⟨⟨before, after, hsplit, hnext, hbefore, hafter⟩, hsilent⟩ :=
      hnew (by simpa [b] using ⟨hxz, haz⟩)
    rw [hroutes] at hsplit hreports hsilent
    refine ⟨x, y, z, a, b, rfl, hxtext, hatext, hsame, hytext, hkept, hreports, hztext, ?_, hsilent⟩
    rw [hnext]
    rcases before with _ | ⟨s, _ | ⟨t, more⟩⟩
    · obtain rfl : [⟨a, 2⟩, ⟨x, 1⟩] = after := hsplit
      exact absurd (hafter ⟨a, 2⟩ (by simp)) hfirst.asymm
    · obtain ⟨rfl, rfl⟩ := List.cons_eq_cons.1 hsplit
      rfl
    · obtain ⟨-, hbehind⟩ := List.cons_eq_cons.1 hsplit
      obtain ⟨rfl, -⟩ := List.cons_eq_cons.1 hbehind
      exact absurd (hbefore ⟨x, 1⟩ (by simp)) hsecond.asymm
  · cases h

end Builder

end Route

end UriRouting
