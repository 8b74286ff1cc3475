import UriRouting.Proofs.Template.FirstOccurrence
import UriRouting.Proofs.Template.Specificity
import UriRouting.Route.Table
import Mathlib.Data.List.Pairwise

/-!
# Registration order and the answers of a table

A table keeps the first registration of each source and tries the kept ones in the order of their
specificity, so it answers a path with the kept registration that precedes all others matching the
path (`winner?_eq_some_iff`). Which registration of a source is kept depends on the order of the
registrations, and with it where the source stands among the others. `winner?_perm_iff` says exactly
when this makes no difference: when all registrations of the source that wins precede all matching
registrations of other sources.
-/

namespace UriRouting

open Template (Precedes)

namespace Route

variable {α : Type}

/-- The source of the template of a route. -/
def source (r : Route α) : Text := r.template.pattern.source

/-- Whether a route matches a path. -/
def answers (path : Text) (r : Route α) : Bool := (answer? path r).isSome

/-- Register routes one after the other. -/
def register (routes : List (Route α)) : Builder α :=
  routes.foldl (fun b r => b.add r.template r.value) Builder.empty

/-- The source of the template with which a table of some registrations answers a path. -/
def winner? (routes : List (Route α)) (path : Text) : Option Text :=
  ((register routes).build.1.match? path).map fun found => found.template.pattern.source

/-- The registrations are entered in order. -/
theorem entries_register (routes : List (Route α)) : (register routes).entries = routes := by
  have from_builder (b : Builder α) :
      (routes.foldl (fun b r => b.add r.template r.value) b).entries = b.entries ++ routes := by
    induction routes generalizing b with
    | nil => simp
    | cons r rest ih => rw [List.foldl_cons, ih, Builder.add, List.append_assoc]; rfl
  exact from_builder Builder.empty

/-- The template that answers is that of the first route that matches. -/
theorem winner?_eq_find? (routes : List (Route α)) (path : Text) :
    winner? routes path =
      ((sortBySpecificity (select routes).kept).find? (answers path)).map source := by
  have from_list (l : List (Route α)) :
      (l.findSome? (answer? path)).map (fun found => found.template.pattern.source) =
        (l.find? (answers path)).map source := by
    induction l with
    | nil => rfl
    | cons r rest ih =>
      rw [List.findSome?_cons, List.find?_cons]
      cases h : r.template.params? path with
      | none => simp [answers, answer?, h, ih]
      | some params => simp [answers, answer?, h, source]
  rw [winner?, Builder.build, entries_register]
  exact from_list _

/-- What a selection keeps of the routes that it has seen: one of each source. -/
structure Selection.Covers (s : Selection α) (seen : List (Route α)) : Prop where
  mem : ∀ k ∈ s.kept, k ∈ seen
  distinct : s.kept.Pairwise fun a b => a.source ≠ b.source
  covered : ∀ r ∈ seen, ∃ k ∈ s.kept, k.source = r.source

/-- Only one kept route has a given source. -/
theorem Selection.Covers.eq_of_source_eq {s : Selection α} {seen : List (Route α)}
    (h : s.Covers seen) {a b : Route α} (ha : a ∈ s.kept) (hb : b ∈ s.kept)
    (hsource : a.source = b.source) : a = b := by
  have : Std.Symm fun a b : Route α => a.source ≠ b.source := ⟨fun _ _ h => h.symm⟩
  exact Classical.byContradiction fun hne => h.distinct.forall ha hb hne hsource

/-- A route is either dropped, its source being there already, or kept behind the others. -/
theorem Selection.consider_cases (s : Selection α) (r : Route α) :
    (∃ k ∈ s.kept, k.source = r.source ∧ (s.consider r).kept = s.kept) ∨
      (∀ k ∈ s.kept, k.source ≠ r.source) ∧ (s.consider r).kept = s.kept ++ [r] := by
  rw [consider]
  split
  · next k hk =>
    have hsame := List.find?_some hk
    exact .inl ⟨k, List.mem_of_find?_eq_some hk, of_decide_eq_true hsame, rfl⟩
  · next hnone =>
    refine .inr ⟨?_, rfl⟩
    intro k hk hsource
    have hsame : ¬ k.template.sameAs r.template = true := List.find?_eq_none.1 hnone k hk
    exact hsame (decide_eq_true hsource)

/-- Considering a route keeps one of each source. -/
theorem Selection.Covers.consider {s : Selection α} {seen : List (Route α)} (h : s.Covers seen)
    (r : Route α) : (s.consider r).Covers (seen ++ [r]) := by
  obtain ⟨k, hk, hsource, hkept⟩ | ⟨hnew, hkept⟩ := s.consider_cases r
  · refine ⟨?_, ?_, ?_⟩ <;> rw [hkept]
    · intro k hk
      exact List.mem_append_left _ (h.mem k hk)
    · exact h.distinct
    · intro r' hr'
      rcases List.mem_append.1 hr' with hr' | hr'
      · exact h.covered r' hr'
      · obtain rfl := List.mem_singleton.1 hr'
        exact ⟨k, hk, hsource⟩
  · refine ⟨?_, ?_, ?_⟩ <;> rw [hkept]
    · intro k hk
      rcases List.mem_append.1 hk with hk | hk
      · exact List.mem_append_left _ (h.mem k hk)
      · exact List.mem_append_right _ hk
    · apply List.pairwise_append.2 ⟨h.distinct, List.pairwise_singleton .., ?_⟩
      intro a ha b hb
      obtain rfl := List.mem_singleton.1 hb
      exact hnew a ha
    · intro r' hr'
      rcases List.mem_append.1 hr' with hr' | hr'
      · obtain ⟨k, hk, hsource⟩ := h.covered r' hr'
        exact ⟨k, List.mem_append_left _ hk, hsource⟩
      · exact ⟨r', List.mem_append_right _ hr', rfl⟩

/-- Considering routes one after the other keeps one of each source, and what has been kept stays. -/
theorem Selection.Covers.foldl {s : Selection α} {seen : List (Route α)} (h : s.Covers seen)
    (rest : List (Route α)) :
    (rest.foldl Selection.consider s).Covers (seen ++ rest) ∧
      ∀ k ∈ s.kept, k ∈ (rest.foldl Selection.consider s).kept := by
  induction rest generalizing s seen with
  | nil => exact ⟨by simpa using h, fun k hk => hk⟩
  | cons r rest ih =>
    obtain ⟨hcovers, hstays⟩ := ih (h.consider r)
    refine ⟨by simpa using hcovers, ?_⟩
    intro k hk
    apply hstays k
    obtain ⟨-, -, -, hkept⟩ | ⟨-, hkept⟩ := s.consider_cases r
    · rwa [hkept]
    · rw [hkept]
      exact List.mem_append_left _ hk

/-- A selection of nothing. -/
theorem Selection.covers_nil : Selection.Covers (⟨[], []⟩ : Selection α) [] :=
  ⟨by simp, .nil, by simp⟩

/-- What is selected of some routes: one of each source. -/
theorem select_covers (routes : List (Route α)) : (select routes).Covers routes :=
  (Selection.covers_nil.foldl routes).1

/-- The first two routes are kept if their sources differ. -/
theorem mem_kept_of_first {a b : Route α} (hne : a.source ≠ b.source) (rest : List (Route α)) :
    a ∈ (select (a :: b :: rest)).kept ∧ b ∈ (select (a :: b :: rest)).kept := by
  have hfirst : Selection.consider ⟨[], []⟩ a = ⟨[a], []⟩ := rfl
  have hsecond : (Selection.consider ⟨[a], []⟩ b).kept = [a, b] := by
    obtain ⟨k, hk, hsource, -⟩ | ⟨-, hkept⟩ := Selection.consider_cases ⟨[a], []⟩ b
    · obtain rfl := List.mem_singleton.1 hk
      exact absurd hsource hne
    · exact hkept
  have hcovers : (Selection.consider ⟨[a], []⟩ b).Covers ([] ++ [a] ++ [b]) :=
    hfirst ▸ (Selection.covers_nil.consider a).consider b
  have hstays := (hcovers.foldl rest).2
  rw [hsecond] at hstays
  exact ⟨hstays a (by simp), hstays b (by simp)⟩

/-- Routes in order: each is more specific than all behind it. -/
def InOrder (routes : List (Route α)) : Prop :=
  routes.Pairwise fun a b => Precedes a.template b.template

/-- Routes in order have different sources. -/
theorem InOrder.source_ne {before after : List (Route α)} {r : Route α}
    (h : InOrder (before ++ r :: after)) : ∀ s ∈ before ++ after, r.source ≠ s.source := by
  have hdistinct : (before ++ r :: after).Pairwise fun a b => a.source ≠ b.source :=
    h.imp Template.Precedes.source_ne
  have hmiddle := (List.perm_middle.pairwise_iff fun hne => hne.symm).1 hdistinct
  exact (List.pairwise_cons.1 hmiddle).1

/-- Inserting a route of a new source keeps routes in order. -/
theorem InOrder.insert {routes : List (Route α)} (h : InOrder routes) {r : Route α}
    (hne : ∀ s ∈ routes, r.source ≠ s.source) : InOrder (insertBySpecificity r routes) := by
  induction routes with
  | nil => exact List.pairwise_singleton ..
  | cons s rest ih =>
    obtain ⟨hs, hrest⟩ := List.pairwise_cons.1 h
    rw [List.forall_mem_cons] at hne
    rw [insertBySpecificity]
    split
    · next hlt =>
      apply List.pairwise_cons.2 ⟨?_, h⟩
      rw [List.forall_mem_cons]
      exact ⟨hlt, fun b hb => Precedes.trans hlt (hs b hb) (hne.2 b hb)⟩
    · next hlt =>
      apply List.pairwise_cons.2 ⟨?_, ih hrest hne.2⟩
      intro b hb
      rcases List.mem_cons.1 ((insertBySpecificity_perm r rest).mem_iff.1 hb) with rfl | hb
      · exact (Template.precedes_total hne.1).resolve_left hlt
      · exact hs b hb

/-- Ordering routes of different sources puts them in order. -/
theorem inOrder_sortBySpecificity {routes : List (Route α)}
    (h : routes.Pairwise fun a b => a.source ≠ b.source) :
    InOrder (sortBySpecificity routes) := by
  have from_sorted (rest sorted : List (Route α)) (hsorted : InOrder sorted)
      (hne : (sorted ++ rest).Pairwise fun a b => a.source ≠ b.source) :
      InOrder (rest.foldl (fun sorted r => insertBySpecificity r sorted) sorted) := by
    induction rest generalizing sorted with
    | nil => exact hsorted
    | cons r rest ih =>
      have hmiddle := (List.perm_middle.pairwise_iff fun h => h.symm).1 hne
      refine ih _ ?_ ?_
      · apply hsorted.insert
        intro s hs
        exact (List.pairwise_cons.1 hmiddle).1 s (List.mem_append_left _ hs)
      · exact (((insertBySpecificity_perm r sorted).append_right rest).pairwise_iff
          fun h => h.symm).2 hmiddle
  exact from_sorted routes [] .nil h

/-- A path is answered with the kept registration that precedes all others that match it. -/
theorem winner?_eq_some_iff {routes : List (Route α)} {path s : Text} :
    winner? routes path = some s ↔
      ∃ a ∈ (select routes).kept, answers path a = true ∧ a.source = s ∧
        ∀ b ∈ (select routes).kept, answers path b = true → b.source ≠ s →
          Precedes a.template b.template := by
  have hdistinct := (select_covers routes).distinct
  have horder := inOrder_sortBySpecificity hdistinct
  have hperm := sortBySpecificity_perm (select routes).kept
  rw [winner?_eq_find?, Option.map_eq_some_iff]
  constructor
  · intro h
    obtain ⟨a, hfind, rfl⟩ := h
    refine ⟨a, hperm.mem_iff.1 (List.mem_of_find?_eq_some hfind), List.find?_some hfind, rfl, ?_⟩
    intro b hb hanswers hne
    rcases rel_of_find? horder hfind (hperm.mem_iff.2 hb) hanswers with rfl | hlt
    · exact absurd rfl hne
    · exact hlt
  · intro h
    obtain ⟨a, ha, hanswers, rfl, hleast⟩ := h
    obtain ⟨w, hfind⟩ := Option.isSome_iff_exists.1
      (List.find?_isSome.2 ⟨a, hperm.mem_iff.2 ha, hanswers⟩)
    refine ⟨w, hfind, ?_⟩
    by_contra hne
    have hw : w ∈ (select routes).kept := hperm.mem_iff.1 (List.mem_of_find?_eq_some hfind)
    rcases rel_of_find? horder hfind (hperm.mem_iff.2 ha) hanswers with rfl | hlt
    · exact hne rfl
    · exact hlt.asymm (hleast w hw (List.find?_some hfind) hne)

/-- Routes whose templates have been constructed match the same paths if their sources are equal. -/
theorem answers_congr {a b : Route α} (ha : a.template.Constructed) (hb : b.template.Constructed)
    (h : a.source = b.source) (path : Text) : answers path a = answers path b := by
  simpa [answers, answer?] using Template.params?_isSome_congr ha hb h path

/-- A path that no registration matches has no answer. -/
theorem winner?_eq_none_iff {routes : List (Route α)}
    (hconstructed : ∀ r ∈ routes, r.template.Constructed) (path : Text) :
    winner? routes path = none ↔ ∀ r ∈ routes, answers path r = false := by
  have hcovers := select_covers routes
  have hperm := sortBySpecificity_perm (select routes).kept
  rw [winner?_eq_find?, Option.map_eq_none_iff, List.find?_eq_none]
  constructor
  · intro h r hr
    obtain ⟨k, hk, hsource⟩ := hcovers.covered r hr
    rw [← answers_congr (hconstructed k (hcovers.mem k hk)) (hconstructed r hr) hsource]
    exact Bool.eq_false_iff.2 (h k (hperm.mem_iff.2 hk))
  · intro h k hk
    rw [h k (hcovers.mem k (hperm.mem_iff.1 hk))]
    exact Bool.false_ne_true

/-- A matching source whose registrations all precede those of other matching sources answers. -/
theorem winner?_eq_some_of_precedes {routes : List (Route α)}
    (hconstructed : ∀ r ∈ routes, r.template.Constructed) {path : Text} {w : Route α}
    (hw : w ∈ routes) (hanswers : answers path w = true)
    (hprecedes : ∀ a ∈ routes, a.source = w.source → ∀ b ∈ routes, answers path b = true →
      b.source ≠ w.source → Precedes a.template b.template) :
    winner? routes path = some w.source := by
  have hcovers := select_covers routes
  obtain ⟨k, hk, hsource⟩ := hcovers.covered w hw
  have hkmem := hcovers.mem k hk
  apply winner?_eq_some_iff.2
  refine ⟨k, hk, ?_, hsource, ?_⟩
  · rw [answers_congr (hconstructed k hkmem) (hconstructed w hw) hsource, hanswers]
  · intro b hb
    exact hprecedes k hkmem hsource b (hcovers.mem b hb)

/-- If a source answers whatever the order of the registrations is, each of its registrations
precedes every matching registration of another source. -/
theorem precedes_of_winner?_perm {routes : List (Route α)} {path s : Text}
    (h : ∀ others : List (Route α), others.Perm routes → winner? others path = some s)
    {a b : Route α} (ha : a ∈ routes) (hsource : a.source = s) (hb : b ∈ routes)
    (hanswers : answers path b = true) (hne : b.source ≠ s) : Precedes a.template b.template := by
  -- Registered before all others, the two are both kept, so the first has to precede the second.
  obtain ⟨before, after, rfl⟩ := List.append_of_mem ha
  have hb : b ∈ before ++ after := by
    rcases List.mem_cons.1 (List.perm_middle.mem_iff.1 hb) with rfl | hb
    · exact absurd hsource hne
    · exact hb
  obtain ⟨front, back, hsplit⟩ := List.append_of_mem hb
  have hperm : (a :: b :: (front ++ back)).Perm (before ++ a :: after) := by
    apply (List.Perm.cons a ?_).trans List.perm_middle.symm
    rw [hsplit]
    exact List.perm_middle.symm
  obtain ⟨k, hk, -, hksource, hleast⟩ := winner?_eq_some_iff.1 (h _ hperm)
  obtain ⟨hakept, hbkept⟩ :=
    mem_kept_of_first (hsource.trans_ne hne.symm) (front ++ back)
  obtain rfl : k = a := (select_covers _).eq_of_source_eq hk hakept (hksource.trans hsource.symm)
  exact hleast b hbkept hanswers hne

/-- The order of the registrations makes no difference to the source that answers a path exactly if
no registration matches the path, or all registrations of one matching source precede all matching
registrations of others. -/
theorem winner?_perm_iff {routes : List (Route α)}
    (hconstructed : ∀ r ∈ routes, r.template.Constructed) (path : Text) :
    (∀ others : List (Route α), others.Perm routes → winner? others path = winner? routes path) ↔
      (∀ r ∈ routes, answers path r = false) ∨
        ∃ w ∈ routes, answers path w = true ∧ ∀ a ∈ routes, a.source = w.source →
          ∀ b ∈ routes, answers path b = true → b.source ≠ w.source →
            Precedes a.template b.template := by
  constructor
  · intro h
    cases hwinner : winner? routes path with
    | none => exact .inl ((winner?_eq_none_iff hconstructed path).1 hwinner)
    | some s =>
      obtain ⟨w, hw, hanswers, rfl, -⟩ := winner?_eq_some_iff.1 hwinner
      rw [hwinner] at h
      exact .inr ⟨w, (select_covers routes).mem w hw, hanswers,
        fun a ha hsource b hb => precedes_of_winner?_perm h ha hsource hb⟩
  · intro h others hperm
    have hothers : ∀ r ∈ others, r.template.Constructed :=
      fun r hr => hconstructed r (hperm.mem_iff.1 hr)
    rcases h with hnone | ⟨w, hw, hanswers, hprecedes⟩
    · rw [(winner?_eq_none_iff hconstructed path).2 hnone, winner?_eq_none_iff hothers]
      intro r hr
      exact hnone r (hperm.mem_iff.1 hr)
    · rw [winner?_eq_some_of_precedes hconstructed hw hanswers hprecedes]
      exact winner?_eq_some_of_precedes hothers (hperm.mem_iff.2 hw) hanswers
        fun a ha hsource b hb => hprecedes a (hperm.mem_iff.1 ha) hsource b (hperm.mem_iff.1 hb)

/-- The registrations of a numeric and of a free identifier and of a fixed path: the numeric one
answers a number in every order. -/
theorem winner?_perm_users :
    ∃ a b c, Template.parse "/users/\x7bid\x7d" = .ok a ∧ Template.parse "/users/me" = .ok b ∧
      Template.parse "/users/\x7bid:\\d+\x7d" = .ok c ∧
      ∀ others : List (Route Unit), others.Perm [⟨a, ()⟩, ⟨b, ()⟩, ⟨c, ()⟩] →
        winner? others "/users/42" = winner? [⟨a, ()⟩, ⟨b, ()⟩, ⟨c, ()⟩] "/users/42" := by
  have h : (match Template.parse "/users/\x7bid\x7d", Template.parse "/users/me",
      Template.parse "/users/\x7bid:\\d+\x7d" with
    | .ok a, .ok b, .ok c =>
      let routes : List (Route Unit) := [⟨a, ()⟩, ⟨b, ()⟩, ⟨c, ()⟩]
      decide (∃ w ∈ routes, answers "/users/42" w = true ∧ ∀ a ∈ routes, a.source = w.source →
        ∀ b ∈ routes, answers "/users/42" b = true → b.source ≠ w.source →
          Precedes a.template b.template)
    | _, _, _ => false) = true := by
    decide +kernel
  split at h
  · next a b c ha hb hc =>
    have hconstructed : ∀ r ∈ ([⟨a, ()⟩, ⟨b, ()⟩, ⟨c, ()⟩] : List (Route Unit)),
        r.template.Constructed := by
      simp only [List.forall_mem_cons]
      exact ⟨.inr ⟨_, ha⟩, .inr ⟨_, hb⟩, .inr ⟨_, hc⟩, by simp⟩
    exact ⟨a, b, c, ha, hb, hc, (winner?_perm_iff hconstructed _).2 (.inr (of_decide_eq_true h))⟩
  · cases h

/-- One placeholder written with its default constraint and without, and a third template between
the two: the first of the two that is registered decides whether their source answers. -/
theorem winner?_ne_of_swap :
    ∃ a b c, Template.parse "\x7bx\x7d" = .ok a ∧ Template.parse "\x7bx:[^/]+\x7d" = .ok b ∧
      Template.parse "a\x7by\x7d" = .ok c ∧
      ([⟨b, ()⟩, ⟨a, ()⟩, ⟨c, ()⟩] : List (Route Unit)).Perm [⟨a, ()⟩, ⟨b, ()⟩, ⟨c, ()⟩] ∧
      winner? ([⟨b, ()⟩, ⟨a, ()⟩, ⟨c, ()⟩] : List (Route Unit)) "ab" ≠
        winner? ([⟨a, ()⟩, ⟨b, ()⟩, ⟨c, ()⟩] : List (Route Unit)) "ab" := by
  have h : (match Template.parse "\x7bx\x7d", Template.parse "\x7bx:[^/]+\x7d",
      Template.parse "a\x7by\x7d" with
    | .ok a, .ok b, .ok c =>
      decide (winner? ([⟨b, ()⟩, ⟨a, ()⟩, ⟨c, ()⟩] : List (Route Unit)) "ab" ≠
        winner? ([⟨a, ()⟩, ⟨b, ()⟩, ⟨c, ()⟩] : List (Route Unit)) "ab")
    | _, _, _ => false) = true := by
    decide +kernel
  split at h
  · next a b c ha hb hc => exact ⟨a, b, c, ha, hb, hc, .swap .., of_decide_eq_true h⟩
  · cases h

end Route

end UriRouting
