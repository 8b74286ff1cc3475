import UriRouting.Proofs.Regex.Anchoring
import UriRouting.Regex.Matching

/-!
# The ways to match an expression

`Node.ways` lists the positions that an expression can be matched to from a position, in the order in
which the search tries them. Matching with a continuation is taking the first way that the
continuation goes on from (`run_eq_findSome?`), and an anchored expression matches a text if one of
its ways from the start reaches the end (`exec?_anchored`).
-/

namespace UriRouting

namespace Regex

/-- The ways to do something a number of times. -/
def waysExactly (once : Cursor → List Cursor) : Nat → Cursor → List Cursor
  | 0, s => [s]
  | n + 1, s => (once s).flatMap (waysExactly once n)

/-- The ways to do something at most a number of times, each time moving. -/
def waysUpTo (greedy : Bool) (once : Cursor → List Cursor) : Nat → Cursor → List Cursor
  | 0, s => [s]
  | n + 1, s =>
    let more := (once s).flatMap fun t =>
      if t.left = s.left then [] else waysUpTo greedy once n t
    if greedy then more ++ [s] else s :: more

/-- The ways to match an expression, in the order in which they are tried. -/
def Node.ways : Node → Direction → Cursor → List Cursor
  | .empty, _, s => [s]
  | .unit u, direction, s => (s.advance direction (· = u)).toList
  | .set c, direction, s => (s.advance direction c.contains).toList
  | .assertion a, _, s => if s.holds a then [s] else []
  | .backReference index, direction, s =>
    let units := match direction with
      | .forward => s.captured index
      | .backward => (s.captured index).reverse
    (s.follow direction units).toList
  | .group index body, direction, s => (body.ways direction s).map (Cursor.record index direction s)
  | .look side negated body, _, s =>
    match body.ways side s with
    | t :: _ => if negated then [] else [{ s with captures := t.captures }]
    | [] => if negated then [s] else []
  | .repetition q body, direction, s =>
    let once (s : Cursor) : List Cursor := body.ways direction (s.forget body.groups)
    (waysExactly once (q.required (s.room direction)) s).flatMap fun t =>
      waysUpTo q.greedy once (q.extra (t.room direction)) t
  | .seq first second, direction, s =>
    match direction with
    | .forward => (first.ways .forward s).flatMap (second.ways .forward)
    | .backward => (second.ways .backward s).flatMap (first.ways .backward)
  | .alt first second, direction, s => first.ways direction s ++ second.ways direction s

/-- Going on from the first way of several choices is going on from the first way of each. -/
theorem findSome?_flatMap {α β γ : Type} (l : List α) (f : α → List β) (k : β → Option γ) :
    (l.flatMap f).findSome? k = l.findSome? fun a => (f a).findSome? k := by
  induction l with
  | nil => rfl
  | cons a rest ih =>
    rw [List.flatMap_cons, List.findSome?_append, ih, List.findSome?_cons]
    cases (f a).findSome? k <;> rfl

/-- Going on from the one way of a step, if there is one. -/
theorem findSome?_toList {α β : Type} (o : Option α) (k : α → Option β) :
    o.toList.findSome? k = o.bind k := by
  cases o with
  | none => rfl
  | some a => cases h : k a <;> simp [h]

/-- Doing something a number of times takes the first way that leads on. -/
theorem exactly_eq_findSome? {once : Continuation → Continuation} {ways : Cursor → List Cursor}
    (h : ∀ k s, once k s = (ways s).findSome? k) (n : Nat) (k : Continuation) (s : Cursor) :
    exactly once n k s = (waysExactly ways n s).findSome? k := by
  induction n generalizing s with
  | zero => cases hk : k s <;> simp [exactly, waysExactly, hk]
  | succ n ih =>
    rw [exactly, waysExactly, h, findSome?_flatMap]
    exact congrArg (List.findSome? · _) (funext ih)

/-- Doing something at most a number of times takes the first way that leads on. -/
theorem upTo_eq_findSome? {once : Continuation → Continuation} {ways : Cursor → List Cursor}
    (h : ∀ k s, once k s = (ways s).findSome? k) (greedy : Bool) (n : Nat) (k : Continuation)
    (s : Cursor) : upTo greedy once n k s = (waysUpTo greedy ways n s).findSome? k := by
  induction n generalizing s with
  | zero => cases hk : k s <;> simp [upTo, waysUpTo, hk]
  | succ n ih =>
    have hmore : once (fun t => if t.left = s.left then none else upTo greedy once n k t) s =
        ((ways s).flatMap fun t =>
          if t.left = s.left then [] else waysUpTo greedy ways n t).findSome? k := by
      rw [h, findSome?_flatMap]
      apply congrArg (List.findSome? · _)
      funext t
      split
      · rfl
      · exact ih t
    simp only [upTo, waysUpTo, hmore]
    cases greedy with
    | true =>
      simp only [if_true, List.findSome?_append]
      cases List.findSome? k _ <;> cases hk : k s <;> simp [hk]
    | false =>
      simp only [Bool.false_eq_true, if_false, List.findSome?_cons]
      cases k s <;> rfl

/-- Matching an expression takes the first of its ways from which the continuation goes on. -/
theorem Node.run_eq_findSome? (n : Node) (direction : Direction) (k : Continuation) (s : Cursor) :
    n.run direction k s = (n.ways direction s).findSome? k := by
  induction n generalizing direction k s with
  | empty => cases hk : k s <;> simp [run, ways, hk]
  | unit u => rw [run, ways, findSome?_toList]
  | set c => rw [run, ways, findSome?_toList]
  | assertion a =>
    simp only [run, ways]
    split
    · cases hk : k s <;> simp [hk]
    · rfl
  | backReference index =>
    simp only [run, ways]
    exact (findSome?_toList _ _).symm
  | group index body ih =>
    simp only [run, ways]
    rw [ih, List.findSome?_map]
    rfl
  | look side negated body ih =>
    simp only [run, ways, ih]
    cases body.ways side s with
    | nil => cases negated <;> cases hk : k s <;> simp [hk]
    | cons t rest =>
      cases negated with
      | true => simp
      | false => cases hk : k { s with captures := t.captures } <;> simp [hk]
  | repetition q body ih =>
    simp only [run, ways]
    rw [exactly_eq_findSome? (fun k s => ih direction k (s.forget body.groups)), findSome?_flatMap]
    exact congrArg (List.findSome? · _)
      (funext fun t => upTo_eq_findSome? (fun k s => ih direction k (s.forget body.groups)) ..)
  | seq first second ihfirst ihsecond =>
    cases direction with
    | forward =>
      simp only [run, ways]
      rw [ihfirst, findSome?_flatMap]
      exact congrArg (List.findSome? · _) (funext (ihsecond .forward k))
    | backward =>
      simp only [run, ways]
      rw [ihsecond, findSome?_flatMap]
      exact congrArg (List.findSome? · _) (funext (ihfirst .backward k))
  | alt first second ihfirst ihsecond =>
    simp only [run, ways, ihfirst, ihsecond, List.findSome?_append]
    cases List.findSome? k _ <;> rfl

/-- The ways of terms in sequence. -/
theorem Node.ways_sequence_cons (first : Node) (rest : List Node) (s : Cursor) :
    (sequence (first :: rest)).ways .forward s =
      (first.ways .forward s).flatMap ((sequence rest).ways .forward) := rfl

/-- The terms of two sequences are matched one sequence after the other. -/
theorem Node.ways_sequence_append (a b : List Node) (s : Cursor) :
    (sequence (a ++ b)).ways .forward s =
      ((sequence a).ways .forward s).flatMap ((sequence b).ways .forward) := by
  induction a generalizing s with
  | nil => simp [sequence, ways]
  | cons n rest ih =>
    rw [List.cons_append, ways_sequence_cons, ways_sequence_cons, List.flatMap_assoc]
    exact congrArg (List.flatMap · _) (funext ih)

/-- The ways of an anchored expression are those from the start of the text to its end. -/
theorem Node.ways_anchored (root : Node) (s : Cursor) :
    root.anchored.ways .forward s =
      if s.holds .start then (root.ways .forward s).filter (·.holds .finish) else [] := by
  have hfinish (l : List Cursor) :
      l.flatMap ((sequence [.assertion .finish]).ways .forward) = l.filter (·.holds .finish) := by
    induction l with
    | nil => rfl
    | cons t rest ih =>
      rw [List.flatMap_cons, ih, ways_sequence_cons]
      by_cases h : t.holds .finish <;> simp [ways, h, sequence]
  rw [anchored, ways_sequence_cons]
  by_cases h : s.holds .start
  · simp only [ways, h, if_true, List.flatMap_cons, List.flatMap_nil, List.append_nil]
    rw [ways_sequence_cons, hfinish]
  · simp [ways, h]

/-- Behind a step forward there is a unit before. -/
theorem before_ne_nil_of_advance {test : CodeUnit → Bool} {s t : Cursor}
    (h : s.advance .forward test = some t) : t.before ≠ [] := by
  rw [Cursor.advance] at h
  split at h
  · cases h
  · split at h
    · obtain rfl := Option.some.inj h
      exact List.cons_ne_nil _ _
    · cases h

/-- Away from the start of a text, an anchored expression matches nowhere. -/
theorem search_anchored_of_before (root : Node) (n : Nat) {s : Cursor} (h : s.before ≠ []) :
    root.anchored.search n s = none := by
  have hrun (s : Cursor) (h : s.before ≠ []) : root.anchored.run .forward some s = none := by
    rw [Node.run_eq_findSome?, Node.ways_anchored, if_neg (by simpa [Cursor.holds] using h)]
    rfl
  induction n generalizing s with
  | zero => exact hrun s h
  | succ n ih =>
    rw [Node.search, hrun s h, Option.orElse_none]
    cases hadvance : s.advance .forward fun _ => true with
    | none => rfl
    | some t => exact ih (before_ne_nil_of_advance hadvance)

/-- An anchored expression matches a text in the first way from its start to its end. -/
theorem exec?_anchored (root : Node) (groupCount : Nat) (text : Text) :
    exec? ⟨root.anchored, groupCount⟩ text =
      ((root.ways .forward (Cursor.start text groupCount)).find? (·.after.isEmpty)).map
        Cursor.captures := by
  have hrun : root.anchored.run .forward some (Cursor.start text groupCount) =
      (root.ways .forward (Cursor.start text groupCount)).find? (·.after.isEmpty) := by
    have hstart : (Cursor.start text groupCount).holds .start = true := rfl
    rw [Node.run_eq_findSome?, Node.ways_anchored, if_pos hstart, ← List.head?_filterMap,
      List.filterMap_some, List.head?_filter]
    rfl
  have hsearch : root.anchored.search text.length (Cursor.start text groupCount) =
      root.anchored.run .forward some (Cursor.start text groupCount) := by
    cases text.length with
    | zero => rfl
    | succ n =>
      rw [Node.search]
      cases hadvance : (Cursor.start text groupCount).advance .forward fun _ => true with
      | none => simp
      | some t =>
        rw [Option.bind_some, search_anchored_of_before root n (before_ne_nil_of_advance hadvance)]
        simp
  rw [exec?, hsearch, hrun]

end Regex

end UriRouting
