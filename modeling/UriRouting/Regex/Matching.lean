import UriRouting.Regex.Node

/-!
# Matching

Matching is backtracking search: alternatives are tried from left to right, a greedy repetition
tries more before less and a lazy one less before more, and the first way to reach the end of the
whole expression wins. `Node.run` takes what is still to be matched as a continuation, so that a
later failure comes back to the choices before it.

A repetition forgets what its body captured whenever the body begins again, so what an iteration can
do depends on its position alone. Beyond the lower bound only iterations that move are taken, and so
no more of them than units are left. Up to the lower bound an iteration may stay where it is, and one
that stays may be taken any number of times; so a lower bound beyond the number of units that are
left asks for one iteration more than that number. Lookbehinds match leftwards, from the last term
to the first.
-/

namespace UriRouting

namespace Regex

/-- A position in a text, with the units before it, nearest first, those after it and their number,
and the texts of the capturing groups so far. -/
structure Cursor where
  before : Text
  after : Text
  left : Nat
  captures : List (Option Text)
  left_eq : left = after.length
  deriving DecidableEq

namespace Cursor

/-- The start of a text in which no group has matched. -/
def start (t : Text) (groupCount : Nat) : Cursor :=
  ⟨[], t, t.length, List.replicate groupCount none, rfl⟩

/-- Step over one unit that passes a test. -/
def advance (direction : Direction) (test : CodeUnit → Bool) (s : Cursor) : Option Cursor :=
  match direction with
  | .forward =>
    match h : s.after with
    | [] => none
    | u :: rest =>
      if test u then
        some ⟨u :: s.before, rest, s.left - 1, s.captures, by rw [s.left_eq, h]; rfl⟩
      else none
  | .backward =>
    match s.before with
    | [] => none
    | u :: rest =>
      if test u then
        some ⟨rest, u :: s.after, s.left + 1, s.captures, by rw [s.left_eq]; rfl⟩
      else none

/-- Step over a text, given in the order in which it is met. -/
def follow (direction : Direction) : Text → Cursor → Option Cursor
  | [], s => some s
  | u :: rest, s => (s.advance direction (· = u)).bind (follow direction rest)

/-- The number of units that are left in a direction. -/
def room (direction : Direction) (s : Cursor) : Nat :=
  match direction with
  | .forward => s.left
  | .backward => s.before.length

/-- Whether the nearest of some units is a word unit. -/
def wordAt : Text → Bool
  | [] => false
  | u :: _ => CodeUnit.isWord u

/-- Whether a condition holds at a position. -/
def holds (s : Cursor) : Assertion → Bool
  | .start => s.before.isEmpty
  | .finish => s.after.isEmpty
  | .boundary => wordAt s.before != wordAt s.after
  | .noBoundary => wordAt s.before == wordAt s.after

/-- The text from a position to one further right. -/
def textTo (first last : Cursor) : Text := first.after.take (first.left - last.left)

/-- Record the text between the two ends of a group. -/
def record (index : Nat) (direction : Direction) (start finish : Cursor) : Cursor :=
  let text :=
    match direction with
    | .forward => start.textTo finish
    | .backward => finish.textTo start
  { finish with captures := finish.captures.set (index - 1) (some text) }

/-- The text of a group, which is empty while the group has none. -/
def captured (s : Cursor) (index : Nat) : Text := (s.captures[index - 1]?).join.getD []

/-- Forget the texts of some groups. -/
def forget (groups : List Nat) (s : Cursor) : Cursor :=
  if groups = [] then s
  else { s with captures := s.captures.mapIdx fun i text => if i + 1 ∈ groups then none else text }

end Cursor

/-- What is done with a position that has been reached. -/
abbrev Continuation := Cursor → Option Cursor

/-- Do something a number of times, one after the other. -/
def exactly (once : Continuation → Continuation) : Nat → Continuation → Continuation
  | 0, k => k
  | n + 1, k => once (exactly once n k)

/-- Do something at most a number of times, each time moving. -/
def upTo (greedy : Bool) (once : Continuation → Continuation) :
    Nat → Continuation → Continuation
  | 0, k => k
  | n + 1, k => fun s =>
    let more (_ : Unit) : Option Cursor :=
      once (fun t => if t.left = s.left then none else upTo greedy once n k t) s
    if greedy then (more ()).orElse fun _ => k s else (k s).orElse more

/-- How many iterations the lower bound asks for, with so much room left. -/
def Quantifier.required (q : Quantifier) (room : Nat) : Nat := Nat.min q.min (room + 1)

/-- How many iterations beyond the lower bound can move, with so much room left. -/
def Quantifier.extra (q : Quantifier) (room : Nat) : Nat :=
  match q.max with
  | none => room
  | some most => Nat.min (most - q.min) room

/-- Match an expression from a position on, then go on with the continuation. -/
def Node.run : Node → Direction → Continuation → Continuation
  | .empty, _, k => k
  | .unit u, direction, k => fun s => (s.advance direction (· = u)).bind k
  | .set c, direction, k => fun s => (s.advance direction c.contains).bind k
  | .assertion a, _, k => fun s => if s.holds a then k s else none
  | .backReference index, direction, k => fun s =>
    let text := s.captured index
    let units := match direction with
      | .forward => text
      | .backward => text.reverse
    (s.follow direction units).bind k
  | .group index body, direction, k => fun s =>
    body.run direction (fun t => k (Cursor.record index direction s t)) s
  | .look side negated body, _, k => fun s =>
    match body.run side some s with
    | some t => if negated then none else k { s with captures := t.captures }
    | none => if negated then k s else none
  | .repetition q body, direction, k =>
    let groups := body.groups
    let once (k : Continuation) : Continuation := fun s => body.run direction k (s.forget groups)
    fun s =>
      exactly once (q.required (s.room direction))
        (fun t => upTo q.greedy once (q.extra (t.room direction)) k t) s
  | .seq first second, direction, k =>
    match direction with
    | .forward => first.run direction (second.run direction k)
    | .backward => second.run direction (first.run direction k)
  | .alt first second, direction, k => fun s =>
    (first.run direction k s).orElse fun _ => second.run direction k s

/-- Match an expression at the first position where it matches, from the given one on and at most so
many units after it. -/
def Node.search (root : Node) : Nat → Cursor → Option Cursor
  | 0, s => root.run .forward some s
  | n + 1, s =>
    (root.run .forward some s).orElse fun _ =>
      (s.advance .forward fun _ => true).bind (root.search n)

/-- The texts of the groups of the first match in a text; a group that took no part has none. -/
def exec? (r : Regex) (t : Text) : Option (List (Option Text)) :=
  (r.root.search t.length (Cursor.start t r.groupCount)).map Cursor.captures

end Regex

end UriRouting
