import UriRouting.Regex.Reader

/-!
# Expressions with other group numbers

`Renumbers` says of a map of expressions that it gives the groups of an expression other numbers and
leaves the shape around them alone. The reader puts an expression together on its levels in the same
way whatever the numbers are, so such a map commutes with all that is done on a level.
-/

namespace UriRouting

namespace Regex

/-- A map of expressions that changes the numbers of groups, and what refers to groups. -/
structure Node.Renumbers (f : Node → Node) (number : Nat → Nat) : Prop where
  empty : f .empty = .empty
  unit (u : CodeUnit) : f (.unit u) = .unit u
  seq (first second : Node) : f (.seq first second) = .seq (f first) (f second)
  alt (first second : Node) : f (.alt first second) = .alt (f first) (f second)
  group (index : Nat) (body : Node) : f (.group index body) = .group (number index) (f body)
  look (direction : Direction) (negated : Bool) (body : Node) :
    f (.look direction negated body) = .look direction negated (f body)

/-- An open group with another number. -/
def OpenGroup.renumber (number : Nat → Nat) : OpenGroup → OpenGroup
  | capture index => capture (number index)
  | g => g

namespace Level

/-- A level with all its expressions changed. -/
def map (f : Node → Node) (l : Level) : Level := ⟨l.branches.map f, l.terms.map f, l.atom.map f⟩

variable {f : Node → Node} {number : Nat → Nat}

@[simp] theorem map_start : start.map f = start := rfl

@[simp] theorem map_allTerms (l : Level) : (l.map f).allTerms = l.allTerms.map f := by
  obtain ⟨branches, terms, - | atom⟩ := l <;> rfl

@[simp] theorem map_pushAtom (l : Level) (n : Node) :
    (l.pushAtom n).map f = (l.map f).pushAtom (f n) := by
  simp [pushAtom, map, ← map_allTerms]

@[simp] theorem map_pushFixed (l : Level) (n : Node) :
    (l.pushFixed n).map f = (l.map f).pushFixed (f n) := by
  simp [pushFixed, map, ← map_allTerms]

/-- Units stand for themselves whatever the numbers are. -/
theorem map_pushUnits (hf : Node.Renumbers f number) (l : Level) (us : Text) :
    (l.pushUnits us).map f = (l.map f).pushUnits us := by
  induction us generalizing l with
  | nil => rfl
  | cons u rest ih => rw [pushUnits_cons, ih, map_pushAtom, hf.unit, pushUnits_cons]

/-- The current alternative has its terms changed. -/
theorem map_branch (hf : Node.Renumbers f number) (l : Level) :
    (l.map f).branch = f l.branch := by
  have sequence_map (terms : List Node) :
      Node.sequence (terms.map f) = f (Node.sequence terms) := by
    induction terms with
    | nil => exact hf.empty.symm
    | cons n rest ih => exact (congrArg (Node.seq (f n)) ih).trans (hf.seq ..).symm
  simp [branch, ← sequence_map]

/-- Finishing an alternative finishes the changed one. -/
theorem map_newBranch (hf : Node.Renumbers f number) (l : Level) :
    l.newBranch.map f = (l.map f).newBranch := by
  simp [newBranch, map, ← map_branch hf]

/-- The whole disjunction is changed. -/
theorem map_node (hf : Node.Renumbers f number) (l : Level) : (l.map f).node = f l.node := by
  have fold_map (branches : List Node) (last : Node) :
      (branches.map f).foldl (fun rest branch => Node.alt branch rest) (f last) =
        f (branches.foldl (fun rest branch => Node.alt branch rest) last) := by
    induction branches generalizing last with
    | nil => rfl
    | cons n rest ih =>
      rw [List.map_cons, List.foldl_cons, List.foldl_cons, ← ih, hf.alt]
  rw [node, node, map_branch hf]
  exact fold_map l.branches l.branch

end Level

/-- Closing a group adds it under its other number. -/
theorem OpenGroup.map_close {f : Node → Node} {number : Nat → Nat} (hf : Node.Renumbers f number)
    (g : OpenGroup) (level : Level) (body : Node) :
    (g.close level body).map f = (g.renumber number).close (level.map f) (f body) := by
  rcases g with - | index | ⟨- | -, negated⟩ <;>
    simp [close, renumber, hf.group, hf.look]

end Regex

end UriRouting
