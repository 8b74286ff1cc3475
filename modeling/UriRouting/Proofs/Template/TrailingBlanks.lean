import UriRouting.Proofs.Regex.Blanks
import UriRouting.Proofs.Template.Grammar
import Mathlib.Algebra.Ring.Parity
import Mathlib.Data.List.Induction

/-!
# White space behind a constraint

The white space behind a constraint is dropped unit by unit, although a backslash in front of it
takes its first unit for the constraint. What is left is an expression by itself exactly if it does
not end escaped (`EndsEscaped`). Where it does, the placeholder is refused, even though what was
written between the colon and the brace is an expression (`trimmed_constraint_iff`).
-/

namespace UriRouting

open scoped CodeUnit

namespace Template

/-- A text that ends with an odd number of backslashes, so that the last one takes what follows. -/
def EndsEscaped (t : Text) : Prop :=
  Odd (t.reverse.takeWhile fun u : CodeUnit => u = '\\').length

instance (t : Text) : Decidable (EndsEscaped t) := inferInstanceAs (Decidable (Odd _))

/-- The last unit decides, and the number of backslashes in front of it. -/
theorem endsEscaped_concat (t : Text) (u : CodeUnit) :
    EndsEscaped (t ++ [u]) ↔ u = '\\' ∧ ¬ EndsEscaped t := by
  rw [EndsEscaped, List.reverse_append, List.reverse_singleton, List.singleton_append]
  by_cases hu : u = '\\'
  · rw [List.takeWhile_cons_of_pos (by simp [hu]), List.length_cons, Nat.odd_add_one, EndsEscaped,
      and_iff_right hu]
  · simp [hu]

/-- The scan for brackets stands behind a backslash where a text ends escaped, in a class or not. -/
theorem escapes_run_iff (t : Text) :
    escapes (Regex.Scan.plain.run t).2 = true ↔ EndsEscaped t := by
  induction t using List.reverseRecOn with
  | nil => decide
  | append_singleton t u ih =>
    have hlast : (Regex.Scan.plain.run (t ++ [u])).2 = ((Regex.Scan.plain.run t).2.step u).2 := by
      rw [Regex.Scan.run_append]
      rfl
    rw [hlast, escapes_step, endsEscaped_concat, ← ih]
    simp [and_comm]

/-- An expression does not end escaped. -/
theorem not_endsEscaped_of_ofSource {t : Text} (h : (Regex.ofSource? t).isSome) :
    ¬ EndsEscaped t := by
  obtain ⟨r, hr⟩ := Option.isSome_iff_exists.1 h
  rw [← escapes_run_iff, (Regex.contained_of_ofSource hr).ends]
  decide

/-- What stands in front of the white space at the end of an expression is an expression exactly if it
does not end escaped. -/
theorem isSome_ofSource_front_iff {front blanks : Text}
    (hblanks : ∀ u ∈ blanks, CodeUnit.isBlank u = true)
    (h : (Regex.ofSource? (front ++ blanks)).isSome) :
    (Regex.ofSource? front).isSome ↔ ¬ EndsEscaped front := by
  refine ⟨not_endsEscaped_of_ofSource, ?_⟩
  intro hend
  rwa [Regex.isSome_ofSource_append_blanks _ hblanks] at h
  intro hscan
  rw [← escapes_run_iff, hscan] at hend
  exact hend rfl

/-- What is read behind a name and a colon. -/
theorem body_of_name (name : Name) (r : Text) :
    bodyName (name.1 ++ (':' :: r : Text)) = name.1 ∧
      bodyConstraint (name.1 ++ (':' :: r : Text)) = Text.trim r := by
  have hname : ∀ u ∈ name.1, isNotColon u = true := fun u hu =>
    (neutral_of_class (name.isNameUnit u hu) ⟨rfl, rfl, rfl, rfl⟩).2
  constructor
  · rw [bodyName, List.takeWhile_append_of_pos hname]
    simpa [isNotColon] using Text.trim_eq_self name.trimmed
  · rw [bodyConstraint, List.dropWhile_append_of_pos hname]
    rfl

/-- A name, a colon and a balanced text are balanced. -/
theorem balanced_of_name (name : Name) {r : Text} (h : Balanced r) :
    Balanced (name.1 ++ (':' :: r : Text)) := by
  have hfront : Balanced (name.1 ++ [(':' : CodeUnit)]) := by
    apply bracesAfter_of_neutral
    rw [List.forall_mem_append, List.forall_mem_singleton]
    exact ⟨fun u hu => (neutral_of_class (name.isNameUnit u hu) ⟨rfl, rfl, rfl, rfl⟩).1, rfl⟩
  simpa using hfront.append h

/-- A placeholder that is refused makes a template refused, whatever stands behind it. -/
theorem parse_of_refused {front : LiteralText} {body rest : Text} {e : Error}
    (hbody : Balanced body)
    (h : readPlaceholder (front.1 ++ ('{' :: (body ++ ('}' :: rest : Text)) : Text)) body = .error e) :
    Outline.parse (front.1 ++ ('{' :: (body ++ ('}' :: rest : Text)) : Text)) = .error e := by
  have hread (template : Text) (h : readPlaceholder template body = .error e) :
      readFrom template 0 (.literal []) (front.1 ++ ('{' :: (body ++ ('}' :: rest : Text)) : Text)) =
        .error e := by
    rw [readFrom_literal _ _ _ front.2, readFrom, readStep_open]
    dsimp only
    rw [readFrom_body _ _ _ _ hbody, List.reverse_nil, List.nil_append, h]
    rfl
  rw [Outline.parse, if_neg (by simp), hread _ h]

/-- What is read of a constraint that is an expression once the white space around it is dropped. -/
theorem readPlaceholder_of_valid (template : Text) (name : Name) {r : Text}
    (h : Text.trim r = [] ∨ (Regex.ofSource? (Text.trim r)).isSome) :
    ∃ p, readPlaceholder template (name.1 ++ (':' :: r : Text)) = .ok p ∧ p.name = name.1 ∧
      p.constraint = if Text.trim r = [] then none else some (Text.trim r) := by
  obtain ⟨hname, hconstraint⟩ := body_of_name name r
  rw [readPlaceholder, hname, hconstraint]
  by_cases hempty : Text.trim r = []
  · exact ⟨⟨name.1, none, 0⟩, by simp [name.2, hempty], rfl, by rw [if_pos hempty]⟩
  · obtain ⟨hunopened, hgroups⟩ := (passes_checks_iff (Text.trim r)).1.2 (h.resolve_left hempty)
    obtain ⟨groupCount, hgroups⟩ := Option.isSome_iff_exists.1 hgroups
    refine ⟨⟨name.1, some (Text.trim r), groupCount⟩, ?_, rfl, by rw [if_neg hempty]⟩
    simp [name.2, hempty, hunopened, hgroups]

/-- A placeholder is refused if what is left of its constraint closes no unopened group, but is
neither empty nor an expression. -/
theorem readPlaceholder_of_invalid (template : Text) (name : Name) {r : Text}
    (hunopened : closesUnopened 0 false (Text.trim r) = false) (hempty : Text.trim r ≠ [])
    (h : ¬ (Regex.ofSource? (Text.trim r)).isSome) :
    readPlaceholder template (name.1 ++ (':' :: r : Text)) =
      .error (.invalidConstraint name.1 template) := by
  obtain ⟨hname, hconstraint⟩ := body_of_name name r
  have hgroups : constraintGroups? (Text.trim r) = none := by
    rw [Regex.constraintGroups?_eq hunopened, Option.not_isSome_iff_eq_none.1 h, Option.map_none]
  rw [readPlaceholder, hname, hconstraint]
  simp [name.2, hempty, hunopened, hgroups]

/-- A placeholder is written with a name, a colon and an expression that begins without white space;
the expression balances its braces, so the brace behind it is the one that closes the placeholder. The
constraint that is read is the expression without the white space at its end. It is empty or an
expression exactly if it does not end escaped. If so, the placeholder has this constraint; if not,
every template is refused that has it as its first placeholder. -/
theorem trimmed_constraint_iff (name : Name) {r : Text} (hbalanced : Balanced r)
    (hfirst : ∀ u ∈ r.head?, CodeUnit.isBlank u = false) (hvalid : (Regex.ofSource? r).isSome) :
    bodyConstraint (name.1 ++ (':' :: r : Text)) = Text.trim r ∧
    ((Text.trim r = [] ∨ (Regex.ofSource? (Text.trim r)).isSome) ↔ ¬ EndsEscaped (Text.trim r)) ∧
    (¬ EndsEscaped (Text.trim r) → ∀ template,
      ∃ p, readPlaceholder template (name.1 ++ (':' :: r : Text)) = .ok p ∧ p.name = name.1 ∧
        p.constraint = if Text.trim r = [] then none else some (Text.trim r)) ∧
    (EndsEscaped (Text.trim r) → ∀ (front : LiteralText) (rest : Text),
      let template : Text :=
        front.1 ++ ('{' :: (name.1 ++ (':' :: r : Text) ++ ('}' :: rest : Text)) : Text)
      Outline.parse template = .error (.invalidConstraint name.1 template)) := by
  obtain ⟨blanks, hblanks, hr⟩ := Text.exists_after_trim hfirst
  have hfront : (Regex.ofSource? (Text.trim r)).isSome ↔ ¬ EndsEscaped (Text.trim r) := by
    rw [hr] at hvalid
    exact isSome_ofSource_front_iff hblanks hvalid
  have hiff : (Text.trim r = [] ∨ (Regex.ofSource? (Text.trim r)).isSome) ↔
      ¬ EndsEscaped (Text.trim r) := by
    rw [hfront, or_iff_right_iff_imp]
    intro hempty
    rw [hempty]
    decide
  refine ⟨(body_of_name name r).2, hiff, ?_, ?_⟩
  · intro hend template
    exact readPlaceholder_of_valid template name (hiff.2 hend)
  · intro hend front rest
    have hunopened : closesUnopened 0 false (Text.trim r) = false := by
      obtain ⟨regex, hregex⟩ := Option.isSome_iff_exists.1 hvalid
      apply Regex.closesUnopened_of_append (b := blanks)
      rw [← hr]
      exact Regex.closesUnopened_of_ofSource hregex
    have hempty : Text.trim r ≠ [] := fun hempty => hiff.1 (.inl hempty) hend
    exact parse_of_refused (balanced_of_name name hbalanced)
      (readPlaceholder_of_invalid _ name hunopened hempty fun h => hfront.1 h hend)

/-- White space behind two backslashes is dropped, and behind one it is missed. -/
theorem trimmed_constraint_backslashes :
    (∃ p, readPlaceholder [] "x:a\x7b2\x7d\\\\ " = .ok p ∧ p.name = "x" ∧
      p.constraint = some ("a\x7b2\x7d\\\\" : Text)) ∧
    Outline.parse "/\x7bx:a\\ \x7d/b" = .error (.invalidConstraint "x" "/\x7bx:a\\ \x7d/b") := by
  let name : Name := ⟨"x", by decide⟩
  have hletter (rest : Text) : ∀ u ∈ ('a' :: rest : Text).head?, CodeUnit.isBlank u = false := by
    intro u hu
    obtain rfl := Option.some.inj hu
    rfl
  constructor
  · exact (trimmed_constraint_iff name (r := "a\x7b2\x7d\\\\ ") (by decide) (hletter _)
      (by decide +kernel)).2.2.1 (by decide) []
  · exact (trimmed_constraint_iff name (r := "a\\ ") (by decide) (hletter _)
      (by decide +kernel)).2.2.2 (by decide) ⟨"/", by decide⟩ "/b"

/-- The expression `a\ ` of a letter and an escaped space is none without its white space. -/
theorem not_trimmed_constraint_of_escaped_space :
    ¬ ∀ (name : Name) (r : Text), Balanced r → (∀ u ∈ r.head?, CodeUnit.isBlank u = false) →
      (Regex.ofSource? r).isSome →
        bodyConstraint (name.1 ++ (':' :: r : Text)) = [] ∨
          (Regex.ofSource? (bodyConstraint (name.1 ++ (':' :: r : Text)))).isSome := by
  intro h
  have hfirst : ∀ u ∈ ("a\\ " : Text).head?, CodeUnit.isBlank u = false := by
    intro u hu
    obtain rfl := Option.some.inj hu
    rfl
  have hspace := h ⟨"x", by decide⟩ "a\\ " (by decide) hfirst (by decide +kernel)
  revert hspace
  decide +kernel

end Template

end UriRouting
