import UriRouting.Proofs.Regex.Brackets
import UriRouting.Template.Reader

/-!
# Parts that close what they open

`Contained` says of a part of a pattern that its groups, its classes and its escapes all end inside
it. The two checks of a constraint together decide this: `closesUnopened` finds a group that is
closed without having been opened, and the compiled probe shows that nothing stays open.
-/

namespace UriRouting

open scoped CodeUnit

namespace Regex

/-- How many groups are open behind a bracket; a group that is not open cannot be closed. -/
def Bracket.depth : Bracket → Nat → Option Nat
  | closes, 0 => none
  | closes, depth + 1 => some depth
  | _, depth => some (depth + 1)

/-- How many groups are open behind some brackets. -/
def depthAfter : Nat → List Bracket → Option Nat
  | depth, [] => some depth
  | depth, b :: rest => (b.depth depth).bind (depthAfter · rest)

/-- The depth behind brackets put together. -/
theorem depthAfter_append (depth : Nat) (a b : List Bracket) :
    depthAfter depth (a ++ b) = (depthAfter depth a).bind (depthAfter · b) := by
  induction a generalizing depth with
  | nil => rfl
  | cons first rest ih => simp [depthAfter, ih, Option.bind_assoc]

/-- More groups that are open before are open behind as well. -/
theorem depthAfter_add {depth result : Nat} {a : List Bracket} (h : depthAfter depth a = some result)
    (more : Nat) : depthAfter (depth + more) a = some (result + more) := by
  induction a generalizing depth with
  | nil =>
    obtain rfl : depth = result := by simpa [depthAfter] using h
    rfl
  | cons first rest ih =>
    obtain ⟨next, hnext, hrest⟩ := Option.bind_eq_some_iff.1 h
    have hadd : first.depth (depth + more) = some (next + more) := by
      cases first <;> cases depth <;> simp_all [Bracket.depth, Nat.add_right_comm] <;> omega
    rw [depthAfter, hadd]
    exact ih hrest

/-- An opening parenthesis counts once, whatever stands behind it. -/
theorem depthAfter_groupAngle (depth : Nat) (t : Text) :
    depthAfter depth (Scan.groupAngle.brackets t) =
      depthAfter (depth + 1) (Scan.plain.brackets t) := by
  cases t with
  | nil => rfl
  | cons u rest =>
    rw [Scan.brackets_cons, Scan.brackets_cons]
    simp only [Scan.step, Scan.after, List.cons_append]
    split <;> simp [depthAfter, Bracket.depth]

/-- The same behind a question mark. -/
theorem depthAfter_groupMark (depth : Nat) (t : Text) :
    depthAfter depth (Scan.groupMark.brackets t) =
      depthAfter (depth + 1) (Scan.plain.brackets t) := by
  cases t with
  | nil => rfl
  | cons u rest =>
    rw [Scan.brackets_cons, Scan.brackets_cons]
    by_cases h : u = '<'
    · subst h
      exact depthAfter_groupAngle depth rest
    · simp [Scan.step, h, Scan.after, depthAfter, Bracket.depth]

/-- The same behind the parenthesis itself. -/
theorem depthAfter_group (depth : Nat) (t : Text) :
    depthAfter depth (Scan.group.brackets t) =
      depthAfter (depth + 1) (Scan.plain.brackets t) := by
  cases t with
  | nil => rfl
  | cons u rest =>
    rw [Scan.brackets_cons, Scan.brackets_cons]
    by_cases h : u = '?'
    · subst h
      exact depthAfter_groupMark depth rest
    · simp [Scan.step, h, Scan.after, depthAfter, Bracket.depth]

/-- Where a scan of a constraint begins: in plain text or in a class. -/
def Scan.ofClass (inClass : Bool) : Scan := if inClass then .inClass else .plain

/-- A constraint closes a group that it did not open exactly if its brackets do. -/
theorem closesUnopened_eq (depth : Nat) (inClass : Bool) (t : Text) :
    Template.closesUnopened depth inClass t =
      (depthAfter depth ((Scan.ofClass inClass).brackets t)).isNone := by
  fun_induction Template.closesUnopened depth inClass t with
  | case1 depth inClass => cases inClass <;> rfl
  | case2 depth inClass => cases inClass <;> rfl
  | case3 depth inClass u rest ih =>
    rw [ih, Scan.brackets_cons, Scan.brackets_cons]
    cases inClass <;> rfl
  | case4 depth u rest hbackslash ih =>
    rw [ih, Scan.brackets_cons]
    by_cases hclose : u = ']'
    · simp [Scan.ofClass, Scan.step, hclose]
    · simp [Scan.ofClass, Scan.step, hclose, hbackslash]
  | case5 depth inClass rest hplain =>
    simp only [Bool.not_eq_true] at hplain
    subst hplain
    assumption
  | case6 depth inClass rest hplain _ _ ih =>
    simp only [Bool.not_eq_true] at hplain
    subst hplain
    rw [ih, Scan.brackets_cons]
    exact congrArg Option.isNone (depthAfter_group depth rest).symm
  | case7 inClass rest hplain =>
    simp only [Bool.not_eq_true] at hplain
    subst hplain
    rfl
  | case8 inClass rest hplain depth =>
    simp only [Bool.not_eq_true] at hplain
    subst hplain
    assumption
  | case9 depth inClass u rest hbackslash hplain hclass hopen hclose ih =>
    simp only [Bool.not_eq_true] at hplain
    subst hplain
    rw [ih, Scan.brackets_cons]
    simp [Scan.ofClass, Scan.step,
      Scan.plainStep_of_ordinary ⟨hbackslash, hopen, hclose, hclass⟩]

/-- What closes no unopened group does so in none of its beginnings. -/
theorem closesUnopened_of_append {a b : Text}
    (h : Template.closesUnopened 0 false (a ++ b) = false) :
    Template.closesUnopened 0 false a = false := by
  have hstart : Scan.ofClass false = .plain := rfl
  rw [closesUnopened_eq, hstart] at h ⊢
  rw [Scan.brackets_append, depthAfter_append] at h
  rw [Scan.brackets, depthAfter_append]
  cases hdepth : depthAfter 0 (Scan.plain.run a).1 with
  | none =>
    rw [hdepth] at h
    cases h
  | some depth =>
    -- the end of a text completes no bracket that closes
    cases (Scan.plain.run a).2 <;> rfl

/-- A part of a pattern that closes every group, class and escape that it opens, and no other. -/
structure Contained (c : Text) : Prop where
  ends : (Scan.plain.run c).2 = .plain
  balanced : depthAfter 0 (Scan.plain.run c).1 = some 0

/-- Behind a contained part a closing parenthesis closes nothing. -/
theorem Contained.not_append_close {c : Text} (h : Contained c) (rest : Text) :
    ¬ Contained (c ++ (')' :: rest : Text)) := by
  intro happend
  have hbalanced := happend.balanced
  rw [Scan.run_append, depthAfter_append, h.balanced, h.ends] at hbalanced
  cases hbalanced

/-- What a closing parenthesis ends is contained in one way only. -/
theorem Contained.unique {a b rest rest' : Text} (ha : Contained a) (hb : Contained b)
    (h : a ++ (')' :: rest : Text) = b ++ (')' :: rest' : Text)) : a = b ∧ rest = rest' := by
  obtain ⟨mid, rfl, hmid⟩ | ⟨mid, rfl, hmid⟩ := List.append_eq_append_iff.1 h
  · cases mid with
    | nil => exact ⟨(List.append_nil a).symm, (List.cons.inj hmid).2⟩
    | cons u mid =>
      obtain ⟨rfl, -⟩ := List.cons.inj hmid
      exact absurd hb (ha.not_append_close mid)
  · cases mid with
    | nil => exact ⟨List.append_nil b, (List.cons.inj hmid).2.symm⟩
    | cons u mid =>
      obtain ⟨rfl, -⟩ := List.cons.inj hmid
      exact absurd ha (hb.not_append_close mid)

end Regex

end UriRouting
