import UriRouting.Text.Lemmas
import Mathlib.Order.Bounds.Basic

/-!
# Positions that are found

A search goes through a text from the left and answers with a position or with none. `FindsLeast`
says that this is the least position with some property. A search that skips positions still finds
the least one if no position that it skips has the property, and the property does not depend on
what has been skipped (`FindsLeast.skip`).

So the search for unpaired surrogates, which goes over a pair in one step, finds the least position
of one (`findsLeast_firstUnpaired`).
-/

namespace UriRouting

/-- What is found is the least position with a property; nothing is found if there is none. -/
structure FindsLeast (P : Nat → Prop) (found : Option Nat) : Prop where
  least : ∀ i, found = some i → IsLeast {j | P j} i
  nothing : found = none → ∀ i, ¬ P i

namespace FindsLeast

variable {P Q : Nat → Prop} {found : Option Nat}

/-- The first position is the least one. -/
theorem here (h : P 0) : FindsLeast P (some 0) where
  least i hi := by
    obtain rfl := Option.some.inj hi
    exact ⟨h, fun j _ => Nat.zero_le j⟩
  nothing hnone := by cases hnone

/-- Nothing is found where no position has the property. -/
theorem absent (h : ∀ i, ¬ P i) : FindsLeast P none where
  least i hi := by cases hi
  nothing _ := h

/-- Positions without the property may be skipped. -/
theorem skip {n : Nat} (h : FindsLeast P found) (hskip : ∀ i < n, ¬ Q i)
    (hshift : ∀ i, Q (i + n) ↔ P i) : FindsLeast Q (found.map (· + n)) := by
  have exists_behind {i : Nat} (hi : Q i) : ∃ j, j + n = i ∧ P j := by
    obtain hlt | hle := Nat.lt_or_ge i n
    · exact absurd hi (hskip i hlt)
    · refine ⟨i - n, Nat.sub_add_cancel hle, (hshift _).1 ?_⟩
      rwa [Nat.sub_add_cancel hle]
  constructor
  · intro i hi
    obtain ⟨first, hfirst, rfl⟩ := Option.map_eq_some_iff.1 hi
    have hleast := h.least first hfirst
    refine ⟨(hshift first).2 hleast.1, fun j hj => ?_⟩
    obtain ⟨k, rfl, hk⟩ := exists_behind hj
    exact Nat.add_le_add_right (hleast.2 hk) n
  · intro hnone i hi
    obtain ⟨j, -, hj⟩ := exists_behind hi
    exact h.nothing (Option.map_eq_none_iff.1 hnone) j hj

/-- Something is found exactly if some position has the property. -/
theorem isSome_iff (h : FindsLeast P found) : found.isSome ↔ ∃ i, P i := by
  cases hfound : found with
  | none => exact iff_of_false Bool.false_ne_true fun ⟨i, hi⟩ => h.nothing hfound i hi
  | some i => exact iff_of_true rfl ⟨i, (h.least i hfound).1⟩

end FindsLeast

namespace Text

/-- The unit at a position is half of a surrogate pair, and the other half is not beside it. -/
def UnpairedAt (t : Text) (i : Nat) : Prop :=
  ∃ u, t[i]? = some u ∧ CodeUnit.isSurrogate u = true ∧
    (∀ v, t[i + 1]? = some v → isPair u v = false) ∧
    ∀ j v, j + 1 = i → t[j]? = some v → isPair v u = false

/-- A unit in front changes nothing, unless it makes a pair with the first one. -/
theorem unpairedAt_cons {u : CodeUnit} {rest : Text} {i : Nat}
    (h : i = 0 → ∀ v, rest[0]? = some v → isPair u v = false) :
    UnpairedAt (u :: rest) (i + 1) ↔ UnpairedAt rest i := by
  simp only [UnpairedAt, List.getElem?_cons_succ]
  constructor
  · rintro ⟨w, hw, hsurrogate, hnext, hbefore⟩
    refine ⟨w, hw, hsurrogate, hnext, fun j v hj hv => hbefore (j + 1) v (by rw [hj]) ?_⟩
    rwa [List.getElem?_cons_succ]
  · rintro ⟨w, hw, hsurrogate, hnext, hbefore⟩
    refine ⟨w, hw, hsurrogate, hnext, fun j v hj hv => ?_⟩
    cases j with
    | zero =>
      obtain rfl : 0 = i := Nat.succ.inj hj
      obtain rfl : u = v := Option.some.inj hv
      exact h rfl w hw
    | succ j => exact hbefore j v (Nat.succ.inj hj) hv

/-- The second half of a pair is not the first half of another one. -/
theorem isPair_of_isPair {u v : CodeUnit} (h : isPair u v = true) (w : CodeUnit) :
    isPair v w = false := by
  simp only [isPair, CodeUnit.isHighSurrogate_eq, CodeUnit.isLowSurrogate_eq, Bool.and_eq_true,
    decide_eq_true_eq] at h
  have hhigh : CodeUnit.isHighSurrogate v = false := by
    rw [CodeUnit.isHighSurrogate_eq, decide_eq_false_iff_not]
    omega
  rw [isPair, hhigh, Bool.false_and]

/-- A pair in front holds no unpaired surrogate and changes nothing behind it. -/
theorem findsLeast_pair {u v : CodeUnit} {rest : Text} {found : Option Nat}
    (hpair : isPair u v = true) (h : FindsLeast (UnpairedAt rest) found) :
    FindsLeast (UnpairedAt (u :: v :: rest)) (found.map (· + 2)) := by
  refine h.skip ?_ fun i => ?_
  · rintro i hi ⟨w, hw, -, hnext, hbefore⟩
    obtain rfl | rfl : i = 0 ∨ i = 1 := Nat.le_one_iff_eq_zero_or_eq_one.1 (Nat.le_of_lt_succ hi)
    · obtain rfl : u = w := Option.some.inj hw
      exact Bool.false_ne_true ((hnext v rfl).symm.trans hpair)
    · obtain rfl : v = w := Option.some.inj hw
      exact Bool.false_ne_true ((hbefore 0 u rfl rfl).symm.trans hpair)
  · rw [unpairedAt_cons (by simp), unpairedAt_cons fun _ w _ => isPair_of_isPair hpair w]

/-- The first unit is unpaired, or it is no surrogate and changes nothing behind it. -/
theorem findsLeast_unit {u : CodeUnit} {rest : Text} {found : Option Nat}
    (hpair : ∀ v, rest[0]? = some v → isPair u v = false)
    (h : FindsLeast (UnpairedAt rest) found) :
    FindsLeast (UnpairedAt (u :: rest))
      (if CodeUnit.isSurrogate u then some 0 else found.map (· + 1)) := by
  split_ifs with hsurrogate
  · exact .here ⟨u, rfl, hsurrogate, hpair, fun j v hj => absurd hj (Nat.succ_ne_zero j)⟩
  · refine h.skip ?_ fun i => unpairedAt_cons fun _ => hpair
    rintro i hi ⟨w, hw, hw', -⟩
    obtain rfl : i = 0 := by omega
    obtain rfl : u = w := Option.some.inj hw
    exact hsurrogate hw'

/-- The position that is found is the least one of an unpaired surrogate. -/
theorem findsLeast_firstUnpaired (t : Text) : FindsLeast t.UnpairedAt t.firstUnpaired := by
  have nothing : FindsLeast (UnpairedAt []) none := by
    refine .absent ?_
    rintro i ⟨u, hu, -⟩
    cases hu
  -- The cases are those of the cut into characters: a pair, or a unit that makes no pair.
  induction t using toChars.induct with
  | case1 => exact nothing
  | case2 u => exact findsLeast_unit (fun v hv => by cases hv) nothing
  | case3 u v rest hpair ih =>
    rw [firstUnpaired, if_pos hpair]
    exact findsLeast_pair hpair ih
  | case4 u v rest hpair ih =>
    rw [firstUnpaired, if_neg hpair]
    refine findsLeast_unit (fun w hw => ?_) ih
    obtain rfl : v = w := Option.some.inj hw
    exact Bool.eq_false_iff.2 hpair

end Text

end UriRouting
