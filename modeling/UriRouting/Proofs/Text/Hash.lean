import UriRouting.Text.Hash
import UriRouting.Proofs.Number.Exact
import Mathlib.Algebra.BigOperators.Fin
import Mathlib.Algebra.BigOperators.Ring.Finset
import Mathlib.Data.Int.ModEq

/-!
# The hash as a polynomial

The word that the hash keeps is congruent to the polynomial of the units with base 31, whatever has
been cut off on the way: a step cuts off multiples of `2 ^ 32` only (`hashStep_modEq`), as its sum
is an integer small enough to be a number (`value_hashSum`). A word is determined by what it is
congruent to (`eq_of_modEq`), so the hash is the one word that is congruent to the polynomial.
-/

namespace UriRouting

namespace Text

variable (word : Int32) (u : CodeUnit)

/-- The polynomial of the units with base 31, where the last unit is the constant term. -/
def polynomial (t : Text) : ℤ :=
  ∑ i : Fin t.length, (t[i].toNat : ℤ) * 31 ^ (t.length - 1 - i)

/-- A text without units has no terms. -/
@[simp] theorem polynomial_nil : polynomial [] = 0 := rfl

/-- The first unit has the highest power. -/
theorem polynomial_cons (t : Text) :
    polynomial (u :: t) = u.toNat * 31 ^ t.length + polynomial t := by
  refine (Fin.sum_univ_succ (n := t.length) _).trans ?_
  refine congrArg (_ + ·) (Finset.sum_congr rfl fun i _ => ?_)
  have hpower : t.length + 1 - 1 - i.succ = t.length - 1 - i := by
    rw [Fin.val_succ]
    omega
  exact congrArg (fun k => (t[i].toNat : ℤ) * 31 ^ k) hpower

/-- The units behind a text raise the powers of its terms. -/
theorem polynomial_append (t w : Text) :
    polynomial (t ++ w) = polynomial t * 31 ^ w.length + polynomial w := by
  induction t with
  | nil => simp
  | cons u t ih =>
    rw [List.cons_append, polynomial_cons, polynomial_cons, ih, List.length_append, pow_add]
    ring

/-- The sum of one step in exact arithmetic. -/
def exactSum : ℤ := (31 * word).toInt + u.toNat

/-- The magnitude of a word. -/
theorem abs_toInt_le : |word.toInt| ≤ 2 ^ 31 := by
  have hlow := word.le_toInt
  have hhigh := word.toInt_lt
  rw [abs_le]
  omega

/-- The magnitude of a unit. -/
theorem abs_toNat_le : |(u.toNat : ℤ)| ≤ 2 ^ 16 := by
  have hhigh := u.toNat_lt
  rw [abs_le]
  omega

/-- The sum of a step stays among the integers that are numbers. -/
theorem abs_exactSum_lt : |exactSum word u| < 2 ^ 53 :=
  calc |exactSum word u|
    _ ≤ |(31 * word).toInt| + |(u.toNat : ℤ)| := abs_add_le _ _
    _ ≤ 2 ^ 31 + 2 ^ 16 := add_le_add (abs_toInt_le _) (abs_toNat_le u)
    _ < 2 ^ 53 := by decide

/-- The sum of a step is exact. -/
theorem value_hashSum : (hashSum word u).value? = some (exactSum word u : ℚ) := by
  have hproduct : |(31 * word).toInt| < 2 ^ 53 := (abs_toInt_le _).trans_lt (by decide)
  have hunit : |(u.toNat : ℤ)| < 2 ^ 53 := (abs_toNat_le u).trans_lt (by decide)
  refine Number.value_add (Number.value_ofInt hproduct) (Number.value_ofInt hunit) ?_
    (abs_exactSum_lt word u)
  rw [exactSum, Int.cast_add]

/-- The word of an integer is congruent to it. -/
theorem toInt_ofInt_modEq (n : ℤ) : (Int32.ofInt n).toInt ≡ n [ZMOD 2 ^ 32] := by
  rw [Int32.toInt_ofInt]
  exact Int.bmod_emod

/-- A product of words is congruent to the product of their values. -/
theorem toInt_mul_modEq (a b : Int32) : (a * b).toInt ≡ a.toInt * b.toInt [ZMOD 2 ^ 32] := by
  rw [Int32.toInt_mul]
  exact Int.bmod_emod

/-- One step multiplies by 31 and adds the unit, up to multiples of `2 ^ 32`. -/
theorem hashStep_modEq :
    (hashStep word u).toInt ≡ 31 * word.toInt + u.toNat [ZMOD 2 ^ 32] := by
  rw [hashStep, Number.toInt32_of_value (value_hashSum word u)]
  calc (Int32.ofInt (exactSum word u)).toInt
    _ ≡ (31 * word).toInt + u.toNat [ZMOD 2 ^ 32] := toInt_ofInt_modEq _
    _ ≡ 31 * word.toInt + u.toNat [ZMOD 2 ^ 32] := (toInt_mul_modEq 31 word).add_right _

/-- The last unit is the last step. -/
theorem hashWord_concat (t : Text) : hashWord (t ++ [u]) = hashStep (hashWord t) u := by
  rw [hashWord, List.foldl_append]
  rfl

/-- The hash is congruent to the polynomial. -/
theorem hash_modEq_polynomial (t : Text) : t.hash ≡ t.polynomial [ZMOD 2 ^ 32] := by
  induction t using List.reverseRecOn with
  | nil => rfl
  | append_singleton t u ih =>
    rw [hash, hashWord_concat, polynomial_append, List.length_singleton, pow_one, mul_comm]
    calc (hashStep (hashWord t) u).toInt
      _ ≡ 31 * hash t + u.toNat [ZMOD 2 ^ 32] := hashStep_modEq _ u
      _ ≡ 31 * polynomial t + u.toNat [ZMOD 2 ^ 32] := (ih.mul_left 31).add_right _
      _ = 31 * polynomial t + polynomial [u] := by simp [polynomial_cons]

/-- Two integers that are congruent are equal if both are words. -/
theorem eq_of_modEq {m n : ℤ} (hm : -2 ^ 31 ≤ m ∧ m < 2 ^ 31) (hn : -2 ^ 31 ≤ n ∧ n < 2 ^ 31)
    (h : m ≡ n [ZMOD 2 ^ 32]) : m = n := by
  have h' : m % 2 ^ 32 = n % 2 ^ 32 := h
  omega

/-- The hash is a word. -/
theorem hash_mem_range (t : Text) : -2 ^ 31 ≤ t.hash ∧ t.hash < 2 ^ 31 :=
  ⟨t.hashWord.le_toInt, t.hashWord.toInt_lt⟩

/-- The hash of two texts in a row. -/
theorem hash_append_modEq (t w : Text) :
    (t ++ w).hash ≡ t.hash * 31 ^ w.length + w.hash [ZMOD 2 ^ 32] := by
  calc (t ++ w).hash
    _ ≡ (t ++ w).polynomial [ZMOD 2 ^ 32] := hash_modEq_polynomial _
    _ = t.polynomial * 31 ^ w.length + w.polynomial := polynomial_append t w
    _ ≡ t.hash * 31 ^ w.length + w.hash [ZMOD 2 ^ 32] :=
      ((hash_modEq_polynomial t).symm.mul_right _).add (hash_modEq_polynomial w).symm

/-- The word after some units comes from the word before the last one of them. -/
theorem hashWord_take_succ (t : Text) (i : Fin t.length) :
    hashWord (t.take (i + 1)) = (hashSum (hashWord (t.take i)) t[i]).toInt32 := by
  rw [List.take_add_one, List.getElem?_eq_getElem i.isLt, Option.toList_some, hashWord_concat]
  rfl

/-- The hash is the one integer from `-2 ^ 31` up to `2 ^ 31` that is congruent to the polynomial of
the units modulo `2 ^ 32`. So the hash of two texts in a row is congruent to what their hashes and
the length of the second one say. On the way to it, each word is made of the sum of one step, which
is an integer among those that are numbers, and the sum of numbers is that integer exactly. -/
theorem eq_hash_iff (t : Text) :
    (∀ n : ℤ, n = t.hash ↔
      (-2 ^ 31 ≤ n ∧ n < 2 ^ 31) ∧ n ≡ t.polynomial [ZMOD 2 ^ 32]) ∧
    (∀ w : Text, (t ++ w).hash ≡ t.hash * 31 ^ w.length + w.hash [ZMOD 2 ^ 32]) ∧
    ∀ i : Fin t.length,
      hashWord (t.take (i + 1)) = (hashSum (hashWord (t.take i)) t[i]).toInt32 ∧
        |exactSum (hashWord (t.take i)) t[i]| < 2 ^ 53 ∧
        (hashSum (hashWord (t.take i)) t[i]).value? =
          some (exactSum (hashWord (t.take i)) t[i] : ℚ) := by
  refine ⟨fun n => ⟨?_, ?_⟩, hash_append_modEq t, fun i => ?_⟩
  · rintro rfl
    exact ⟨hash_mem_range t, hash_modEq_polynomial t⟩
  · intro h
    exact eq_of_modEq h.1 (hash_mem_range t) (h.2.trans (hash_modEq_polynomial t).symm)
  · exact ⟨hashWord_take_succ t i, abs_exactSum_lt _ _, value_hashSum _ _⟩

/-- The polynomial of this word is far above `2 ^ 32`, and what is kept of it is the least word. -/
example : hash "polygenelubricants" = -2 ^ 31 := by decide +kernel

end Text

end UriRouting
