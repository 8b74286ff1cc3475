import UriRouting.Proofs.Component.Fixpoint
import UriRouting.Proofs.Component.Positions

/-!
# What the encoders and the decoder refuse

The encoders refuse a value that holds an unpaired surrogate, and the decoder one in which a percent
sign begins no escape. Each of them reports a position, and that is the least position of such a
fault (`reportsLeast_faults`). What passes the test for encoded values, in whatever component, holds
no stray percent sign, so it can be decoded in every component.
-/

namespace UriRouting

open scoped CodeUnit

/-- A text or an error: the error comes up exactly if some position is at fault, and reports the
least such position. -/
structure ReportsLeast (Fault : Nat → Prop) (report : Nat → Component.EncodingError)
    (result : Except Component.EncodingError Text) : Prop where
  fails_iff : (∃ e, result = .error e) ↔ ∃ i, Fault i
  least : ∀ e, result = .error e → ∃ i, IsLeast {j | Fault j} i ∧ e = report i

/-- A search for faults decides on the result. -/
theorem FindsLeast.reportsLeast {Fault : Nat → Prop} {found : Option Nat}
    {report : Nat → Component.EncodingError} {result : Except Component.EncodingError Text}
    (h : FindsLeast Fault found) (hfound : ∀ i, found = some i → result = .error (report i))
    (habsent : found = none → ∃ text, result = .ok text) : ReportsLeast Fault report result := by
  cases hsearch : found with
  | none =>
    obtain ⟨text, rfl⟩ := habsent hsearch
    constructor
    · exact iff_of_false (fun ⟨e, he⟩ => by cases he) fun ⟨i, hi⟩ => h.nothing hsearch i hi
    · intro e he
      cases he
  | some i =>
    have hleast := h.least i hsearch
    have hresult := hfound i hsearch
    constructor
    · exact iff_of_true ⟨_, hresult⟩ ⟨i, hleast.1⟩
    · intro e he
      exact ⟨i, hleast, Except.error.inj (he.symm.trans hresult)⟩

namespace Component

open Escape (Item StrayAt)

/-- The encoder reports the least position of an unpaired surrogate. -/
theorem reportsLeast_encode (k : Component) (value : Text) :
    ReportsLeast value.UnpairedAt (.unpairedSurrogate · value) (k.encode value) :=
  (Text.findsLeast_firstUnpaired value).reportsLeast (fun i hi => by rw [encode, hi])
    fun hnone => ⟨_, by rw [encode, hnone]⟩

/-- So does the encoder that keeps escapes. -/
theorem reportsLeast_contextualEncode (k : Component) (value : Text) :
    ReportsLeast value.UnpairedAt (.unpairedSurrogate · value) (k.contextualEncode value) :=
  (Text.findsLeast_firstUnpaired value).reportsLeast (fun i hi => by rw [contextualEncode, hi])
    fun hnone => ⟨_, by rw [contextualEncode, hnone]⟩

/-- The decoder reports the least position of a stray percent sign. -/
theorem reportsLeast_decode (k : Component) (value : Text) :
    ReportsLeast (StrayAt value) (.malformedEscape · value) (k.decode value) :=
  (Escape.findsLeast_firstStray value).reportsLeast (fun i hi => by rw [decode, hi])
    fun hnone => ⟨_, by rw [decode, hnone]⟩

/-- No component leaves a percent sign alone. -/
theorem not_keeps_percent (k : Component) : ¬ k.Keeps (.char '%') := by
  change ¬ k.allows '%' = true
  rw [k.allows_percent]
  exact Bool.false_ne_true

/-- A value that is encoded for some component holds no stray percent sign. -/
theorem not_strayAt_of_isEncoded {k : Component} {value : Text} (h : k.isEncoded value = true)
    (i : Nat) : ¬ StrayAt value i := by
  have hpercent : Item.char '%' ∉ Escape.items value := fun hmem =>
    k.not_keeps_percent ((k.isEncoded_iff_keeps_items value).1 h _ hmem)
  exact (Escape.findsLeast_firstStray value).nothing
    ((Escape.firstStray_eq_none_iff _).2 hpercent) i

/-- Either encoder fails exactly if the value holds an unpaired surrogate, and reports the least
position of one; the decoder fails exactly if some percent sign of the value begins no escape, and
reports the least position of such a one. So it reads every value that is encoded, for whatever
component. -/
theorem reportsLeast_faults (k : Component) (value : Text) :
    ReportsLeast value.UnpairedAt (.unpairedSurrogate · value) (k.encode value) ∧
      ReportsLeast value.UnpairedAt (.unpairedSurrogate · value) (k.contextualEncode value) ∧
      ReportsLeast (StrayAt value) (.malformedEscape · value) (k.decode value) ∧
      ((∃ other : Component, other.isEncoded value = true) → ∃ text, k.decode value = .ok text) := by
  have hdecode := k.reportsLeast_decode value
  refine ⟨k.reportsLeast_encode value, k.reportsLeast_contextualEncode value, hdecode, ?_⟩
  rintro ⟨other, hencoded⟩
  cases hresult : k.decode value with
  | ok text => exact ⟨text, rfl⟩
  | error e =>
    obtain ⟨i, hi⟩ := hdecode.fails_iff.1 ⟨e, hresult⟩
    exact absurd hi (not_strayAt_of_isEncoded hencoded i)

/-- A scheme of an escape that is no UTF-8, a plus sign and another escape can be read as a query
parameter. -/
theorem reportsLeast_faults_scheme :
    scheme.isEncoded "%FF+%41" = true ∧ ∃ text, queryParam.decode "%FF+%41" = .ok text := by
  have hencoded : scheme.isEncoded "%FF+%41" = true := by decide
  exact ⟨hencoded, (reportsLeast_faults queryParam "%FF+%41").2.2.2 ⟨scheme, hencoded⟩⟩

end Component

end UriRouting
