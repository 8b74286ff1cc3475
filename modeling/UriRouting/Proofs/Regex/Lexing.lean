import UriRouting.Regex.Reader

/-!
# Lexemes of texts put together

`lexRun` reads a text without ending it, so that the lexemes of `s ++ t` are those of `s` up to its
last state and those of `t` from there. A parenthesis or a blank ends every lexeme that the pattern
could have ended with, so a part that is complete by itself keeps its lexemes in front of them.
-/

namespace UriRouting

open scoped CodeUnit

namespace Regex

/-- The lexemes that end in a text read from a state on, and the state behind the text. -/
def lexRun (named : Bool) : LexState → Text → Option (List Token × LexState)
  | state, [] => some ([], state)
  | state, u :: rest =>
    match lexStep named state u with
    | none => none
    | some (out, next) => (lexRun named next rest).map fun (more, last) => (out ++ more, last)

/-- Reading a text begins with a step. -/
theorem lexFrom_of_lexStep {named : Bool} {state next : LexState} {u : CodeUnit}
    {out : List Token} (h : lexStep named state u = some (out, next)) (rest : Text) :
    lexFrom named state (u :: rest) = (lexFrom named next rest).map (out ++ ·) := by
  rw [lexFrom, h]

/-- Reading two texts one after the other reads the second from the state behind the first. -/
theorem lexFrom_append (named : Bool) (state : LexState) (s t : Text) :
    lexFrom named state (s ++ t) =
      (lexRun named state s).bind fun (out, mid) => (lexFrom named mid t).map (out ++ ·) := by
  induction s generalizing state with
  | nil => simp [lexRun]
  | cons u rest ih =>
    rw [List.cons_append, lexFrom, lexRun]
    cases lexStep named state u with
    | none => rfl
    | some step =>
      obtain ⟨out, next⟩ := step
      simp only [ih]
      cases lexRun named next rest with
      | none => rfl
      | some tail => simp [Function.comp_def, Option.map_map]

/-- A text that is read with something behind it is read up to a state from which the rest is. -/
theorem lexFrom_append_eq_some {named : Bool} {state : LexState} {s t : Text} {tokens : List Token}
    (h : lexFrom named state (s ++ t) = some tokens) :
    ∃ out mid more, lexRun named state s = some (out, mid) ∧
      lexFrom named mid t = some more ∧ tokens = out ++ more := by
  rw [lexFrom_append] at h
  obtain ⟨⟨out, mid⟩, run, rest⟩ := Option.bind_eq_some_iff.1 h
  obtain ⟨more, read, rfl⟩ := Option.map_eq_some_iff.1 rest
  exact ⟨out, mid, more, run, read, rfl⟩

/-- Reading a text to its end is reading it up to a state and ending there. -/
theorem lexFrom_eq_lexRun (named : Bool) (state : LexState) (t : Text) :
    lexFrom named state t =
      (lexRun named state t).bind fun (out, last) => (lexEnd last).map (out ++ ·) := by
  have h := lexFrom_append named state t []
  simpa only [List.append_nil, lexFrom] using h

/-- A unit that goes on with no lexeme which a pattern could end with: it is no word unit, belongs to
no bounds and makes no quantifier lazy. -/
def endsLexeme (u : CodeUnit) : Bool := !CodeUnit.isWord u && u ≠ '?' && u ≠ ',' && u ≠ '}'

/-- What ends a lexeme is no letter and no digit. -/
theorem no_word_of_endsLexeme {u : CodeUnit} (h : endsLexeme u = true) :
    CodeUnit.isLetter u = false ∧ CodeUnit.isDigit u = false ∧ CodeUnit.isHexDigit u = false := by
  simp only [endsLexeme, CodeUnit.isWord, Bool.and_eq_true, Bool.not_eq_true',
    Bool.or_eq_false_iff] at h
  obtain ⟨⟨⟨⟨⟨hletter, hdigit⟩, -⟩, -⟩, -⟩, -⟩ := h
  refine ⟨hletter, hdigit, ?_⟩
  have hupper : ('F' : CodeUnit) ≤ 'Z' := by decide
  have hlower : ('f' : CodeUnit) ≤ 'z' := by decide
  rw [Bool.eq_false_iff] at hletter ⊢
  simp only [CodeUnit.isHexDigit, CodeUnit.isLetter, hdigit, Bool.false_or, ne_eq, Bool.or_eq_true,
    Bool.and_eq_true, decide_eq_true_eq] at hletter ⊢
  rintro (⟨hleast, hmost⟩ | ⟨hleast, hmost⟩)
  · exact hletter (.inl ⟨hleast, UInt16.le_trans hmost hupper⟩)
  · exact hletter (.inr ⟨hleast, UInt16.le_trans hmost hlower⟩)

/-- Such a unit ends the lexeme that a state is in the middle of just as the end would. -/
theorem lexStep_of_lexEnd (named : Bool) {state : LexState} {out : List Token} {u : CodeUnit}
    (hend : lexEnd state = some out) (hu : endsLexeme u = true) :
    lexStep named state u = flush out u := by
  obtain ⟨noLetter, noDigit, noHex⟩ := no_word_of_endsLexeme hu
  simp only [endsLexeme, Bool.and_eq_true, decide_eq_true_eq] at hu
  cases state <;> simp_all [lexEnd, lexStep]

/-- The lexemes of a complete part that such a unit follows. -/
theorem lexFrom_of_lexEnd (named : Bool) {state : LexState} {out : List Token} {u : CodeUnit}
    (hend : lexEnd state = some out) (hu : endsLexeme u = true) (rest : Text) :
    lexFrom named state (u :: rest) =
      (lexFrom named .plain (u :: rest)).map (out ++ ·) := by
  rw [lexFrom, lexFrom, lexStep_of_lexEnd named hend hu]
  simp [lexStep, flush, Option.map_map, Function.comp_def]

/-- The lexemes from an opening parenthesis on, where what it opens is no special group. -/
theorem lexFrom_group (named : Bool) {t : Text} (hne : t ≠ []) (hmark : t.head? ≠ some ('?' : CodeUnit)) :
    lexFrom named .group t =
      (lexFrom named .plain t).map (.openGroup (.capture none) :: ·) := by
  cases t with
  | nil => exact absurd rfl hne
  | cons u rest =>
    have : u ≠ '?' := by simpa using hmark
    rw [lexFrom, lexFrom]
    simp [lexStep, this, flush, Option.map_map, Function.comp_def]

/-- A text behind a quantifier begins with that quantifier, greedy or lazy. -/
theorem lexFrom_quantified {named : Bool} {min : Nat} {max : Option Nat} {t : Text}
    {tokens : List Token} (h : lexFrom named (.quantified min max) t = some tokens) :
    ∃ greedy rest, tokens = .quantifier ⟨min, max, greedy⟩ :: rest := by
  cases t with
  | nil =>
    rw [lexFrom, lexEnd, Option.some.injEq] at h
    exact ⟨true, [], h.symm⟩
  | cons u rest =>
    rw [lexFrom, lexStep] at h
    split at h
    · simp at h
    · next out next hstep =>
      obtain ⟨more, -, rfl⟩ := Option.map_eq_some_iff.1 h
      split at hstep
      · simp only [Option.some.injEq, Prod.mk.injEq] at hstep
        exact ⟨false, more, by rw [← hstep.1]; rfl⟩
      · simp only [flush, Option.some.injEq, Prod.mk.injEq] at hstep
        exact ⟨true, (plainStep u).1 ++ more, by rw [← hstep.1]; simp⟩

end Regex

end UriRouting
