import UriRouting.Proofs.Regex.Framing
import UriRouting.Proofs.Regex.Parts
import UriRouting.Proofs.Text.Trimming
import UriRouting.Text.Lemmas

/-!
# White space behind a pattern

Blanks behind a pattern stand for themselves, so they add units and nothing else, unless the pattern
ends with a backslash that takes the first of them. Where it does not, the lexemes, the names of the
groups and whether the whole compiles are decided in front of the blanks (`isSome_ofSource_append_blanks`).
-/

namespace UriRouting

open scoped CodeUnit

namespace Regex

/-- A blank differs from every unit that is none. -/
theorem ne_of_isBlank {u v : CodeUnit} (hu : CodeUnit.isBlank u = true)
    (hv : CodeUnit.isBlank v = false) : u ≠ v := by
  rintro rfl
  rw [hu] at hv
  cases hv

/-- A blank is no word unit. -/
theorem isWord_of_isBlank {u : CodeUnit} (h : CodeUnit.isBlank u = true) :
    CodeUnit.isWord u = false := by
  rw [Bool.eq_false_iff]
  intro hword
  rw [Text.isBlank_of_isWord hword] at h
  cases h

/-- A blank ends every lexeme that a pattern could end with. -/
theorem endsLexeme_of_isBlank {u : CodeUnit} (h : CodeUnit.isBlank u = true) :
    endsLexeme u = true := by
  simp [endsLexeme, isWord_of_isBlank h, ne_of_isBlank h (v := '?') rfl,
    ne_of_isBlank h (v := ',') rfl, ne_of_isBlank h (v := '}') rfl]

/-- A blank stands for itself where a lexeme begins. -/
theorem plainStep_of_isBlank {u : CodeUnit} (h : CodeUnit.isBlank u = true) :
    plainStep u = ([.unit u], .plain) := by
  rw [plainStep]
  repeat rw [if_neg (ne_of_isBlank h rfl)]

/-- A blank is no half of a surrogate pair. -/
theorem isSurrogate_of_isBlank {u : CodeUnit} (h : CodeUnit.isBlank u = true) :
    CodeUnit.isSurrogate u = false := by
  rw [CodeUnit.isSurrogate_eq, decide_eq_false_iff_not]
  simp only [CodeUnit.isBlank, Bool.or_eq_true, Bool.and_eq_true, decide_eq_true_eq,
    UInt16.le_iff_toNat_le, ← UInt16.toNat_inj, UInt16.reduceToNat] at h
  omega

/-- No blank completes the angle bracket that ends a name. -/
theorem ne_of_nameStep_blank {state next : NameState} {u : CodeUnit} {c : Char}
    (hu : CodeUnit.isBlank u = true) (h : nameStep state u = some (some c, next)) : c ≠ '>' := by
  have hhex : CodeUnit.isHexDigit u = false :=
    (no_word_of_endsLexeme (endsLexeme_of_isBlank hu)).2.2
  have hsurrogate := isSurrogate_of_isBlank hu
  rintro rfl
  cases state with
  | plain =>
    rw [nameStep, if_neg (ne_of_isBlank hu rfl)] at h
    split_ifs at h
    · cases h
    · obtain ⟨c, hscalar, heq⟩ := Option.map_eq_some_iff.1 h
      obtain rfl : c = '>' := Option.some.inj (Prod.mk.inj heq).1
      rw [scalar?] at hscalar
      split_ifs at hscalar
      have hunits := Text.unitsOf_ofNat hsurrogate
      rw [Option.some.inj hscalar] at hunits
      exact ne_of_isBlank (v := '>') hu rfl (List.cons.inj hunits).1.symm
  | half high =>
    have hlow : CodeUnit.isLowSurrogate u = false := by
      simp only [CodeUnit.isSurrogate_eq, CodeUnit.isLowSurrogate_eq,
        decide_eq_false_iff_not] at hsurrogate ⊢
      omega
    simp [nameStep, hlow] at h
  | _ =>
    simp [nameStep, hhex, ne_of_isBlank hu (v := '}') rfl, ne_of_isBlank hu (v := '{') rfl,
      ne_of_isBlank hu (v := 'u') rfl] at h

/-- A name cannot end in blanks. -/
theorem lexFrom_name_blanks (named : Bool) (use : NameUse) (read : List Char) (state : NameState)
    {blanks : Text} (h : ∀ u ∈ blanks, CodeUnit.isBlank u = true) :
    lexFrom named (.name use read state) blanks = none := by
  induction blanks generalizing read state with
  | nil => rfl
  | cons u rest ih =>
    rw [List.forall_mem_cons] at h
    rw [lexFrom, lexStep, lexName]
    cases hstep : nameStep state u with
    | none => rfl
    | some step =>
      obtain ⟨_ | c, next⟩ := step
      · simp [ih _ _ h.2]
      · simp [ne_of_nameStep_blank h.1 hstep, ih _ _ h.2]

/-- Nor can a class. -/
theorem lexFrom_inClass_blanks (named : Bool) (body : Text) {blanks : Text}
    (h : ∀ u ∈ blanks, CodeUnit.isBlank u = true) :
    lexFrom named (.inClass body) blanks = none := by
  induction blanks generalizing body with
  | nil => rfl
  | cons u rest ih =>
    rw [List.forall_mem_cons] at h
    rw [lexFrom, lexStep, if_neg (ne_of_isBlank h.1 rfl), if_neg (ne_of_isBlank h.1 rfl)]
    simp [ih _ h.2]

/-- Blanks where a lexeme begins stand for themselves. -/
theorem lexFrom_plain_blanks (named : Bool) {blanks : Text}
    (h : ∀ u ∈ blanks, CodeUnit.isBlank u = true) :
    lexFrom named .plain blanks = some (units blanks) := by
  induction blanks with
  | nil => rfl
  | cons u rest ih =>
    rw [List.forall_mem_cons] at h
    have hstep : lexStep named .plain u = some ([.unit u], .plain) :=
      congrArg some (plainStep_of_isBlank h.1)
    rw [lexFrom_of_lexStep hstep, ih h.2]
    rfl

/-- Blanks behind a complete part end its last lexeme and stand for themselves. -/
theorem lexFrom_blanks_of_lexEnd (named : Bool) {state : LexState} {out : List Token}
    {blanks : Text} (h : ∀ u ∈ blanks, CodeUnit.isBlank u = true) (hend : lexEnd state = some out) :
    lexFrom named state blanks = some (out ++ units blanks) := by
  cases blanks with
  | nil => simpa [lexFrom, units] using hend
  | cons u rest =>
    rw [lexFrom_of_lexEnd named hend (endsLexeme_of_isBlank (h u List.mem_cons_self)),
      lexFrom_plain_blanks named h, Option.map_some]

/-- Where blanks can be read to the end, the pattern could have ended before them, unless the first of
them stands behind a backslash. -/
theorem exists_lexEnd_of_blanks {named : Bool} {state : LexState} {blanks : Text}
    {tokens : List Token} (h : ∀ u ∈ blanks, CodeUnit.isBlank u = true)
    (hread : lexFrom named state blanks = some tokens) (hstate : state ≠ .backslash) :
    ∃ out, lexEnd state = some out := by
  cases blanks with
  | nil => exact ⟨tokens, hread⟩
  | cons u rest =>
    rw [List.forall_mem_cons] at h
    have hne {v : CodeUnit} (hv : CodeUnit.isBlank v = false) : u ≠ v := ne_of_isBlank h.1 hv
    cases state with
    | backslash => exact absurd rfl hstate
    | reference =>
      rw [lexFrom, lexStep, if_neg (hne rfl)] at hread
      cases hread
    | groupMark =>
      rw [lexFrom, lexStep, if_neg (hne rfl), if_neg (hne rfl), if_neg (hne rfl),
        if_neg (hne rfl)] at hread
      cases hread
    | groupAngle =>
      -- behind the angle bracket a name begins
      have hname : lexFrom named .groupAngle (u :: rest) =
          lexFrom named (.name .capture [] .plain) (u :: rest) := by
        have hstep : lexStep named .groupAngle u = lexStep named (.name .capture [] .plain) u := by
          simp [lexStep, hne (v := '=') rfl, hne (v := '!') rfl]
        rw [lexFrom, lexFrom, hstep]
      rw [hname, lexFrom_name_blanks named _ _ _ (List.forall_mem_cons.2 h)] at hread
      cases hread
    | name use read state =>
      rw [lexFrom_name_blanks named use read state (List.forall_mem_cons.2 h)] at hread
      cases hread
    | inClass body =>
      rw [lexFrom_inClass_blanks named body (List.forall_mem_cons.2 h)] at hread
      cases hread
    | inClassBackslash body =>
      rw [lexFrom, lexStep] at hread
      simp [lexFrom_inClass_blanks named _ h.2] at hread
    | _ => exact ⟨_, rfl⟩

/-- A pattern whose last unit stands behind no open backslash has the lexemes it has with blanks
behind it, but for the blanks. -/
theorem lex_append_blanks (named : Bool) {part blanks : Text}
    (hpart : (Scan.plain.run part).2 ≠ .escaped) (h : ∀ u ∈ blanks, CodeUnit.isBlank u = true) :
    lex named (part ++ blanks) = (lex named part).map (· ++ units blanks) := by
  rw [lex, lex, lexFrom_append, lexFrom_eq_lexRun]
  cases hrun : lexRun named .plain part with
  | none => rfl
  | some step =>
    obtain ⟨out, mid⟩ := step
    simp only [Option.bind_some]
    cases hend : lexEnd mid with
    | some more => simp [lexFrom_blanks_of_lexEnd named h hend]
    | none =>
      cases hread : lexFrom named mid blanks with
      | none => rfl
      | some tokens =>
        have hmid : mid ≠ .backslash := by
          rintro rfl
          exact hpart (lexRun_scan hrun trivial).1
        obtain ⟨more, hmore⟩ := exists_lexEnd_of_blanks h hread hmid
        rw [hend] at hmore
        cases hmore

/-- Blanks behind a pattern change no name of a group. -/
theorem namesOf?_append_blanks {part blanks : Text}
    (hpart : (Scan.plain.run part).2 ≠ .escaped) (h : ∀ u ∈ blanks, CodeUnit.isBlank u = true) :
    namesOf? (part ++ blanks) = namesOf? part := by
  apply namesOf?_eq_of_lex (fun named => lex_append_blanks named hpart h)
  intro tokens
  rw [captureNames_append, captureNames_units, List.append_nil]

/-- Nor do they decide whether it has a tree. -/
theorem isSome_partTree_append_blanks (names : List (Option (List Char))) {part blanks : Text}
    (hpart : (Scan.plain.run part).2 ≠ .escaped) (h : ∀ u ∈ blanks, CodeUnit.isBlank u = true) :
    (partTree? names 0 (part ++ blanks)).isSome = (partTree? names 0 part).isSome := by
  rw [partTree?, partTree?, lex_append_blanks _ hpart h]
  cases lex (readsReferences names) part with
  | none => rfl
  | some tokens =>
    simp only [Option.map_some, Option.bind_eq_bind, Option.bind_some, readAll_append]
    cases readAll names ⟨.start, [], 0⟩ tokens with
    | none => rfl
    | some mid =>
      -- the blanks open and close no group
      obtain ⟨last, hlast, houter⟩ := readable_units blanks names mid
      rw [Option.bind_some, hlast, Option.bind_some, Option.bind_some, houter]
      split_ifs <;> rfl

/-- Whether a pattern compiles is decided in front of the blanks behind it, unless the first of them
is escaped. -/
theorem isSome_ofSource_append_blanks {part blanks : Text}
    (hpart : (Scan.plain.run part).2 ≠ .escaped) (h : ∀ u ∈ blanks, CodeUnit.isBlank u = true) :
    (ofSource? (part ++ blanks)).isSome = (ofSource? part).isSome := by
  rw [ofSource?_eq, ofSource?_eq, namesOf?_append_blanks hpart h]
  cases namesOf? part with
  | none => rfl
  | some names =>
    simp only [Option.bind_some]
    split_ifs
    · rw [Option.isSome_map, Option.isSome_map, isSome_partTree_append_blanks names hpart h]
    · rfl

end Regex

end UriRouting
