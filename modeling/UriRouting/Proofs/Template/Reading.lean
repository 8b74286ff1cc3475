import UriRouting.Proofs.Regex.Framing
import Mathlib.Data.List.Forall2

/-!
# What the pieces of a template are read from

The pieces of a template that has been read are the texts of its literals and what stands between
braces, in order and without a gap: `readFrom_texts`. A literal holds no opening brace. A placeholder
is `Sound`: its name is a name, and its constraint is an expression that closes what it opens and
captures the number of groups that is recorded for it.
-/

namespace UriRouting

open scoped CodeUnit

namespace Template

/-- What the checks of a placeholder establish. -/
structure Placeholder.Sound (p : Placeholder) : Prop where
  name : isName p.name = true
  contained : Regex.Contained p.pattern
  nonempty : p.pattern ≠ []
  unmarked : p.pattern.head? ≠ some ('?' : CodeUnit)
  count : Regex.captureCount p.pattern = p.groupCount

/-- The constraint that is put where none is written is sound. -/
theorem sound_default {name : Text} (h : isName name = true) :
    (Placeholder.mk name none 0).Sound where
  name := h
  contained := ⟨rfl, rfl⟩
  nonempty := List.cons_ne_nil _ _
  unmarked := show some ('[' : CodeUnit) ≠ some ('?' : CodeUnit) by decide
  count := rfl

/-- A constraint that compiles in a group does not begin with a question mark. -/
theorem head_ne_mark {constraint : Text} {groupCount : Nat}
    (h : constraintGroups? constraint = some groupCount) : constraint.head? ≠ some ('?' : CodeUnit) := by
  obtain ⟨r, hr, -⟩ := Option.map_eq_some_iff.1 h
  rw [Regex.ofSource?_eq] at hr
  obtain ⟨names, -, hr⟩ := Option.bind_eq_some_iff.1 hr
  split_ifs at hr
  obtain ⟨root, htree, -⟩ := Option.map_eq_some_iff.1 hr
  obtain ⟨tokens, last, hlex, hread, -⟩ := Regex.partTree?_eq_some_iff.1 htree
  intro hmark
  obtain ⟨rest, rfl⟩ := List.head?_eq_some_iff.1 hmark
  rw [List.append_assoc] at hlex
  obtain ⟨out, mid, more, hrun, hmore, rfl⟩ := Regex.lexFrom_append_eq_some hlex
  obtain ⟨rfl, rfl⟩ : [.openGroup .plain] = out ∧ .plain = mid := by
    have : Regex.lexRun (Regex.readsReferences names) .plain "(?:" =
        some ([.openGroup .plain], .plain) := rfl
    simpa [this] using hrun
  -- The question mark is read as a quantifier, and there is nothing in the group to repeat.
  rw [List.cons_append, Regex.lexFrom] at hmore
  change (Regex.lexFrom _ (.quantified 0 (some 1)) _).map ([] ++ ·) = some more at hmore
  obtain ⟨tail, htail, rfl⟩ := Option.map_eq_some_iff.1 hmore
  obtain ⟨greedy, rest', rfl⟩ := Regex.lexFrom_quantified htail
  rw [List.singleton_append, Regex.readAll_cons] at hread
  obtain ⟨inner, hopen, hread⟩ := Option.bind_eq_some_iff.1 hread
  obtain rfl := Option.some.inj hopen
  rw [List.nil_append, Regex.readAll_cons] at hread
  cases hread

/-- A constraint that closes no unopened group and compiles in a group is contained, and the groups
of the expression are its own. -/
theorem contained_of_constraintGroups {constraint : Text} {groupCount : Nat}
    (hunopened : closesUnopened 0 false constraint = false)
    (h : constraintGroups? constraint = some groupCount) :
    Regex.Contained constraint ∧ Regex.captureCount constraint = groupCount := by
  rw [Regex.constraintGroups?_eq hunopened] at h
  obtain ⟨r, hr, rfl⟩ := Option.map_eq_some_iff.1 h
  exact ⟨Regex.contained_of_ofSource hr, (Regex.groups_of_ofSource hr).1⟩

/-- A placeholder that has been read is sound. -/
theorem sound_of_readPlaceholder {template body : Text} {p : Placeholder}
    (h : readPlaceholder template body = .ok p) : p.Sound := by
  rw [readPlaceholder] at h
  split_ifs at h with hname hempty hunopened
  · obtain rfl := Except.ok.inj h
    exact sound_default (by simpa using hname)
  · split at h
    · cases h
    · next groupCount hgroups =>
      obtain rfl := Except.ok.inj h
      obtain ⟨hcontained, hcount⟩ :=
        contained_of_constraintGroups (Bool.eq_false_iff.2 hunopened) hgroups
      exact ⟨by simpa using hname, hcontained, hempty, head_ne_mark hgroups, hcount⟩

/-- What a piece is read from: a literal from its text, a placeholder from braces around a body. -/
def Piece.ReadFrom (template : Text) : Piece → Text → Prop
  | literal text, written => written = text ∧ text ≠ [] ∧ ('{' : CodeUnit) ∉ text
  | placeholder p, written =>
    ∃ body, written = (['{'] : Text) ++ body ++ (['}'] : Text) ∧
      readPlaceholder template body = .ok p

/-- What a state has read of the piece that it is in the middle of. -/
def ReadState.text : ReadState → Text
  | literal units => units.reverse
  | body _ _ units => '{' :: units.reverse
  | bodyBackslash _ _ units => '{' :: units.reverse

/-- The units of a literal hold no opening brace. -/
def ReadState.Proper : ReadState → Prop
  | literal units => ('{' : CodeUnit) ∉ units
  | _ => True

/-- Collected units are read as a literal, unless there are none. -/
theorem literalPiece_readFrom (template : Text) {units : Text} (h : ('{' : CodeUnit) ∉ units) :
    ∃ texts, List.Forall₂ (Piece.ReadFrom template) (literalPiece units) texts ∧
      texts.flatten = units.reverse := by
  by_cases hempty : units = []
  · exact ⟨[], by simp [literalPiece, hempty], by simp [hempty]⟩
  · refine ⟨[units.reverse], ?_, by simp⟩
    rw [literalPiece, if_neg hempty]
    exact .cons ⟨rfl, by simpa using hempty, by simpa using h⟩ .nil

/-- A step of the reader finishes pieces that were read from the first part of what it had read and
the unit, and goes on with the rest. -/
theorem readStep_readFrom {template : Text} {position : Nat} {state next : ReadState}
    {u : CodeUnit} {out : List Piece} (hstate : state.Proper)
    (h : readStep template position state u = .ok (out, next)) :
    next.Proper ∧ ∃ texts, List.Forall₂ (Piece.ReadFrom template) out texts ∧
      texts.flatten ++ next.text = state.text ++ [u] := by
  cases state with
  | literal units =>
    rw [readStep] at h
    split_ifs at h with hu
    · obtain ⟨rfl, rfl⟩ : literalPiece units = out ∧ ReadState.body position 0 [] = next := by
        simpa using h
      obtain ⟨texts, hread, htexts⟩ := literalPiece_readFrom template hstate
      exact ⟨trivial, texts, hread, by simp [htexts, ReadState.text, hu]⟩
    · obtain ⟨rfl, rfl⟩ : [] = out ∧ ReadState.literal (u :: units) = next := by simpa using h
      exact ⟨by simpa [ReadState.Proper, eq_comm, hu] using hstate, [], .nil,
        by simp [ReadState.text]⟩
  | body start depth units =>
    simp only [readStep] at h
    split_ifs at h with hbackslash hopen hclose
    · obtain ⟨rfl, rfl⟩ : [] = out ∧ ReadState.bodyBackslash start depth (u :: units) = next := by
        simpa using h
      exact ⟨trivial, [], .nil, by simp [ReadState.text]⟩
    · obtain ⟨rfl, rfl⟩ : [] = out ∧ ReadState.body start (depth + 1) (u :: units) = next := by
        simpa using h
      exact ⟨trivial, [], .nil, by simp [ReadState.text]⟩
    · split at h
      · cases hread : readPlaceholder template units.reverse with
        | error e => simp [hread, Except.map] at h
        | ok p =>
          obtain ⟨rfl, rfl⟩ : [.placeholder p] = out ∧ ReadState.literal [] = next := by
            simpa [hread, Except.map] using h
          refine ⟨by simp [ReadState.Proper], [_], .cons ⟨units.reverse, rfl, hread⟩ .nil, ?_⟩
          simp [ReadState.text, hclose]
      · next depth =>
        obtain ⟨rfl, rfl⟩ : [] = out ∧ ReadState.body start depth (u :: units) = next := by
          simpa using h
        exact ⟨trivial, [], .nil, by simp [ReadState.text]⟩
    · obtain ⟨rfl, rfl⟩ : [] = out ∧ ReadState.body start depth (u :: units) = next := by
        simpa using h
      exact ⟨trivial, [], .nil, by simp [ReadState.text]⟩
  | bodyBackslash start depth units =>
    obtain ⟨rfl, rfl⟩ : [] = out ∧ ReadState.body start depth (u :: units) = next := by
      simpa [readStep] using h
    exact ⟨trivial, [], .nil, by simp [ReadState.text]⟩

/-- The pieces of a template are read from its text, in order and without a gap. -/
theorem readFrom_texts {template : Text} {position : Nat} {state : ReadState} {rest : Text}
    {pieces : List Piece} (hstate : state.Proper)
    (h : readFrom template position state rest = .ok pieces) :
    ∃ texts, List.Forall₂ (Piece.ReadFrom template) pieces texts ∧
      texts.flatten = state.text ++ rest := by
  induction rest generalizing position state pieces with
  | nil =>
    cases state with
    | literal units =>
      obtain rfl : literalPiece units = pieces := by simpa [readFrom, readEnd] using h
      obtain ⟨texts, hread, htexts⟩ := literalPiece_readFrom template hstate
      exact ⟨texts, hread, by simp [htexts, ReadState.text]⟩
    | body start depth units => simp [readFrom, readEnd] at h
    | bodyBackslash start depth units => simp [readFrom, readEnd] at h
  | cons u rest ih =>
    rw [readFrom] at h
    split at h
    · cases h
    · next out next hstep =>
      cases htail : readFrom template (position + 1) next rest with
      | error e => simp [htail, Except.map] at h
      | ok more =>
        obtain rfl : out ++ more = pieces := by simpa [htail, Except.map] using h
        obtain ⟨hnext, texts, hread, htexts⟩ := readStep_readFrom hstate hstep
        obtain ⟨texts', hread', htexts'⟩ := ih hnext htail
        refine ⟨texts ++ texts', List.rel_append hread hread', ?_⟩
        rw [List.flatten_append, htexts', ← List.append_assoc, htexts, List.append_assoc,
          List.singleton_append]

/-- What reading establishes of an outline: its literals are not empty and hold no opening brace, and
its placeholders are sound. -/
structure Outline.Sound (o : Outline) : Prop where
  literal : ∀ text, .literal text ∈ o.pieces → text ≠ [] ∧ ('{' : CodeUnit) ∉ text
  placeholder : ∀ p, .placeholder p ∈ o.pieces → p.Sound

/-- An outline that has been read from a template: it is sound, its pieces are read from the whole
text, and its source is an expression. -/
theorem parse_sound {template : Text} {o : Outline} (h : Outline.parse template = .ok o) :
    o.Sound ∧ o.text = template ∧ (Regex.ofSource? o.source).isSome ∧
      ∃ texts, List.Forall₂ (Piece.ReadFrom template) o.pieces texts ∧
        texts.flatten = template := by
  rw [Outline.parse] at h
  split_ifs at h with hempty
  split at h
  · cases h
  · next pieces hread =>
    dsimp only at h
    split_ifs at h with hsource
    obtain rfl := Except.ok.inj h
    obtain ⟨texts, hpieces, htexts⟩ := readFrom_texts (by simp [ReadState.Proper]) hread
    have hmem (piece : Piece) (hpiece : piece ∈ pieces) : ∃ text, piece.ReadFrom template text := by
      obtain ⟨i, hi, rfl⟩ := List.getElem_of_mem hpiece
      exact ⟨_, hpieces.get hi (hpieces.length_eq ▸ hi)⟩
    refine ⟨⟨?_, ?_⟩, rfl, hsource, texts, hpieces, htexts⟩
    · intro text htext
      obtain ⟨_, -, hne, hbrace⟩ := hmem _ htext
      exact ⟨hne, hbrace⟩
    · intro p hp
      obtain ⟨_, body, -, hbody⟩ := hmem _ hp
      exact sound_of_readPlaceholder hbody

end Template

end UriRouting
