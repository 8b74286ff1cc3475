import UriRouting.Proofs.Regex.Reading

/-!
# Parts inside a frame

A part of a pattern is often compiled inside a group that is put around it, with something more on
either side of the group: a `Frame`. A contained part keeps its lexemes, its groups and its tree in a
frame, so it compiles there exactly if it compiles by itself. Every pattern that compiles by itself is
contained, and a part that compiles in a frame is contained unless it closes a group that it did not
open. So for a part that closes no unopened group the two are the same (`Frame.ofSource?_around`).
-/

namespace UriRouting

open scoped CodeUnit

namespace Regex

/-- A pattern ends in plain text or behind an opening parenthesis. -/
theorem scan_of_lexEnd {state : LexState} {out : List Token} (h : lexEnd state = some out) :
    state.scan = .plain ∨ state.scan = .group := by
  cases state <;> simp_all [lexEnd, LexState.scan]

/-- A pattern that compiles is contained. -/
theorem contained_of_ofSource {source : Text} {r : Regex} (h : ofSource? source = some r) :
    Contained source := by
  rw [ofSource?_eq] at h
  obtain ⟨names, -, h⟩ := Option.bind_eq_some_iff.1 h
  split_ifs at h
  obtain ⟨root, htree, -⟩ := Option.map_eq_some_iff.1 h
  obtain ⟨tokens, last, hlex, hread, houter, -⟩ := partTree?_eq_some_iff.1 htree
  have hdepth : depthAfter 0 (Scan.plain.brackets source) = some 0 := by
    have := readAll_depth hread
    rwa [brackets_eq_scan hlex, houter] at this
  rw [lex, lexFrom_eq_lexRun] at hlex
  obtain ⟨⟨out, finish⟩, hrun, hend⟩ := Option.bind_eq_some_iff.1 hlex
  obtain ⟨more, hmore, -⟩ := Option.map_eq_some_iff.1 hend
  have hscan : (Scan.plain.run source).2 = finish.scan :=
    (lexRun_scan hrun (lexEnd_scan hmore).2.2).1
  rw [Scan.brackets, depthAfter_append] at hdepth
  rcases scan_of_lexEnd hmore with hplain | hgroup
  · rw [hplain] at hscan
    refine ⟨hscan, ?_⟩
    simpa [hscan, Scan.finish, depthAfter] using hdepth
  · -- A group that the end of the pattern opens stays open.
    rw [hscan, hgroup] at hdepth
    obtain ⟨depth, -, hlast⟩ := Option.bind_eq_some_iff.1 hdepth
    simp [Scan.finish, depthAfter, Bracket.depth] at hlast

/-- A pattern that compiles closes no group that it did not open. -/
theorem closesUnopened_of_ofSource {source : Text} {r : Regex} (h : ofSource? source = some r) :
    Template.closesUnopened 0 false source = false := by
  have hcontained := contained_of_ofSource h
  rw [closesUnopened_eq]
  change (depthAfter 0 (Scan.plain.brackets source)).isNone = false
  rw [Scan.brackets, depthAfter_append, hcontained.balanced, hcontained.ends]
  rfl

/-- What is put around a part of a pattern: `front` ends with the parenthesis that opens a group, and
`back` stands behind the one that closes it. The group captures nothing, and nor does what is around
it; the level around the group is `level` before it and `closed` in the end. -/
structure Frame where
  front : Text
  back : Text
  opening : List Token
  closing : List Token
  level : Level
  closed : Node → Level
  lex_front : ∀ named, lexRun named .plain front = some (opening, .plain)
  lex_back : ∀ named, lexFrom named .plain back = some closing
  captureNames_opening : captureNames opening = []
  captureNames_closing : captureNames closing = []
  read_opening : ∀ names, readAll names ⟨.start, [], 0⟩ opening =
    some ⟨.start, [(.plain, level)], 0⟩
  read_closing : ∀ names root opened, readAll names ⟨level.pushAtom root, [], opened⟩ closing =
    some ⟨closed root, [], opened⟩
  scan_front : Scan.plain.run front = ([.opens], .plain)
  /-- A closing parenthesis closes a group only behind plain text; elsewhere it is lost, or closes
  what has just been opened. -/
  scan_back : ∀ (depth : Nat) (state : Scan),
    depthAfter (depth + 1) (state.brackets (')' :: back)) =
      some (if state = .plain then depth else depth + 1)

namespace Frame

variable (f : Frame) {part : Text}

/-- A part inside a frame. -/
def around (part : Text) : Text := f.front ++ part ++ (')' :: f.back : Text)

/-- The lexemes of a part inside a frame. -/
def tokens (tokens : List Token) : List Token := f.opening ++ tokens ++ .close :: f.closing

/-- The tree of a part inside a frame. -/
def tree (root : Node) : Node := (f.closed root).node

/-- The lexemes of a contained part stay the same in a frame. -/
theorem lex_around (named : Bool) (hpart : Contained part) :
    lex named (f.around part) = (lex named part).map f.tokens := by
  rw [lex, around, List.append_assoc, lexFrom_append, f.lex_front]
  change (lexFrom named .plain (part ++ (')' :: f.back : Text))).map (f.opening ++ ·) = _
  rw [hpart.lexFrom_append_close, f.lex_back]
  cases lex named part with
  | none => rfl
  | some tokens => simp [Frame.tokens]

/-- A frame captures nothing. -/
theorem captureNames_tokens (tokens : List Token) :
    captureNames (f.tokens tokens) = captureNames tokens := by
  have hclose : captureNames (.close :: f.closing) = captureNames f.closing := by
    simp [captureNames]
  rw [Frame.tokens, captureNames_append, captureNames_append, hclose, f.captureNames_opening,
    f.captureNames_closing, List.nil_append, List.append_nil]

/-- The groups of a contained part keep their names in a frame. -/
theorem namesOf?_around (hpart : Contained part) : namesOf? (f.around part) = namesOf? part :=
  namesOf?_eq_of_lex (fun named => f.lex_around named hpart) f.captureNames_tokens

/-- A part that can be read by itself is read in a frame. -/
theorem readAll_tokens {names : List (Option (List Char))} {tokens : List Token} {last : ReadState}
    (h : readAll names ⟨.start, [], 0⟩ tokens = some last) (houter : last.outer = []) :
    readAll names ⟨.start, [], 0⟩ (f.tokens tokens) =
      some ⟨f.closed last.level.node, [], last.opened⟩ := by
  rw [Frame.tokens, List.append_assoc, readAll_append, f.read_opening, Option.bind_some,
    readAll_append, readAll_inside h, Option.bind_some, readAll_cons]
  simp only [readStep, ReadState.under, houter, List.nil_append, Option.bind_some, OpenGroup.close]
  exact f.read_closing names _ _

/-- The tree of a contained part stays the same in a frame. -/
theorem partTree?_around (names : List (Option (List Char))) (hpart : Contained part) :
    partTree? names 0 (f.around part) = (partTree? names 0 part).map f.tree := by
  cases hown : partTree? names 0 part with
  | some root =>
    obtain ⟨tokens, last, hlex, hread, houter, rfl⟩ := partTree?_eq_some_iff.1 hown
    refine partTree?_eq_some_iff.2 ⟨f.tokens tokens, _, ?_, f.readAll_tokens hread houter, rfl, rfl⟩
    rw [f.lex_around _ hpart, hlex, Option.map_some]
  | none =>
    rw [Option.map_none, Option.eq_none_iff_forall_not_mem]
    intro root hroot
    obtain ⟨tokens, last, hlex, hread, -⟩ := partTree?_eq_some_iff.1 hroot
    rw [f.lex_around _ hpart] at hlex
    obtain ⟨body, hbody, rfl⟩ := Option.map_eq_some_iff.1 hlex
    rw [Frame.tokens, List.append_assoc, readAll_append, f.read_opening, Option.bind_some,
      readAll_append] at hread
    obtain ⟨inner, hinner, -⟩ := Option.bind_eq_some_iff.1 hread
    rw [(readAll_part hpart hbody hinner).1] at hown
    cases hown

/-- A contained part compiles in a frame exactly if it compiles by itself, and with as many
groups. -/
theorem ofSource?_around_of_contained (hpart : Contained part) :
    ofSource? (f.around part) = (ofSource? part).map fun r => ⟨f.tree r.root, r.groupCount⟩ := by
  rw [ofSource?_eq, ofSource?_eq, f.namesOf?_around hpart]
  cases namesOf? part with
  | none => rfl
  | some names =>
    simp only [Option.bind_some, f.partTree?_around names hpart]
    split_ifs
    · simp [Option.map_map, Function.comp_def]
    · rfl

/-- A part that closes no group that it did not open is contained if nothing is open behind the
frame. -/
theorem contained_of_depthAfter (hunopened : Template.closesUnopened 0 false part = false)
    (h : depthAfter 0 (Scan.plain.brackets (f.around part)) = some 0) : Contained part := by
  rw [closesUnopened_eq, Option.isNone_eq_false_iff, Option.isSome_iff_exists] at hunopened
  obtain ⟨total, htotal⟩ := hunopened
  obtain ⟨depth, hdepth⟩ : ∃ depth, depthAfter 0 (Scan.plain.run part).1 = some depth := by
    rw [show Scan.ofClass false = .plain from rfl, Scan.brackets, depthAfter_append] at htotal
    obtain ⟨depth, hdepth, -⟩ := Option.bind_eq_some_iff.1 htotal
    exact ⟨depth, hdepth⟩
  have hbehind : depthAfter (depth + 1) ((Scan.plain.run part).2.brackets (')' :: f.back)) =
      some 0 := by
    have hdepth' : depthAfter 1 (Scan.plain.run part).1 = some (depth + 1) := by
      simpa [Nat.add_comm] using depthAfter_add hdepth 1
    rw [around, List.append_assoc, Scan.brackets_append, f.scan_front, Scan.brackets_append] at h
    change depthAfter 1 ((Scan.plain.run part).1 ++ (Scan.plain.run part).2.brackets
      (')' :: f.back)) = some 0 at h
    rwa [depthAfter_append, hdepth'] at h
  rw [f.scan_back] at hbehind
  split at hbehind
  · next hplain =>
    obtain rfl : depth = 0 := by simpa using hbehind
    exact ⟨hplain, hdepth⟩
  · simp at hbehind

/-- A part that closes no group that it did not open is contained if it compiles in a frame. -/
theorem contained_of_ofSource_around {r : Regex}
    (hunopened : Template.closesUnopened 0 false part = false)
    (h : ofSource? (f.around part) = some r) : Contained part := by
  rw [ofSource?_eq] at h
  obtain ⟨names, -, h⟩ := Option.bind_eq_some_iff.1 h
  split_ifs at h
  obtain ⟨root, htree, -⟩ := Option.map_eq_some_iff.1 h
  obtain ⟨tokens, last, hlex, hread, houter, -⟩ := partTree?_eq_some_iff.1 htree
  have hdepth := readAll_depth hread
  rw [brackets_eq_scan hlex, houter] at hdepth
  exact f.contained_of_depthAfter hunopened hdepth

/-- A part that closes no group that it did not open compiles in a frame exactly if it compiles by
itself, and with as many groups. -/
theorem ofSource?_around (hunopened : Template.closesUnopened 0 false part = false) :
    ofSource? (f.around part) = (ofSource? part).map fun r => ⟨f.tree r.root, r.groupCount⟩ := by
  cases hown : ofSource? part with
  | some r => rw [f.ofSource?_around_of_contained (contained_of_ofSource hown), hown]
  | none =>
    cases haround : ofSource? (f.around part) with
    | none => rfl
    | some r =>
      have hpart := f.contained_of_ofSource_around hunopened haround
      rw [f.ofSource?_around_of_contained hpart, hown] at haround
      cases haround

end Frame

/-- The probe of a constraint: a group and an empty alternative behind it. -/
def Frame.probe : Frame where
  front := "(?:"
  back := "|"
  opening := [.openGroup .plain]
  closing := [.bar]
  level := .start
  closed root := (Level.start.pushAtom root).newBranch
  lex_front _ := rfl
  lex_back _ := rfl
  captureNames_opening := rfl
  captureNames_closing := rfl
  read_opening _ := rfl
  read_closing _ _ _ := rfl
  scan_front := rfl
  scan_back depth state := by cases state <;> rfl

/-- A constraint that closes no unopened group compiles in the probe exactly if it compiles by itself,
and with as many groups. -/
theorem constraintGroups?_eq {constraint : Text}
    (hunopened : Template.closesUnopened 0 false constraint = false) :
    Template.constraintGroups? constraint = (ofSource? constraint).map Regex.groupCount := by
  have hprobe : Template.constraintGroups? constraint =
      (ofSource? (Frame.probe.around constraint)).map Regex.groupCount := rfl
  rw [hprobe, Frame.probe.ofSource?_around hunopened, Option.map_map]
  rfl

/-- The groups of a pattern that compiles are numbered one after the other, and its text shows how
many they are. -/
theorem groups_of_ofSource {source : Text} {r : Regex} (h : ofSource? source = some r) :
    captureCount source = r.groupCount ∧ r.root.groups = List.range' 1 r.groupCount := by
  rw [ofSource?_eq] at h
  obtain ⟨names, hnames, h⟩ := Option.bind_eq_some_iff.1 h
  split_ifs at h
  obtain ⟨root, htree, rfl⟩ := Option.map_eq_some_iff.1 h
  have hcount := length_namesOf hnames
  exact ⟨hcount.symm, by rw [groups_partTree htree, hcount]⟩

end Regex

end UriRouting
