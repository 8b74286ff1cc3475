import UriRouting.Proofs.Regex.Containment
import Mathlib.Tactic.SplitIfs

/-!
# The tree of a part of a pattern

The reader treats a part that is contained the same wherever it stands: what lies around it stays on
the stack untouched, and the part only takes the next numbers for its groups. `partTree?` is the tree
of such a part, given the names of the groups of the whole pattern and the number of groups opened
before; the tree of a pattern is that of the pattern as a part of itself.
-/

namespace UriRouting

open scoped CodeUnit

namespace Regex

/-- A state inside some more open groups. -/
def ReadState.under (s : ReadState) (base : List (OpenGroup × Level)) : ReadState :=
  { s with outer := s.outer ++ base }

/-- Read lexemes one after the other. -/
def readAll (names : List (Option (List Char))) (s : ReadState) (tokens : List Token) :
    Option ReadState :=
  tokens.foldlM (readStep names) s

@[simp] theorem readAll_nil (names : List (Option (List Char))) (s : ReadState) :
    readAll names s [] = some s := rfl

/-- Reading some lexemes begins with reading the first. -/
theorem readAll_cons (names : List (Option (List Char))) (s : ReadState) (token : Token)
    (rest : List Token) :
    readAll names s (token :: rest) =
      (readStep names s token).bind (readAll names · rest) :=
  List.foldlM_cons

/-- Reading two lists of lexemes reads the second from the state behind the first. -/
theorem readAll_append (names : List (Option (List Char))) (s : ReadState) (a b : List Token) :
    readAll names s (a ++ b) = (readAll names s a).bind (readAll names · b) :=
  List.foldlM_append

/-- Reading one lexeme is one step. -/
theorem readAll_singleton (names : List (Option (List Char))) (s : ReadState) (token : Token) :
    readAll names s [token] = readStep names s token := by
  rw [readAll_cons]
  exact Option.bind_fun_some _

/-- Units that stand for themselves are added to the level. -/
theorem readAll_units (names : List (Option (List Char))) (s : ReadState) (us : Text) :
    readAll names s (units us) = some { s with level := s.level.pushUnits us } := by
  induction us generalizing s with
  | nil => rfl
  | cons u rest ih => exact ih { s with level := s.level.pushAtom (.unit u) }

/-- The groups of terms in sequence. -/
@[simp] theorem Node.groups_sequence (terms : List Node) :
    (Node.sequence terms).groups = terms.flatMap Node.groups := by
  induction terms with
  | nil => rfl
  | cons n rest ih => exact congrArg (n.groups ++ ·) ih

namespace Level

/-- The groups read on a level, in the order of their openings. -/
def groups (l : Level) : List Nat :=
  l.branches.reverse.flatMap Node.groups ++ l.allTerms.reverse.flatMap Node.groups

@[simp] theorem allTerms_pushAtom (l : Level) (n : Node) :
    (l.pushAtom n).allTerms = n :: l.allTerms := rfl

@[simp] theorem allTerms_pushFixed (l : Level) (n : Node) :
    (l.pushFixed n).allTerms = n :: l.allTerms := rfl

/-- Units are terms one by one. -/
theorem allTerms_pushUnits (l : Level) (us : Text) :
    (l.pushUnits us).allTerms = (us.map Node.unit).reverse ++ l.allTerms := by
  induction us generalizing l with
  | nil => rfl
  | cons u rest ih =>
    rw [pushUnits_cons, ih, allTerms_pushAtom, List.map_cons, List.reverse_cons,
      List.append_assoc, List.singleton_append]

/-- Units finish no alternative. -/
@[simp] theorem branches_pushUnits (l : Level) (us : Text) :
    (l.pushUnits us).branches = l.branches := by
  induction us generalizing l with
  | nil => rfl
  | cons u rest ih => exact ih (l.pushAtom (.unit u))

@[simp] theorem groups_start : start.groups = [] := rfl

@[simp] theorem groups_pushAtom (l : Level) (n : Node) :
    (l.pushAtom n).groups = l.groups ++ n.groups := by
  simp [groups, pushAtom, allTerms]

@[simp] theorem groups_pushFixed (l : Level) (n : Node) :
    (l.pushFixed n).groups = l.groups ++ n.groups := by
  simp [groups, pushFixed, allTerms]

@[simp] theorem groups_pushUnits (l : Level) (us : Text) : (l.pushUnits us).groups = l.groups := by
  induction us generalizing l with
  | nil => rfl
  | cons u rest ih => simp [ih, Node.groups]

@[simp] theorem groups_newBranch (l : Level) : l.newBranch.groups = l.groups := by
  simp [groups, newBranch, branch, allTerms]

/-- The disjunction of a level has the groups of the level. -/
@[simp] theorem groups_node (l : Level) : l.node.groups = l.groups := by
  have fold_groups (branches : List Node) (last : Node) :
      (branches.foldl (fun rest branch => Node.alt branch rest) last).groups =
        branches.reverse.flatMap Node.groups ++ last.groups := by
    induction branches generalizing last with
    | nil => rfl
    | cons n rest ih => simp [ih, Node.groups]
  simp [node, fold_groups, groups, branch]

end Level

/-- What a step does to the level alone, for a lexeme that neither opens nor closes a group. -/
def levelStep (names : List (Option (List Char))) (l : Level) (token : Token) : Option Level :=
  (readStep names ⟨l, [], 0⟩ token).map ReadState.level

/-- A lexeme that neither opens nor closes a group changes the level alone. -/
theorem readStep_level {token : Token} (h : token.bracket? = none)
    (names : List (Option (List Char))) (s : ReadState) :
    readStep names s token =
      (levelStep names s.level token).map fun l => { s with level := l } := by
  cases token with
  | openGroup opening => simp [Token.bracket?] at h
  | close => simp [Token.bracket?] at h
  | decimal digits =>
    simp only [levelStep, readStep]
    cases backReference? names.length digits <;> rfl
  | reference name =>
    simp only [levelStep, readStep]
    cases names.idxOf? (some name) <;> rfl
  | quantifier q =>
    simp only [levelStep, readStep]
    cases s.level.atom with
    | none => rfl
    | some n => by_cases hq : q.inOrder = true <;> simp [hq]
  | _ => rfl

/-- A lexeme that neither opens nor closes a group adds none to the level. -/
theorem levelStep_groups {names : List (Option (List Char))} {l next : Level} {token : Token}
    (hbracket : token.bracket? = none) (h : levelStep names l token = some next) :
    next.groups = l.groups := by
  obtain ⟨s, hs, rfl⟩ := Option.map_eq_some_iff.1 h
  cases token with
  | openGroup opening => simp [Token.bracket?] at hbracket
  | close => simp [Token.bracket?] at hbracket
  | unit u =>
    obtain rfl := Option.some.inj hs
    simp [Node.groups]
  | set c =>
    obtain rfl := Option.some.inj hs
    simp [Node.groups]
  | assertion a =>
    obtain rfl := Option.some.inj hs
    simp [Node.groups]
  | bar =>
    obtain rfl := Option.some.inj hs
    simp
  | decimal digits =>
    rw [readStep] at hs
    split at hs <;> obtain rfl := Option.some.inj hs
    · simp [Node.groups]
    · exact l.groups_pushUnits _
  | reference name =>
    rw [readStep] at hs
    split at hs
    · obtain rfl := Option.some.inj hs
      simp [Node.groups]
    · simp at hs
  | quantifier q =>
    rw [readStep] at hs
    split at hs
    · simp at hs
    · next n hatom =>
      split_ifs at hs
      obtain rfl := Option.some.inj hs
      have hatom : l.atom = some n := hatom
      simp [Level.groups, Level.pushFixed, Level.allTerms, hatom, Node.groups]

/-- What a step can do: open a group, close the innermost one, or change the level. -/
theorem readStep_cases {names : List (Option (List Char))} {s next : ReadState} {token : Token}
    (h : readStep names s token = some next) :
    (∃ opening, token = .openGroup opening ∧ next = openStep s opening) ∨
      (∃ g level outer, token = .close ∧ s.outer = (g, level) :: outer ∧
        next = ⟨g.close level s.level.node, outer, s.opened⟩) ∨
      ∃ level, token.bracket? = none ∧ levelStep names s.level token = some level ∧
        next = { s with level := level } := by
  cases htoken : token.bracket? with
  | none =>
    rw [readStep_level htoken] at h
    obtain ⟨level, hlevel, rfl⟩ := Option.map_eq_some_iff.1 h
    exact .inr (.inr ⟨level, rfl, hlevel, rfl⟩)
  | some bracket =>
    cases token with
    | openGroup opening => exact .inl ⟨opening, rfl, (Option.some.inj h).symm⟩
    | close =>
      rw [readStep] at h
      split at h
      · simp at h
      · next g level outer houter =>
        exact .inr (.inl ⟨g, level, outer, rfl, houter, (Option.some.inj h).symm⟩)
    | _ => simp [Token.bracket?] at htoken

/-- A step opens and closes the groups that its lexeme opens and closes. -/
theorem readStep_depth {names : List (Option (List Char))} {s next : ReadState} {token : Token}
    (h : readStep names s token = some next) :
    depthAfter s.outer.length (brackets [token]) = some next.outer.length := by
  obtain ⟨opening, rfl, rfl⟩ | ⟨g, level, outer, rfl, houter, rfl⟩ | ⟨level, hnone, -, rfl⟩ :=
    readStep_cases h
  · rcases opening with - | (- | name) | ⟨direction, negated⟩ <;> rfl
  · rw [houter]
    rfl
  · simp [brackets, hnone, depthAfter]

/-- A step leaves the groups around it alone, unless it closes the innermost of them. -/
theorem readStep_under {names : List (Option (List Char))} {s : ReadState} {token : Token}
    (h : (depthAfter s.outer.length (brackets [token])).isSome)
    (base : List (OpenGroup × Level)) :
    readStep names (s.under base) token = (readStep names s token).map (·.under base) := by
  cases htoken : token.bracket? with
  | none =>
    rw [readStep_level htoken, readStep_level htoken, Option.map_map]
    rfl
  | some bracket =>
    cases token with
    | openGroup opening => cases opening <;> rfl
    | close =>
      obtain ⟨level, outer, opened⟩ := s
      cases outer with
      | nil => simp [brackets, Token.bracket?, depthAfter, Bracket.depth] at h
      | cons top rest => rfl
    | _ => simp [Token.bracket?] at htoken

/-- Reading lexemes opens and closes the groups that they open and close. -/
theorem readAll_depth {names : List (Option (List Char))} {s last : ReadState}
    {tokens : List Token} (h : readAll names s tokens = some last) :
    depthAfter s.outer.length (brackets tokens) = some last.outer.length := by
  induction tokens generalizing s with
  | nil =>
    obtain rfl : s = last := by simpa using h
    rfl
  | cons token rest ih =>
    rw [readAll_cons] at h
    obtain ⟨next, hstep, hrest⟩ := Option.bind_eq_some_iff.1 h
    rw [← List.singleton_append, brackets_append, depthAfter_append, readStep_depth hstep]
    exact ih hrest

/-- Lexemes that close no group but their own are read alike inside any groups. -/
theorem readAll_under (names : List (Option (List Char))) (s : ReadState) {tokens : List Token}
    (h : (depthAfter s.outer.length (brackets tokens)).isSome)
    (base : List (OpenGroup × Level)) :
    readAll names (s.under base) tokens = (readAll names s tokens).map (·.under base) := by
  induction tokens generalizing s with
  | nil => rfl
  | cons token rest ih =>
    rw [← List.singleton_append, brackets_append, depthAfter_append] at h
    have hfirst : (depthAfter s.outer.length (brackets [token])).isSome :=
      Option.isSome_of_isSome_bind h
    rw [readAll_cons, readAll_cons, readStep_under hfirst]
    cases hstep : readStep names s token with
    | none => rfl
    | some next =>
      rw [readStep_depth hstep] at h
      exact ih next h

/-- Lexemes that are read by themselves are read alike inside any groups. -/
theorem readAll_inside {names : List (Option (List Char))} {opened : Nat} {tokens : List Token}
    {last : ReadState} (h : readAll names ⟨.start, [], opened⟩ tokens = some last)
    (base : List (OpenGroup × Level)) :
    readAll names ⟨.start, base, opened⟩ tokens = some (last.under base) := by
  have hunder := readAll_under names ⟨.start, [], opened⟩ (by rw [readAll_depth h]; rfl) base
  rwa [h] at hunder

/-- Whether a bracket opens a capturing group. -/
def Bracket.isCapture : Bracket → Bool
  | captures => true
  | names => true
  | _ => false

/-- The number of capturing groups that a part of a pattern opens. -/
def captureCount (part : Text) : Nat := (Scan.plain.brackets part).countP Bracket.isCapture

/-- The names of capturing groups among lexemes put together. -/
theorem captureNames_append (a b : List Token) :
    captureNames (a ++ b) = captureNames a ++ captureNames b :=
  List.filterMap_append

/-- Units that stand for themselves capture nothing. -/
theorem captureNames_units (text : Text) : captureNames (units text) = [] := by
  simp [captureNames, units]

/-- How many groups some lexemes capture shows in their brackets. -/
theorem length_captureNames_eq_countP (tokens : List Token) :
    (captureNames tokens).length = (brackets tokens).countP Bracket.isCapture := by
  induction tokens with
  | nil => rfl
  | cons token rest ih =>
    rw [← List.singleton_append, captureNames_append, brackets_append, List.length_append,
      List.countP_append, ih]
    congr 1
    rcases token with - | - | - | - | - | (- | (- | name) | ⟨direction, negated⟩) | - | - | - <;> rfl

/-- The lexemes of a part capture as many groups as its text shows. -/
theorem length_captureNames {named : Bool} {part : Text} {tokens : List Token}
    (h : lex named part = some tokens) : (captureNames tokens).length = captureCount part := by
  rw [length_captureNames_eq_countP, brackets_eq_scan h]
  rfl

/-- Whether some lexemes name a group shows in their brackets. -/
theorem any_captureNames (tokens : List Token) :
    (captureNames tokens).any Option.isSome = (brackets tokens).contains .names := by
  induction tokens with
  | nil => rfl
  | cons token rest ih =>
    rw [← List.singleton_append, captureNames_append, brackets_append, List.any_append,
      List.contains_append, ih]
    congr 1
    rcases token with - | - | - | - | - | (- | (- | name) | ⟨direction, negated⟩) | - | - | - <;> rfl

/-- The number that a group takes, if it captures. -/
def OpenGroup.numbers : OpenGroup → List Nat
  | capture index => [index]
  | _ => []

/-- The groups opened so far, in the order of their openings. -/
def ReadState.groups (s : ReadState) : List Nat :=
  (s.outer.reverse.flatMap fun (g, l) => l.groups ++ g.numbers) ++ s.level.groups

/-- Closing a group puts its number and its groups behind those of the level around it. -/
theorem OpenGroup.groups_close (g : OpenGroup) (level : Level) (body : Node) :
    (g.close level body).groups = level.groups ++ g.numbers ++ body.groups := by
  rcases g with - | index | ⟨- | -, negated⟩ <;> simp [close, numbers, Node.groups]

/-- A step gives a group that its lexeme captures the next number. -/
theorem readStep_groups {names : List (Option (List Char))} {s next : ReadState} {token : Token}
    (h : readStep names s token = some next) :
    next.opened = s.opened + (captureNames [token]).length ∧
      next.groups = s.groups ++ List.range' (s.opened + 1) (captureNames [token]).length := by
  obtain ⟨opening, rfl, rfl⟩ | ⟨g, level, outer, rfl, houter, rfl⟩ | ⟨level, hnone, hlevel, rfl⟩ :=
    readStep_cases h
  · rcases opening with - | name | ⟨direction, negated⟩ <;>
      simp [openStep, ReadState.groups, OpenGroup.numbers, captureNames]
  · simp [ReadState.groups, houter, OpenGroup.groups_close, captureNames]
  · have hcapture : captureNames [token] = [] := by
      cases token with
      | openGroup opening => simp [Token.bracket?] at hnone
      | _ => rfl
    simp [ReadState.groups, levelStep_groups hnone hlevel, hcapture]

/-- Reading lexemes numbers the groups that they capture one after the other. -/
theorem readAll_groups {names : List (Option (List Char))} {s last : ReadState}
    {tokens : List Token} (h : readAll names s tokens = some last) :
    last.opened = s.opened + (captureNames tokens).length ∧
      last.groups = s.groups ++ List.range' (s.opened + 1) (captureNames tokens).length := by
  induction tokens generalizing s with
  | nil =>
    obtain rfl : s = last := by simpa using h
    simp [captureNames]
  | cons token rest ih =>
    rw [readAll_cons] at h
    obtain ⟨next, hstep, hrest⟩ := Option.bind_eq_some_iff.1 h
    obtain ⟨hopened, hgroups⟩ := readStep_groups hstep
    obtain ⟨ihopened, ihgroups⟩ := ih hrest
    rw [← List.singleton_append, captureNames_append, List.length_append]
    refine ⟨by omega, ?_⟩
    rw [ihgroups, hopened, hgroups, List.append_assoc, Nat.add_right_comm s.opened,
      List.range'_append_1]

/-- Whether `\k` begins a reference in a pattern whose capturing groups have the given names. -/
def readsReferences (names : List (Option (List Char))) : Bool := names.any Option.isSome

/-- The tree of a part of a pattern whose capturing groups have the given names, behind so many
opened groups. -/
def partTree? (names : List (Option (List Char))) (opened : Nat) (part : Text) : Option Node := do
  let tokens ← lex (readsReferences names) part
  let last ← readAll names ⟨.start, [], opened⟩ tokens
  if last.outer.isEmpty then some last.level.node else none

/-- A part has a tree if its lexemes can be read and leave no group open. -/
theorem partTree?_eq_some_iff {names : List (Option (List Char))} {opened : Nat} {part : Text}
    {root : Node} :
    partTree? names opened part = some root ↔
      ∃ tokens last, lex (readsReferences names) part = some tokens ∧
        readAll names ⟨.start, [], opened⟩ tokens = some last ∧ last.outer = [] ∧
        last.level.node = root := by
  simp [partTree?, Option.bind_eq_some_iff]

/-- The groups of a part are numbered in order from the first free number on. -/
theorem groups_partTree {names : List (Option (List Char))} {opened : Nat} {part : Text}
    {root : Node} (h : partTree? names opened part = some root) :
    root.groups = List.range' (opened + 1) (captureCount part) := by
  obtain ⟨tokens, last, hlex, hread, houter, rfl⟩ := partTree?_eq_some_iff.1 h
  obtain ⟨-, hgroups⟩ := readAll_groups hread
  rw [← length_captureNames hlex, Level.groups_node]
  simpa [ReadState.groups, houter] using hgroups

/-- The names of the capturing groups of a pattern, in order; most groups have none. -/
def namesOf? (source : Text) : Option (List (Option (List Char))) :=
  (tokensOf? source).map captureNames

/-- The names of its groups tell how a pattern reads `\k`. -/
theorem lex_of_tokensOf {source : Text} {tokens : List Token}
    (h : tokensOf? source = some tokens) :
    lex (readsReferences (captureNames tokens)) source = some tokens := by
  obtain ⟨plain, hplain, h⟩ := Option.bind_eq_some_iff.1 h
  split_ifs at h with hnamed
  · have : readsReferences (captureNames tokens) = true := by
      rw [readsReferences, any_captureNames, brackets_eq_scan h, ← brackets_eq_scan hplain,
        ← any_captureNames]
      exact hnamed
    rw [this, h]
  · obtain rfl := Option.some.inj h
    rw [readsReferences, Bool.eq_false_iff.2 hnamed, hplain]

/-- Patterns name the same groups if their lexemes do, however `\k` is read. -/
theorem namesOf?_eq_of_lex {s t : Text} {f : List Token → List Token}
    (hlex : ∀ named, lex named s = (lex named t).map f)
    (hnames : ∀ tokens, captureNames (f tokens) = captureNames tokens) :
    namesOf? s = namesOf? t := by
  rw [namesOf?, namesOf?, tokensOf?, tokensOf?, hlex false]
  cases lex false t with
  | none => rfl
  | some tokens =>
    simp only [Option.map_some, Option.bind_eq_bind, Option.bind_some, hnames]
    split_ifs
    · rw [hlex true, Option.map_map]
      congr 1
      exact funext hnames
    · simp [hnames]

/-- A pattern has a name, or none, for each of its groups. -/
theorem length_namesOf {source : Text} {names : List (Option (List Char))}
    (h : namesOf? source = some names) : names.length = captureCount source := by
  obtain ⟨tokens, htokens, rfl⟩ := Option.map_eq_some_iff.1 h
  exact length_captureNames (lex_of_tokensOf htokens)

/-- The tree of a pattern is that of the pattern as a part of itself. -/
theorem ofSource?_eq (source : Text) :
    ofSource? source = (namesOf? source).bind fun names =>
      if (names.filterMap id).Nodup then
        (partTree? names 0 source).map fun root => ⟨root, names.length⟩
      else none := by
  rw [ofSource?, namesOf?]
  cases htokens : tokensOf? source with
  | none => rfl
  | some tokens =>
    have hlex := lex_of_tokensOf htokens
    change ofTokens? tokens = if ((captureNames tokens).filterMap id).Nodup then
      (partTree? (captureNames tokens) 0 source).map fun root => ⟨root, (captureNames tokens).length⟩
      else none
    unfold ofTokens?
    dsimp only [Option.bind_eq_bind]
    by_cases hnodup : ((captureNames tokens).filterMap id).Nodup
    · have hguard : (guard ((captureNames tokens).filterMap id).Nodup : Option Unit) = some () :=
        if_pos hnodup
      rw [hguard, if_pos hnodup, Option.bind_some]
      simp only [partTree?, hlex, Option.bind_eq_bind, Option.bind_some, readAll]
      cases tokens.foldlM (readStep (captureNames tokens)) ⟨.start, [], 0⟩ with
      | none => rfl
      | some last => cases houter : last.outer <;> simp [houter]
    · have hguard : (guard ((captureNames tokens).filterMap id).Nodup : Option Unit) = none :=
        if_neg hnodup
      rw [hguard, if_neg hnodup]
      rfl

/-- The lexemes of a part that is read by itself and a closing parenthesis behind it. -/
theorem lexFrom_append_close {named : Bool} {part : Text} {tokens : List Token}
    (h : lex named part = some tokens) (rest : Text) :
    lexFrom named .plain (part ++ (')' :: rest : Text)) =
      (lexFrom named .plain rest).map (tokens ++ .close :: ·) := by
  rw [lex, lexFrom_eq_lexRun] at h
  obtain ⟨⟨out, last⟩, run, hend⟩ := Option.bind_eq_some_iff.1 h
  obtain ⟨more, hmore, rfl⟩ := Option.map_eq_some_iff.1 hend
  have hclose : lexFrom named .plain (')' :: rest) =
      (lexFrom named .plain rest).map ([.close] ++ ·) := rfl
  rw [lexFrom_append, run]
  simp [lexFrom_of_lexEnd named hmore (show endsLexeme ')' = true from rfl), hclose, Option.map_map, Function.comp_def]

/-- A contained part that is read before a closing parenthesis can be read by itself. -/
theorem exists_lex_of_append_close {named : Bool} {part rest : Text} {tokens : List Token}
    (hpart : Contained part) (h : lexFrom named .plain (part ++ (')' :: rest : Text)) = some tokens) :
    ∃ body, lex named part = some body := by
  obtain ⟨out, mid, more, run, hmid, -⟩ := lexFrom_append_eq_some h
  obtain ⟨hscan, -⟩ := lexRun_scan run (viable_of_lexFrom hmid)
  obtain ⟨last, hlast⟩ := exists_lexEnd_of_close (hscan.symm.trans hpart.ends) hmid
  exact ⟨out ++ last, by simp [lex, lexFrom_eq_lexRun, run, hlast]⟩

/-- The lexemes of a contained part and a closing parenthesis behind it, whether the part has lexemes by
itself or not. -/
theorem Contained.lexFrom_append_close {named : Bool} {part : Text} (hpart : Contained part)
    (rest : Text) :
    lexFrom named .plain (part ++ (')' :: rest : Text)) = (lex named part).bind fun tokens =>
      (lexFrom named .plain rest).map (tokens ++ .close :: ·) := by
  cases hlex : lex named part with
  | some tokens => exact Regex.lexFrom_append_close hlex rest
  | none =>
    cases hread : lexFrom named .plain (part ++ (')' :: rest : Text)) with
    | none => rfl
    | some tokens =>
      obtain ⟨body, hbody⟩ := exists_lex_of_append_close hpart hread
      rw [hlex] at hbody
      cases hbody

/-- A contained part leaves as many groups open as it finds. -/
theorem Contained.depthAfter_brackets {named : Bool} {part : Text} {tokens : List Token}
    (hpart : Contained part) (hlex : lex named part = some tokens) :
    depthAfter 0 (brackets tokens) = some 0 := by
  rw [brackets_eq_scan hlex]
  simpa [LexState.pending, LexState.scan, Scan.brackets, hpart.ends, Scan.finish]
    using hpart.balanced

/-- A contained part inside any groups is read as it is by itself. -/
theorem readAll_part {names : List (Option (List Char))} {opened : Nat} {part : Text}
    {base : List (OpenGroup × Level)} {tokens : List Token} {last : ReadState}
    (hpart : Contained part) (hlex : lex (readsReferences names) part = some tokens)
    (h : readAll names ⟨.start, base, opened⟩ tokens = some last) :
    partTree? names opened part = some last.level.node ∧ last.outer = base ∧
      last.opened = opened + captureCount part := by
  have hdepth := hpart.depthAfter_brackets hlex
  have hunder := readAll_under names ⟨.start, [], opened⟩
    (by rw [show List.length _ = 0 from rfl, hdepth]; rfl) base
  rw [show (ReadState.under ⟨.start, [], opened⟩ base) = ⟨.start, base, opened⟩ from rfl, h,
    eq_comm] at hunder
  obtain ⟨inner, hinner, rfl⟩ := Option.map_eq_some_iff.1 hunder
  have houter : inner.outer = [] := by
    have := readAll_depth hinner
    rw [show List.length _ = 0 from rfl, hdepth, Option.some.injEq] at this
    exact List.length_eq_zero_iff.1 this.symm
  refine ⟨partTree?_eq_some_iff.2 ⟨tokens, inner, hlex, hinner, houter, rfl⟩, ?_, ?_⟩
  · rw [ReadState.under, houter, List.nil_append]
  · rw [ReadState.under, (readAll_groups hinner).1, length_captureNames hlex]

/-- A contained part in capturing parentheses adds one group with the tree of the part. -/
theorem readAll_capture {names : List (Option (List Char))} {part : Text} {body : List Token}
    {s last : ReadState} (hpart : Contained part)
    (hlex : lex (readsReferences names) part = some body)
    (h : readAll names s (.openGroup (.capture none) :: body ++ [.close]) = some last) :
    ∃ root, partTree? names (s.opened + 1) part = some root ∧
      last = ⟨s.level.pushAtom (.group (s.opened + 1) root), s.outer,
        s.opened + 1 + captureCount part⟩ := by
  rw [List.cons_append, readAll_cons] at h
  change readAll names ⟨.start, (.capture (s.opened + 1), s.level) :: s.outer, s.opened + 1⟩
    (body ++ [.close]) = some last at h
  rw [readAll_append] at h
  obtain ⟨inner, hinner, hclose⟩ := Option.bind_eq_some_iff.1 h
  obtain ⟨htree, houter, hopened⟩ := readAll_part hpart hlex hinner
  refine ⟨inner.level.node, htree, ?_⟩
  rw [readAll_cons, readStep, houter] at hclose
  simpa [hopened, OpenGroup.close] using hclose.symm

end Regex

end UriRouting
