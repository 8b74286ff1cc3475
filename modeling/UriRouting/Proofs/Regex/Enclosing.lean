import Mathlib.Data.Option.Basic
import UriRouting.Proofs.Regex.Captures
import UriRouting.Proofs.Regex.Renumbering
import UriRouting.Text.Lemmas

/-!
# Patterns inside one more group

The groups of a pattern are one further on when capturing parentheses are put around the pattern, and
a numeric escape counts the parentheses as well. So it may mean another group there, or become a
reference where it was an octal escape. `Token.lowered` says what a lexeme inside the parentheses
means by itself: an escape refers to the group before the one that it names, and a reference to the
parentheses themselves, which are still open, repeats nothing. A pattern in parentheses matches what
the lowered lexemes match by themselves (`isSome_exec?_enclosed`), and if no escape is changed, what
the pattern matches.
-/

namespace UriRouting

open scoped CodeUnit

namespace Regex

/-- An expression without the parentheses around it: its groups are one lower, and a reference to the
parentheses repeats nothing. -/
def Node.lowered : Node → Node
  | backReference n => if n ≤ 1 then empty else backReference (n - 1)
  | group index body => group (index - 1) body.lowered
  | look direction negated body => look direction negated body.lowered
  | repetition q body => repetition q body.lowered
  | seq first second => seq first.lowered second.lowered
  | alt first second => alt first.lowered second.lowered
  | n => n

/-- Lowering is a change of numbers. -/
theorem Node.renumbers_lowered : Renumbers lowered (· - 1) where
  empty := rfl
  unit _ := rfl
  seq _ _ := rfl
  alt _ _ := rfl
  group _ _ := rfl
  look _ _ _ := rfl

/-- The groups of a lowered expression are one lower. -/
theorem Node.groups_lowered (n : Node) : n.lowered.groups = n.groups.map (· - 1) := by
  induction n with
  | backReference n =>
    rw [lowered]
    split <;> rfl
  | group index body ih => simp [lowered, groups, ih]
  | look direction negated body ih => exact ih
  | repetition q body ih => exact ih
  | seq first second ihfirst ihsecond => simp [lowered, groups, ihfirst, ihsecond]
  | alt first second ihfirst ihsecond => simp [lowered, groups, ihfirst, ihsecond]
  | _ => rfl

/-- What a lexeme of a pattern with so many groups means inside one more pair of capturing
parentheses, written for the pattern by itself. -/
def Token.lowered (groupCount : Nat) : Token → List Token
  | decimal digits =>
    match backReference? (groupCount + 1) digits with
    | none => [decimal digits]
    | some n => if n ≤ 1 then [openGroup .plain, close] else [decimal (Text.ofNat (n - 1))]
  | token => [token]

/-- A numeric escape that refers to a group inside one more pair of capturing parentheses. -/
def Token.IsNumericReference (groupCount : Nat) : Token → Prop
  | decimal digits => (backReference? (groupCount + 1) digits).isSome
  | _ => False

instance (groupCount : Nat) (token : Token) : Decidable (token.IsNumericReference groupCount) := by
  cases token <;> unfold Token.IsNumericReference <;> infer_instance

/-- Any other lexeme means the same by itself. -/
theorem Token.lowered_of_not {groupCount : Nat} {token : Token}
    (h : ¬ token.IsNumericReference groupCount) : token.lowered groupCount = [token] := by
  cases token with
  | decimal digits =>
    have hnone : backReference? (groupCount + 1) digits = none := Option.not_isSome_iff_eq_none.1 h
    rw [lowered, hnone]
  | _ => rfl

/-- Lexemes without references by number mean the same by themselves. -/
theorem flatMap_lowered_of_not {groupCount : Nat} {tokens : List Token}
    (h : ∀ token ∈ tokens, ¬ token.IsNumericReference groupCount) :
    tokens.flatMap (Token.lowered groupCount) = tokens := by
  induction tokens with
  | nil => rfl
  | cons token rest ih =>
    rw [List.forall_mem_cons] at h
    rw [List.flatMap_cons, Token.lowered_of_not h.1, ih h.2, List.singleton_append]

/-- Lowered lexemes capture what the lexemes capture. -/
theorem captureNames_lowered (groupCount : Nat) (tokens : List Token) :
    captureNames (tokens.flatMap (Token.lowered groupCount)) = captureNames tokens := by
  induction tokens with
  | nil => rfl
  | cons token rest ih =>
    rw [List.flatMap_cons, captureNames_append, ih, ← List.singleton_append, captureNames_append]
    congr 1
    cases token with
    | decimal digits =>
      rw [Token.lowered]
      split
      · rfl
      · split <;> rfl
    | _ => rfl

/-- The decimal digits of a number have its value, and begin with no zero unless the number is
zero. -/
theorem decimal_ofNat (n : Nat) :
    CodeUnit.decimal (Text.ofNat n) = n ∧
      (0 < n → (Text.ofNat n).head? ≠ some 0x30) := by
  have hdigit : ∀ n < 10, Text.unitsOf (Nat.digitChar n) = [UInt16.ofNat (0x30 + n)] ∧
      CodeUnit.digitValue (UInt16.ofNat (0x30 + n)) = n ∧
      (0 < n → UInt16.ofNat (0x30 + n) ≠ 0x30) := by
    decide
  induction n using Nat.strongRecOn with
  | _ n ih =>
    by_cases hn : n < 10
    · obtain ⟨hunits, hvalue, hzero⟩ := hdigit n hn
      rw [Text.ofNat, Nat.toDigits_of_lt_base hn, Text.ofChars_cons, hunits]
      refine ⟨by simpa [Text.ofChars, CodeUnit.decimal, CodeUnit.numeral] using hvalue, ?_⟩
      intro hpos hhead
      exact hzero hpos (Option.some.inj hhead)
    · obtain ⟨hvalue, hzero⟩ := ih (n / 10) (by omega)
      obtain ⟨hunits, hlast, -⟩ := hdigit (n % 10) (by omega)
      have hsplit : Text.ofNat n = Text.ofNat (n / 10) ++ [UInt16.ofNat (0x30 + n % 10)] := by
        rw [Text.ofNat, Nat.toDigits_of_base_le (by omega) (by omega), Text.ofChars,
          List.flatMap_append, List.flatMap_singleton, hunits]
        rfl
      have hhead := hzero (by omega)
      rw [CodeUnit.decimal] at hvalue
      rw [hsplit, CodeUnit.decimal, CodeUnit.numeral_concat, hvalue, hlast]
      refine ⟨by omega, fun _ => ?_⟩
      cases hfront : Text.ofNat (n / 10) with
      | nil =>
        rw [hfront] at hvalue
        have hzero : 0 = n / 10 := hvalue
        omega
      | cons u more =>
        rw [hfront] at hhead
        exact hhead

/-- The decimal digits of a number refer to the group of that number. -/
theorem backReference?_ofNat {groupCount n : Nat} (hpos : 0 < n) (hle : n ≤ groupCount) :
    backReference? groupCount (Text.ofNat n) = some n := by
  obtain ⟨hvalue, hzero⟩ := decimal_ofNat n
  simp only [backReference?, hvalue]
  exact if_pos ⟨hzero hpos, hle⟩

/-- What refers to no group refers to none of fewer groups. -/
theorem backReference?_eq_none {groupCount : Nat} {digits : Text}
    (h : backReference? (groupCount + 1) digits = none) : backReference? groupCount digits = none := by
  simp only [backReference?] at h ⊢
  split_ifs at h ⊢ with hfew hmore
  · exact absurd ⟨hfew.1, Nat.le_succ_of_le hfew.2⟩ hmore
  · rfl

/-- A numeric escape refers to one of the groups. -/
theorem le_of_backReference? {groupCount n : Nat} {digits : Text}
    (h : backReference? groupCount digits = some n) : n ≤ groupCount := by
  simp only [backReference?] at h
  split_ifs at h with hle
  obtain rfl := Option.some.inj h
  exact hle.2

/-- A state inside one more group, without that group. -/
def ReadState.lowered (s : ReadState) : ReadState where
  level := s.level.map Node.lowered
  outer := s.outer.map fun (g, level) => (g.renumber (· - 1), level.map Node.lowered)
  opened := s.opened - 1

/-- A lexeme that is no reference by number is read by itself as it is. -/
theorem readAll_lowered_of_not {names : List (Option (List Char))} {s : ReadState} {token : Token}
    (h : ¬ token.IsNumericReference names.length) :
    readAll names s (token.lowered names.length) = readStep names s token := by
  rw [Token.lowered_of_not h, readAll_singleton]

/-- A group without content adds a term that is empty. -/
theorem readAll_emptyGroup (names : List (Option (List Char))) (s : ReadState) :
    readAll names s [.openGroup .plain, .close] =
      some { s with level := s.level.pushAtom .empty } := rfl

/-- A numeric escape that is read inside one more group is read by itself as the lowered one. -/
theorem readAll_lowered_decimal {names : List (Option (List Char))} {s next : ReadState}
    {digits : Text} (h : readStep (none :: names) s (.decimal digits) = some next) :
    readAll names s.lowered ((Token.decimal digits).lowered names.length) = some next.lowered := by
  rw [readStep, List.length_cons] at h
  rw [Token.lowered]
  cases hreference : backReference? (names.length + 1) digits with
  | none =>
    rw [hreference] at h
    obtain rfl := Option.some.inj h
    rw [readAll_singleton, readStep, backReference?_eq_none hreference]
    simp [ReadState.lowered, Level.map_pushUnits Node.renumbers_lowered]
  | some n =>
    rw [hreference] at h
    obtain rfl := Option.some.inj h
    have hle := le_of_backReference? hreference
    by_cases hn : n ≤ 1
    · simp only [if_pos hn]
      rw [readAll_emptyGroup]
      simp [ReadState.lowered, Node.lowered, hn]
    · simp only [if_neg hn]
      rw [readAll_singleton, readStep, backReference?_ofNat (by omega) (by omega)]
      simp [ReadState.lowered, Node.lowered, hn]

/-- A lexeme that is read inside one more group is read by itself as the lowered lexeme. -/
theorem readStep_lowered {names : List (Option (List Char))} {s next : ReadState} {token : Token}
    (hopened : 1 ≤ s.opened) (h : readStep (none :: names) s token = some next) :
    readAll names s.lowered (token.lowered names.length) = some next.lowered := by
  cases token with
  | decimal digits => exact readAll_lowered_decimal h
  | reference name =>
    rw [readAll_lowered_of_not id, readStep]
    rw [readStep, List.idxOf?_cons] at h
    cases hname : names.idxOf? (some name) with
    | none => simp [hname] at h
    | some i =>
      simp only [hname, Option.map_some] at h
      obtain rfl := Option.some.inj h
      simp [ReadState.lowered, Node.lowered]
  | openGroup opening =>
    obtain rfl := Option.some.inj h
    rw [readAll_lowered_of_not id, readStep]
    rcases opening with - | name | ⟨direction, negated⟩
    · rfl
    · have hnumber : s.opened + 1 - 1 = s.opened - 1 + 1 := by omega
      simp [openStep, ReadState.lowered, OpenGroup.renumber, hnumber]
    · rfl
  | close =>
    rw [readStep] at h
    split at h
    · cases h
    · next g level outer houter =>
      obtain rfl := Option.some.inj h
      rw [readAll_lowered_of_not id, readStep]
      simp [ReadState.lowered, houter, OpenGroup.map_close Node.renumbers_lowered,
        Level.map_node Node.renumbers_lowered]
  | bar =>
    obtain rfl := Option.some.inj h
    rw [readAll_lowered_of_not id, readStep]
    simp [ReadState.lowered, Level.map_newBranch Node.renumbers_lowered]
  | quantifier q =>
    rw [readStep] at h
    split at h
    · cases h
    · next n hatom =>
      split_ifs at h with horder
      obtain rfl := Option.some.inj h
      rw [readAll_lowered_of_not id, readStep]
      simp [ReadState.lowered, Level.map, hatom, horder, Level.pushFixed, Level.allTerms,
        Node.lowered]
  | _ =>
    obtain rfl := Option.some.inj h
    rw [readAll_lowered_of_not id, readStep]
    simp [ReadState.lowered, Node.lowered]

/-- Lexemes that are read inside one more group are read by themselves as the lowered lexemes. -/
theorem readAll_lowered {names : List (Option (List Char))} {s last : ReadState}
    {tokens : List Token} (hopened : 1 ≤ s.opened)
    (h : readAll (none :: names) s tokens = some last) :
    readAll names s.lowered (tokens.flatMap (Token.lowered names.length)) = some last.lowered := by
  induction tokens generalizing s with
  | nil =>
    obtain rfl := Option.some.inj h
    rfl
  | cons token rest ih =>
    rw [readAll_cons] at h
    obtain ⟨next, hstep, hrest⟩ := Option.bind_eq_some_iff.1 h
    have hnext : 1 ≤ next.opened := by
      rw [(readStep_groups hstep).1]
      omega
    rw [List.flatMap_cons, readAll_append, readStep_lowered hopened hstep, Option.bind_some,
      ih hnext hrest]

/-- The tree of a part inside one more group is that of its lowered lexemes by themselves. -/
theorem ofTokens?_lowered {names : List (Option (List Char))} {part : Text} {tokens : List Token}
    {body : Node} (hdistinct : (names.filterMap id).Nodup) (hnames : captureNames tokens = names)
    (hlex : lex (readsReferences names) part = some tokens)
    (h : partTree? (none :: names) 1 part = some body) :
    ofTokens? (tokens.flatMap (Token.lowered names.length)) =
      some ⟨body.lowered, names.length⟩ := by
  obtain ⟨_, last, hlex', hread, houter, rfl⟩ := partTree?_eq_some_iff.1 h
  obtain rfl : tokens = _ := Option.some.inj (hlex.symm.trans hlex')
  have hlowered := readAll_lowered (Nat.le_refl 1) hread
  have hguard : (guard (names.filterMap id).Nodup : Option Unit) = some () := if_pos hdistinct
  unfold ofTokens?
  simp only [captureNames_lowered, hnames, hguard, Option.bind_eq_bind, Option.bind_some]
  rw [← readAll]
  change (readAll names (ReadState.lowered ⟨.start, [], 1⟩) _).bind _ = _
  rw [hlowered]
  simp [ReadState.lowered, houter, Level.map_node Node.renumbers_lowered]

/-- A position inside one more group, which is still open. -/
def Cursor.enclosed (s : Cursor) : Cursor := { s with captures := none :: s.captures }

namespace Cursor

/-- Steps are the same inside one more group. -/
theorem advance_enclosed (direction : Direction) (test : CodeUnit → Bool) (s : Cursor) :
    s.enclosed.advance direction test = (s.advance direction test).map enclosed := by
  obtain ⟨before, after, left, captures, hleft⟩ := s
  cases direction with
  | forward =>
    cases after with
    | nil => rfl
    | cons u rest =>
      simp only [enclosed, advance]
      split <;> rfl
  | backward =>
    cases before with
    | nil => rfl
    | cons u rest =>
      simp only [enclosed, advance]
      split <;> rfl

/-- A text is followed alike inside one more group. -/
theorem follow_enclosed (direction : Direction) (text : Text) (s : Cursor) :
    s.enclosed.follow direction text = (s.follow direction text).map enclosed := by
  induction text generalizing s with
  | nil => rfl
  | cons u rest ih =>
    rw [follow, follow, advance_enclosed]
    cases s.advance direction (· = u) with
    | none => rfl
    | some t => exact ih t

/-- The texts of the groups are one further on inside one more group, which has none itself. -/
theorem captured_enclosed (s : Cursor) (index : Nat) :
    s.enclosed.captured index = if index ≤ 1 then [] else s.captured (index - 1) := by
  rw [captured, captured, enclosed]
  split
  · next h =>
    rw [show index - 1 = 0 by omega]
    rfl
  · next h =>
    obtain ⟨i, rfl⟩ : ∃ i, index = i + 2 := ⟨index - 2, by omega⟩
    rfl

/-- A group inside one more group is recorded one further on. -/
theorem record_enclosed {index : Nat} (h : 2 ≤ index) (direction : Direction) (s t : Cursor) :
    record index direction s.enclosed t.enclosed =
      (record (index - 1) direction s t).enclosed := by
  obtain ⟨i, rfl⟩ : ∃ i, index = i + 2 := ⟨index - 2, by omega⟩
  cases direction <;> rfl

/-- Groups inside one more group are forgotten one further on. -/
theorem forget_enclosed {groups : List Nat} (h : ∀ group ∈ groups, 2 ≤ group) (s : Cursor) :
    s.enclosed.forget groups = (s.forget (groups.map (· - 1))).enclosed := by
  have hmem (i : Nat) : i + 1 ∈ groups.map (· - 1) ↔ i + 2 ∈ groups := by
    rw [List.mem_map]
    constructor
    · intro hi
      obtain ⟨group, hgroup, heq⟩ := hi
      have := h group hgroup
      rwa [show i + 2 = group by omega]
    · intro hi
      exact ⟨i + 2, hi, rfl⟩
  rw [forget, forget]
  by_cases hnil : groups = []
  · simp [hnil]
  · rw [if_neg hnil, if_neg (by simpa using hnil)]
    simp [enclosed, List.mapIdx_cons, hmem]

end Cursor

section Steps

variable {once once' : Cursor → List Cursor}

/-- Going on in a way that is the same inside one more group gives the same positions there. -/
theorem flatMap_enclosed (h : ∀ s, once s.enclosed = (once' s).map Cursor.enclosed)
    (l : List Cursor) :
    (l.map Cursor.enclosed).flatMap once = (l.flatMap once').map Cursor.enclosed := by
  simp only [List.flatMap_map, List.map_flatMap, h]

/-- Steps that are the same inside one more group are so a number of times. -/
theorem waysExactly_enclosed (h : ∀ s, once s.enclosed = (once' s).map Cursor.enclosed) (n : Nat)
    (s : Cursor) :
    waysExactly once n s.enclosed = (waysExactly once' n s).map Cursor.enclosed := by
  induction n generalizing s with
  | zero => rfl
  | succ n ih => rw [waysExactly, waysExactly, h, flatMap_enclosed ih]

/-- Steps that are the same inside one more group are so at most a number of times. -/
theorem waysUpTo_enclosed (h : ∀ s, once s.enclosed = (once' s).map Cursor.enclosed) (greedy : Bool)
    (n : Nat) (s : Cursor) :
    waysUpTo greedy once n s.enclosed = (waysUpTo greedy once' n s).map Cursor.enclosed := by
  induction n generalizing s with
  | zero => rfl
  | succ n ih =>
    have hmore : ((once s.enclosed).flatMap fun t =>
        if t.left = s.enclosed.left then [] else waysUpTo greedy once n t) =
          ((once' s).flatMap fun t =>
            if t.left = s.left then [] else waysUpTo greedy once' n t).map Cursor.enclosed := by
      rw [h, List.flatMap_map, List.map_flatMap]
      apply congrArg (List.flatMap · _)
      funext t
      change (if t.left = s.left then [] else _) = _
      split
      · rfl
      · exact ih t
    simp only [waysUpTo, hmore]
    cases greedy <;> simp

end Steps

/-- Inside one more group, the ways of an expression are those of the lowered expression. -/
theorem ways_enclosed {n : Node} (h : ∀ group ∈ n.groups, 2 ≤ group) (direction : Direction)
    (s : Cursor) :
    n.ways direction s.enclosed = (n.lowered.ways direction s).map Cursor.enclosed := by
  induction n generalizing direction s with
  | empty => rfl
  | unit u =>
    simp only [Node.lowered, Node.ways, Cursor.advance_enclosed, Option.toList_map]
  | set c =>
    simp only [Node.lowered, Node.ways, Cursor.advance_enclosed, Option.toList_map]
  | assertion a =>
    change (if s.holds a then [s.enclosed] else []) = List.map _ (if s.holds a then [s] else [])
    split <;> rfl
  | backReference index =>
    simp only [Node.lowered, Node.ways, Cursor.captured_enclosed, Cursor.follow_enclosed,
      Option.toList_map]
    by_cases hindex : index ≤ 1
    · simp only [if_pos hindex]
      cases direction <;> rfl
    · simp only [if_neg hindex]
      rfl
  | group index body ih =>
    rw [Node.groups, List.forall_mem_cons] at h
    simp only [Node.lowered, Node.ways, ih h.2, List.map_map]
    apply congrArg (List.map · _)
    funext t
    exact Cursor.record_enclosed h.1 direction s t
  | look side negated body ih =>
    simp only [Node.lowered, Node.ways, ih h]
    cases body.lowered.ways side s with
    | nil => cases negated <;> rfl
    | cons t rest => cases negated <;> rfl
  | repetition q body ih =>
    have hbody : ∀ group ∈ body.groups, 2 ≤ group := h
    have honce (s : Cursor) : body.ways direction (s.enclosed.forget body.groups) =
        (body.lowered.ways direction (s.forget body.lowered.groups)).map Cursor.enclosed := by
      rw [Cursor.forget_enclosed hbody, ih hbody, Node.groups_lowered]
    have hroom (s : Cursor) : s.enclosed.room direction = s.room direction := by
      cases direction <;> rfl
    simp only [Node.lowered, Node.ways, hroom]
    rw [waysExactly_enclosed honce, flatMap_enclosed]
    intro t
    rw [hroom, waysUpTo_enclosed honce]
  | seq first second ihfirst ihsecond =>
    rw [Node.groups, List.forall_mem_append] at h
    cases direction with
    | forward =>
      simp only [Node.lowered, Node.ways, ihfirst h.1]
      exact flatMap_enclosed (ihsecond h.2 .forward) _
    | backward =>
      simp only [Node.lowered, Node.ways, ihsecond h.2]
      exact flatMap_enclosed (ihfirst h.1 .backward) _
  | alt first second ihfirst ihsecond =>
    rw [Node.groups, List.forall_mem_append] at h
    simp [Node.lowered, Node.ways, ihfirst h.1, ihsecond h.2]

/-- An expression in capturing parentheses matches a text exactly if the lowered expression does. -/
theorem isSome_exec?_enclosed {body : Node} (h : ∀ group ∈ body.groups, 2 ≤ group)
    (groupCount : Nat) (text : Text) :
    (exec? ⟨(Node.sequence [.group 1 body]).anchored, groupCount + 1⟩ text).isSome =
      (exec? ⟨body.lowered.anchored, groupCount⟩ text).isSome := by
  have hstart : Cursor.start text (groupCount + 1) = (Cursor.start text groupCount).enclosed := rfl
  have hways : (Node.sequence [.group 1 body]).ways .forward (Cursor.start text (groupCount + 1)) =
      (body.lowered.ways .forward (Cursor.start text groupCount)).map fun t =>
        Cursor.record 1 .forward (Cursor.start text groupCount).enclosed t.enclosed := by
    rw [Node.ways_sequence_cons, Node.ways, hstart, ways_enclosed h, List.map_map]
    simp [Node.sequence, Node.ways]
  rw [exec?_anchored, exec?_anchored, hways, Option.isSome_map, Option.isSome_map,
    List.find?_map, Option.isSome_map]
  rfl

end Regex

end UriRouting
