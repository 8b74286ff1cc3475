import UriRouting.Proofs.Regex.Language
import UriRouting.Proofs.Regex.Renumbering

/-!
# Local patterns

A pattern is local if none of its lexemes refers to a group, asserts something of a position or looks
around. Such a pattern is read into a local expression, and apart from the numbers of its groups the
expression is the same wherever the pattern stands: neither the names of other groups nor the groups
opened before make a difference (`exists_partTree_unnumbered`).
-/

namespace UriRouting

namespace Regex

/-- Whether a lexeme is no back reference and no assertion and opens no lookaround. -/
def Token.isLocal : Token → Bool
  | assertion _ => false
  | decimal _ => false
  | reference _ => false
  | openGroup (.look _ _) => false
  | _ => true

/-- A pattern without back references, assertions and lookarounds, whether `\k` is read as a
reference or not. -/
def IsLocal (pattern : Text) : Prop :=
  ∀ named : Bool, (lex named pattern).all fun tokens => tokens.all Token.isLocal

instance (pattern : Text) : Decidable (IsLocal pattern) :=
  inferInstanceAs (Decidable (∀ _ : Bool, _ = true))

/-- The lexemes of a local pattern are local. -/
theorem IsLocal.of_lex {pattern : Text} (h : IsLocal pattern) {named : Bool} {tokens : List Token}
    (hlex : lex named pattern = some tokens) : ∀ token ∈ tokens, token.isLocal = true := by
  have := h named
  rw [hlex, Option.all_some] at this
  exact List.all_eq_true.1 this

/-- What is read of a class where groups have names is read of it everywhere. -/
theorem classAtomsFrom_false {state : ClassState} {t : Text} {atoms : List ClassAtom}
    (h : classAtomsFrom true state t = some atoms) : classAtomsFrom false state t = some atoms := by
  have hstep {state : ClassState} {u : CodeUnit} {next : List ClassAtom × ClassState}
      (h : classStep true state u = some next) : classStep false state u = some next := by
    cases state with
    | backslash =>
      simp only [classStep, classBackslash] at h ⊢
      split at h
      · exact h
      · split_ifs at h ⊢ <;> simp_all
    | _ => exact h
  induction t generalizing state atoms with
  | nil => exact h
  | cons u rest ih =>
    rw [classAtomsFrom] at h ⊢
    split at h
    · cases h
    · next out next hnext =>
      obtain ⟨more, hmore, rfl⟩ := Option.map_eq_some_iff.1 h
      simp [hstep hnext, ih hmore]

/-- A step where groups have names is the step everywhere, unless it begins a reference. -/
theorem lexStep_false {state next : LexState} {u : CodeUnit} {out : List Token}
    (h : lexStep true state u = some (out, next)) :
    lexStep false state u = some (out, next) ∨ next = .reference := by
  cases state with
  | backslash =>
    simp only [lexStep, backslashStep] at h ⊢
    split at h
    · exact .inl h
    · split_ifs at h ⊢ <;> simp_all
  | inClass body =>
    rw [lexStep] at h ⊢
    split at h
    · obtain ⟨s, hs, hnext⟩ := Option.map_eq_some_iff.1 h
      left
      rw [if_pos ‹_›]
      apply Option.map_eq_some_iff.2 ⟨s, ?_, hnext⟩
      obtain ⟨atoms, hatoms, hparts⟩ := Option.bind_eq_some_iff.1 hs
      exact Option.bind_eq_some_iff.2 ⟨atoms, classAtomsFrom_false hatoms, hparts⟩
    · exact .inl (by rw [if_neg ‹_›]; exact h)
  | _ => exact .inl h

/-- A reference that has begun ends in a lexeme. -/
theorem exists_reference_of_lexFrom {t : Text} {tokens : List Token}
    (h : lexFrom true .reference t = some tokens) : ∃ name, .reference name ∈ tokens := by
  have hname {read : List Char} {state : NameState} {t : Text} {tokens : List Token}
      (h : lexFrom true (.name .reference read state) t = some tokens) :
      ∃ name, .reference name ∈ tokens := by
    induction t generalizing read state tokens with
    | nil => simp [lexFrom, lexEnd] at h
    | cons u rest ih =>
      rw [lexFrom] at h
      split at h
      · cases h
      · next out next hstep =>
        obtain ⟨more, hmore, rfl⟩ := Option.map_eq_some_iff.1 h
        rw [lexStep, lexName] at hstep
        split at hstep
        · cases hstep
        · obtain ⟨rfl, rfl⟩ := Prod.mk.inj (Option.some.inj hstep)
          exact ih hmore
        · split at hstep
          · obtain ⟨name, -, hname⟩ := Option.map_eq_some_iff.1 hstep
            obtain ⟨rfl, rfl⟩ := Prod.mk.inj hname
            exact ⟨name, List.mem_append_left _ (List.mem_singleton.2 rfl)⟩
          · obtain ⟨rfl, rfl⟩ := Prod.mk.inj (Option.some.inj hstep)
            exact ih hmore
  cases t with
  | nil => simp [lexFrom, lexEnd] at h
  | cons u rest =>
    rw [lexFrom, lexStep] at h
    split_ifs at h
    · obtain ⟨more, hmore, rfl⟩ := Option.map_eq_some_iff.1 h
      exact hname hmore

/-- Local lexemes do not depend on whether groups have names. -/
theorem lexFrom_false_of_local {state : LexState} {t : Text} {tokens : List Token}
    (h : lexFrom true state t = some tokens) (hlocal : ∀ token ∈ tokens, token.isLocal = true) :
    lexFrom false state t = some tokens := by
  induction t generalizing state tokens with
  | nil => exact h
  | cons u rest ih =>
    rw [lexFrom] at h
    split at h
    · cases h
    · next out next hstep =>
      obtain ⟨more, hmore, rfl⟩ := Option.map_eq_some_iff.1 h
      rw [List.forall_mem_append] at hlocal
      rcases lexStep_false hstep with hstep | rfl
      · rw [lexFrom_of_lexStep hstep, ih hmore hlocal.2, Option.map_some]
      · obtain ⟨name, hname⟩ := exists_reference_of_lexFrom hmore
        cases hlocal.2 _ hname

/-- The lexemes of a local pattern are the same where no group has a name. -/
theorem IsLocal.lex_false {pattern : Text} (h : IsLocal pattern) {named : Bool}
    {tokens : List Token} (hlex : lex named pattern = some tokens) :
    lex false pattern = some tokens := by
  cases named with
  | false => exact hlex
  | true => exact lexFrom_false_of_local hlex (h.of_lex hlex)

/-- Terms in sequence are local if each of them is. -/
theorem Node.isLocal_sequence {terms : List Node} :
    (sequence terms).IsLocal ↔ ∀ n ∈ terms, n.IsLocal := by
  induction terms with
  | nil => simp [sequence, IsLocal]
  | cons n rest ih =>
    rw [List.forall_mem_cons, ← ih]
    rfl

/-- A level of which only local expressions have been read. -/
structure Level.IsLocal (l : Level) : Prop where
  branches : ∀ n ∈ l.branches, n.IsLocal
  terms : ∀ n ∈ l.allTerms, n.IsLocal

namespace Level.IsLocal

theorem start : IsLocal start := ⟨by simp [Level.start], by simp [Level.start, allTerms]⟩

variable {l : Level}

theorem pushAtom (h : l.IsLocal) {n : Node} (hn : n.IsLocal) : (l.pushAtom n).IsLocal :=
  ⟨h.branches, List.forall_mem_cons.2 ⟨hn, h.terms⟩⟩

theorem branch (h : l.IsLocal) : l.branch.IsLocal :=
  Node.isLocal_sequence.2 fun n hn => h.terms n (List.mem_reverse.1 hn)

theorem newBranch (h : l.IsLocal) : l.newBranch.IsLocal :=
  ⟨List.forall_mem_cons.2 ⟨h.branch, h.branches⟩, by simp [Level.newBranch, allTerms]⟩

/-- The disjunction of a local level is local. -/
theorem node (h : l.IsLocal) : l.node.IsLocal := by
  have fold_local (branches : List Node) (last : Node) (hbranches : ∀ n ∈ branches, n.IsLocal)
      (hlast : last.IsLocal) :
      (branches.foldl (fun rest branch => Node.alt branch rest) last).IsLocal := by
    induction branches generalizing last with
    | nil => exact hlast
    | cons n rest ih =>
      rw [List.forall_mem_cons] at hbranches
      exact ih _ hbranches.2 ⟨hbranches.1, hlast⟩
  exact fold_local l.branches l.branch h.branches h.branch

end Level.IsLocal

/-- An open group that is no lookaround. -/
def OpenGroup.IsLocal : OpenGroup → Prop
  | look _ _ => False
  | _ => True

/-- A state in which only local expressions have been read. -/
structure ReadState.IsLocal (s : ReadState) : Prop where
  level : s.level.IsLocal
  outer : ∀ entry ∈ s.outer, entry.1.IsLocal ∧ entry.2.IsLocal

/-- Reading a local lexeme adds local expressions only. -/
theorem readStep_isLocal {names : List (Option (List Char))} {s next : ReadState} {token : Token}
    (htoken : token.isLocal = true) (hs : s.IsLocal) (h : readStep names s token = some next) :
    next.IsLocal := by
  cases token with
  | unit u =>
    obtain rfl := Option.some.inj h
    exact ⟨hs.level.pushAtom trivial, hs.outer⟩
  | set c =>
    obtain rfl := Option.some.inj h
    exact ⟨hs.level.pushAtom trivial, hs.outer⟩
  | assertion a => cases htoken
  | decimal digits => cases htoken
  | reference name => cases htoken
  | openGroup opening =>
    obtain rfl := Option.some.inj h
    rcases opening with - | name | ⟨direction, negated⟩
    · exact ⟨.start, List.forall_mem_cons.2 ⟨⟨trivial, hs.level⟩, hs.outer⟩⟩
    · exact ⟨.start, List.forall_mem_cons.2 ⟨⟨trivial, hs.level⟩, hs.outer⟩⟩
    · cases htoken
  | close =>
    rw [readStep] at h
    split at h
    · cases h
    · next g level outer houter =>
      obtain rfl := Option.some.inj h
      have houters := hs.outer
      rw [houter, List.forall_mem_cons] at houters
      refine ⟨?_, houters.2⟩
      rcases g with - | index | ⟨direction, negated⟩
      · exact houters.1.2.pushAtom hs.level.node
      · exact houters.1.2.pushAtom hs.level.node
      · exact houters.1.1.elim
  | bar =>
    obtain rfl := Option.some.inj h
    exact ⟨hs.level.newBranch, hs.outer⟩
  | quantifier q =>
    rw [readStep] at h
    split at h
    · cases h
    · next n hatom =>
      split_ifs at h with horder
      obtain rfl := Option.some.inj h
      have hterms := hs.level.terms
      rw [Level.allTerms, hatom, Option.toList_some, List.singleton_append,
        List.forall_mem_cons] at hterms
      exact ⟨⟨hs.level.branches, List.forall_mem_cons.2 ⟨⟨horder, hterms.1⟩, hterms.2⟩⟩, hs.outer⟩

/-- Reading local lexemes adds local expressions only. -/
theorem readAll_isLocal {names : List (Option (List Char))} {s last : ReadState}
    {tokens : List Token} (htokens : ∀ token ∈ tokens, token.isLocal = true) (hs : s.IsLocal)
    (h : readAll names s tokens = some last) : last.IsLocal := by
  induction tokens generalizing s with
  | nil =>
    obtain rfl := Option.some.inj h
    exact hs
  | cons token rest ih =>
    rw [List.forall_mem_cons] at htokens
    rw [readAll_cons] at h
    obtain ⟨next, hstep, hrest⟩ := Option.bind_eq_some_iff.1 h
    exact ih htokens.2 (readStep_isLocal htokens.1 hs hstep) hrest

/-- The tree of a local pattern is local. -/
theorem isLocal_partTree {names : List (Option (List Char))} {opened : Nat} {part : Text}
    {root : Node} (hlocal : IsLocal part) (h : partTree? names opened part = some root) :
    root.IsLocal := by
  obtain ⟨tokens, last, hlex, hread, -, rfl⟩ := partTree?_eq_some_iff.1 h
  exact (readAll_isLocal (hlocal.of_lex hlex) ⟨.start, by simp⟩ hread).level.node

/-- An expression with the number zero for all of its groups. -/
def Node.unnumbered : Node → Node
  | group _ body => group 0 body.unnumbered
  | look direction negated body => look direction negated body.unnumbered
  | repetition q body => repetition q body.unnumbered
  | seq first second => seq first.unnumbered second.unnumbered
  | alt first second => alt first.unnumbered second.unnumbered
  | n => n

/-- The numbers of its groups do not change the language of an expression. -/
theorem Node.lang_unnumbered (n : Node) (w : Text) : n.unnumbered.Lang w ↔ n.Lang w := by
  induction n generalizing w with
  | group index body ih => exact ih w
  | repetition q body ih => simp only [unnumbered, Lang, ih]
  | seq first second ihfirst ihsecond => simp only [unnumbered, Lang, ihfirst, ihsecond]
  | alt first second ihfirst ihsecond => simp only [unnumbered, Lang, ihfirst, ihsecond]
  | _ => exact Iff.rfl

/-- Giving all groups the number zero is a change of numbers. -/
theorem Node.renumbers_unnumbered : Renumbers unnumbered fun _ => 0 where
  empty := rfl
  unit _ := rfl
  seq _ _ := rfl
  alt _ _ := rfl
  group _ _ := rfl
  look _ _ _ := rfl

/-- A level with the number zero for all groups. -/
def Level.unnumbered (l : Level) : Level :=
  ⟨l.branches.map Node.unnumbered, l.terms.map Node.unnumbered, l.atom.map Node.unnumbered⟩

namespace Level

@[simp] theorem unnumbered_allTerms (l : Level) :
    l.unnumbered.allTerms = l.allTerms.map Node.unnumbered := map_allTerms l

@[simp] theorem unnumbered_pushAtom (l : Level) (n : Node) :
    (l.pushAtom n).unnumbered = l.unnumbered.pushAtom n.unnumbered := map_pushAtom l n

@[simp] theorem unnumbered_newBranch (l : Level) :
    l.newBranch.unnumbered = l.unnumbered.newBranch := map_newBranch Node.renumbers_unnumbered l

@[simp] theorem unnumbered_node (l : Level) : l.unnumbered.node = l.node.unnumbered :=
  map_node Node.renumbers_unnumbered l

end Level

/-- An open group with the number zero. -/
def OpenGroup.unnumbered : OpenGroup → OpenGroup
  | capture _ => capture 0
  | g => g

/-- Closing a group adds it under the number zero. -/
theorem OpenGroup.unnumbered_close (g : OpenGroup) (level : Level) (body : Node) :
    (g.close level body).unnumbered = g.unnumbered.close level.unnumbered body.unnumbered :=
  map_close Node.renumbers_unnumbered g level body

/-- Two states that differ in the numbers of groups alone. -/
structure ReadState.Alike (s s' : ReadState) : Prop where
  level : s.level.unnumbered = s'.level.unnumbered
  outer : s.outer.map (fun entry => (entry.1.unnumbered, entry.2.unnumbered)) =
    s'.outer.map fun entry => (entry.1.unnumbered, entry.2.unnumbered)

/-- A local lexeme is read alike in states that are alike. -/
theorem readStep_alike {names names' : List (Option (List Char))} {s s' next : ReadState}
    {token : Token} (htoken : token.isLocal = true) (hs : s.Alike s')
    (h : readStep names s token = some next) :
    ∃ next', readStep names' s' token = some next' ∧ next.Alike next' := by
  cases token with
  | unit u =>
    obtain rfl := Option.some.inj h
    exact ⟨_, rfl, by simp [hs.level], hs.outer⟩
  | set c =>
    obtain rfl := Option.some.inj h
    exact ⟨_, rfl, by simp [hs.level], hs.outer⟩
  | assertion a => cases htoken
  | decimal digits => cases htoken
  | reference name => cases htoken
  | openGroup opening =>
    obtain rfl := Option.some.inj h
    rcases opening with - | name | ⟨direction, negated⟩
    · exact ⟨_, rfl, rfl, List.cons_eq_cons.2 ⟨congrArg (Prod.mk _) hs.level, hs.outer⟩⟩
    · exact ⟨_, rfl, rfl, List.cons_eq_cons.2 ⟨congrArg (Prod.mk _) hs.level, hs.outer⟩⟩
    · cases htoken
  | close =>
    rw [readStep] at h
    split at h
    · cases h
    · next g level outer houter =>
      obtain rfl := Option.some.inj h
      have houters := hs.outer.symm
      rw [houter, List.map_cons, List.map_eq_cons_iff] at houters
      obtain ⟨⟨g', level'⟩, outer', houter', hfirst, hrest⟩ := houters
      obtain ⟨hg, hlevel⟩ := Prod.mk.inj hfirst
      refine ⟨⟨g'.close level' s'.level.node, outer', s'.opened⟩, ?_, ?_, hrest.symm⟩
      · rw [readStep, houter']
      · simp only [OpenGroup.unnumbered_close, ← Level.unnumbered_node, hs.level, hg, hlevel]
  | bar =>
    obtain rfl := Option.some.inj h
    exact ⟨_, rfl, by simp [hs.level], hs.outer⟩
  | quantifier q =>
    rw [readStep] at h
    split at h
    · cases h
    · next n hatom =>
      split_ifs at h with horder
      obtain rfl := Option.some.inj h
      obtain ⟨hbranches, hterms, hatoms⟩ := Level.mk.inj hs.level
      rw [hatom, Option.map_some, eq_comm, Option.map_eq_some_iff] at hatoms
      obtain ⟨n', hatom', hn⟩ := hatoms
      refine ⟨{ s' with level := { s'.level with atom := none }.pushFixed (.repetition q n') },
        by rw [readStep, hatom']; exact if_pos horder, ?_, hs.outer⟩
      simp [Level.pushFixed, Level.allTerms, Level.unnumbered, Node.unnumbered, hbranches, hterms,
        hn]

/-- Local lexemes are read alike in states that are alike. -/
theorem readAll_alike {names : List (Option (List Char))} (names' : List (Option (List Char)))
    {s s' last : ReadState} {tokens : List Token}
    (htokens : ∀ token ∈ tokens, token.isLocal = true) (hs : s.Alike s')
    (h : readAll names s tokens = some last) :
    ∃ last', readAll names' s' tokens = some last' ∧ last.Alike last' := by
  induction tokens generalizing s s' with
  | nil =>
    obtain rfl := Option.some.inj h
    exact ⟨s', rfl, hs⟩
  | cons token rest ih =>
    rw [List.forall_mem_cons] at htokens
    rw [readAll_cons] at h
    obtain ⟨next, hstep, hrest⟩ := Option.bind_eq_some_iff.1 h
    obtain ⟨next', hstep', hnext⟩ := readStep_alike htokens.1 hs hstep
    obtain ⟨last', hrest', hlast⟩ := ih htokens.2 hnext hrest
    exact ⟨last', by rw [readAll_cons, hstep', Option.bind_some, hrest'], hlast⟩

/-- A local part of a pattern whose groups have the names of some of its groups compiles by itself,
and to the same tree apart from the numbers of its groups. -/
theorem exists_ofSource_of_partTree {names : List (Option (List Char))} {opened : Nat} {part : Text}
    {root : Node} {tokens : List Token} (hlocal : IsLocal part)
    (hdistinct : (names.filterMap id).Nodup) (hlex : lex (readsReferences names) part = some tokens)
    (hnames : (captureNames tokens).Sublist names) (h : partTree? names opened part = some root) :
    ∃ r, ofSource? part = some r ∧ r.root.IsLocal ∧ r.root.unnumbered = root.unnumbered := by
  obtain ⟨_, last, hlex', hread, houter, rfl⟩ := partTree?_eq_some_iff.1 h
  obtain rfl := Option.some.inj (hlex.symm.trans hlex')
  have htrue : readsReferences (captureNames tokens) = true → readsReferences names = true := by
    intro hnamed
    obtain ⟨name, hname, hsome⟩ := List.any_eq_true.1 hnamed
    exact List.any_eq_true.2 ⟨name, hnames.subset hname, hsome⟩
  have htokens : tokensOf? part = some tokens := by
    rw [tokensOf?, hlocal.lex_false hlex, Option.bind_eq_bind, Option.bind_some]
    split_ifs with hnamed
    · rw [← hlex, htrue hnamed]
    · rfl
  have hstart : ReadState.Alike ⟨.start, [], opened⟩ ⟨.start, [], 0⟩ := ⟨rfl, rfl⟩
  obtain ⟨last', hread', halike⟩ :=
    readAll_alike (captureNames tokens) (hlocal.of_lex hlex) hstart hread
  have houter' : last'.outer = [] :=
    List.map_eq_nil_iff.1 (by rw [← halike.outer, houter, List.map_nil])
  have htree : partTree? (captureNames tokens) 0 part = some last'.level.node :=
    partTree?_eq_some_iff.2 ⟨tokens, last', lex_of_tokensOf htokens, hread', houter', rfl⟩
  refine ⟨⟨last'.level.node, (captureNames tokens).length⟩, ?_, isLocal_partTree hlocal htree, ?_⟩
  · rw [ofSource?_eq, namesOf?, htokens, Option.map_some, Option.bind_some,
      if_pos (hdistinct.sublist (hnames.filterMap id)), htree, Option.map_some]
  · rw [← Level.unnumbered_node, ← halike.level, Level.unnumbered_node]

end Regex

end UriRouting
