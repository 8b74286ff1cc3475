import UriRouting.Proofs.Regex.Locality

/-!
# Expressions as parts of patterns

A pattern that compiles by itself and names no group can be read between capturing parentheses in any
pattern, whatever groups that pattern has (`exists_lex_of_unnamed`): a numeric escape may mean
something else there, but it always means something, and `\k` is no reference as long as no group has
a name.
-/

namespace UriRouting

open scoped CodeUnit

namespace Regex

/-- Two states in which the same groups are open and a quantifier can follow or not. -/
structure ReadState.SameShape (s s' : ReadState) : Prop where
  atom : s.level.atom.isSome = s'.level.atom.isSome
  outer : s.outer.map (fun entry => entry.1.unnumbered) =
    s'.outer.map fun entry => entry.1.unnumbered

/-- The units of a numeric escape are not none. -/
theorem legacyUnits_ne_nil {digits : Text} (h : digits ≠ []) : legacyUnits digits ≠ [] := by
  have octal_ne_nil (value count : Nat) (t : Text) : octalUnits value count t ≠ [] := by
    fun_induction octalUnits value count t <;> simp_all
  cases digits with
  | nil => exact absurd rfl h
  | cons u rest =>
    rw [legacyUnits]
    split
    · exact octal_ne_nil _ _ _
    · exact List.cons_ne_nil _ _

/-- A quantifier can follow the last one of some units. -/
theorem Level.isSome_atom_pushUnits {us : Text} (h : us ≠ []) (l : Level) :
    (l.pushUnits us).atom.isSome = true := by
  induction us generalizing l with
  | nil => exact absurd rfl h
  | cons u rest ih =>
    cases rest with
    | nil => rfl
    | cons v more => exact ih (List.cons_ne_nil v more) (l.pushAtom (.unit u))

/-- Whatever a numeric escape means, it is read, and a quantifier can follow it. -/
theorem exists_readStep_decimal (names : List (Option (List Char))) (s : ReadState)
    (digits : Text) :
    ∃ next, readStep names s (.decimal digits) = some next ∧ next.level.atom.isSome = true ∧
      next.outer = s.outer := by
  cases hreference : backReference? names.length digits with
  | some n => exact ⟨{ s with level := s.level.pushAtom (.backReference n) },
      by simp only [readStep, hreference], rfl, rfl⟩
  | none =>
    have hdigits : digits ≠ [] := by
      intro hnil
      simp [hnil, backReference?, CodeUnit.decimal, CodeUnit.numeral] at hreference
    exact ⟨{ s with level := s.level.pushUnits (legacyUnits digits) },
      by simp only [readStep, hreference],
      Level.isSome_atom_pushUnits (legacyUnits_ne_nil hdigits) s.level, rfl⟩

/-- What a lexeme of a pattern without named groups does to the shape of a state depends on the
shape alone. -/
theorem readStep_sameShape {names names' : List (Option (List Char))} {s s' next : ReadState}
    {token : Token} (hnames : ∀ name ∈ names, name = none) (hs : s.SameShape s')
    (h : readStep names s token = some next) :
    ∃ next', readStep names' s' token = some next' ∧ next.SameShape next' := by
  cases token with
  | unit u =>
    obtain rfl := Option.some.inj h
    exact ⟨_, rfl, rfl, hs.outer⟩
  | set c =>
    obtain rfl := Option.some.inj h
    exact ⟨_, rfl, rfl, hs.outer⟩
  | assertion a =>
    obtain rfl := Option.some.inj h
    exact ⟨_, rfl, rfl, hs.outer⟩
  | bar =>
    obtain rfl := Option.some.inj h
    exact ⟨_, rfl, rfl, hs.outer⟩
  | decimal digits =>
    obtain ⟨_, hstep, hatom, houter⟩ := exists_readStep_decimal names s digits
    obtain rfl := Option.some.inj (hstep.symm.trans h)
    obtain ⟨next', hstep', hatom', houter'⟩ := exists_readStep_decimal names' s' digits
    exact ⟨next', hstep', hatom.trans hatom'.symm, by rw [houter, houter', hs.outer]⟩
  | reference name =>
    have hnone : names.idxOf? (some name) = none := by
      rw [List.idxOf?_eq_none_iff]
      intro hmem
      cases hnames _ hmem
    simp [readStep, hnone] at h
  | openGroup opening =>
    obtain rfl := Option.some.inj h
    rcases opening with - | name | ⟨direction, negated⟩ <;>
      exact ⟨_, rfl, rfl, List.cons_eq_cons.2 ⟨rfl, hs.outer⟩⟩
  | close =>
    rw [readStep] at h
    split at h
    · cases h
    · next g level outer houter =>
      obtain rfl := Option.some.inj h
      have houters := hs.outer.symm
      rw [houter, List.map_cons, List.map_eq_cons_iff] at houters
      obtain ⟨⟨g', level'⟩, outer', houter', hg, hrest⟩ := houters
      refine ⟨⟨g'.close level' s'.level.node, outer', s'.opened⟩, ?_, ?_, hrest.symm⟩
      · rw [readStep, houter']
      · -- Whether a quantifier can follow depends on the kind of the group.
        rcases g with - | index | ⟨- | -, negated⟩ <;> rcases g' with - | index' | ⟨- | -, negated'⟩ <;>
          first | rfl | cases hg
  | quantifier q =>
    rw [readStep] at h
    split at h
    · cases h
    · next n hatom =>
      split_ifs at h with horder
      obtain rfl := Option.some.inj h
      obtain ⟨n', hatom'⟩ : ∃ n', s'.level.atom = some n' := by
        rw [← Option.isSome_iff_exists, ← hs.atom, hatom]
        rfl
      exact ⟨{ s' with level := { s'.level with atom := none }.pushFixed (.repetition q n') },
        by rw [readStep, hatom']; exact if_pos horder, rfl, hs.outer⟩

/-- Lexemes of a pattern without named groups are read in every state of the same shape. -/
theorem readAll_sameShape {names : List (Option (List Char))} (names' : List (Option (List Char)))
    {s s' last : ReadState} {tokens : List Token} (hnames : ∀ name ∈ names, name = none)
    (hs : s.SameShape s') (h : readAll names s tokens = some last) :
    ∃ last', readAll names' s' tokens = some last' ∧ last.SameShape last' := by
  induction tokens generalizing s s' with
  | nil =>
    obtain rfl := Option.some.inj h
    exact ⟨s', rfl, hs⟩
  | cons token rest ih =>
    rw [readAll_cons] at h
    obtain ⟨next, hstep, hrest⟩ := Option.bind_eq_some_iff.1 h
    obtain ⟨next', hstep', hnext⟩ := readStep_sameShape hnames hs hstep
    obtain ⟨last', hrest', hlast⟩ := ih hnext hrest
    exact ⟨last', by rw [readAll_cons, hstep', Option.bind_some, hrest'], hlast⟩

/-- Lexemes that can be read in every state of every pattern, and close what they open. -/
def Readable (tokens : List Token) : Prop :=
  ∀ names s, ∃ last, readAll names s tokens = some last ∧ last.outer = s.outer

/-- Units that stand for themselves can be read everywhere. -/
theorem readable_units (text : Text) : Readable (units text) := by
  intro names s
  exact ⟨_, readAll_units names s text, rfl⟩

/-- What can be read everywhere can be read in a row. -/
theorem Readable.append {a b : List Token} (ha : Readable a) (hb : Readable b) :
    Readable (a ++ b) := by
  intro names s
  obtain ⟨mid, hmid, hmidouter⟩ := ha names s
  obtain ⟨last, hlast, houter⟩ := hb names mid
  exact ⟨last, by rw [readAll_append, hmid, Option.bind_some, hlast], houter.trans hmidouter⟩

/-- A pattern in which no group has a name. -/
def NamesNoGroup (source : Text) : Prop :=
  ∀ names, namesOf? source = some names → ∀ name ∈ names, name = none

/-- Where no group has a name, `\k` begins no reference. -/
theorem readsReferences_eq_false {names : List (Option (List Char))}
    (h : ∀ name ∈ names, name = none) : readsReferences names = false := by
  rw [readsReferences, List.any_eq_false]
  intro name hname
  simp [h name hname]

/-- A pattern that compiles and names no group can be read in capturing parentheses everywhere. -/
theorem exists_lex_of_unnamed {source : Text} {r : Regex} (h : ofSource? source = some r)
    (hunnamed : NamesNoGroup source) :
    ∃ tokens, lex false source = some tokens ∧ (∀ name ∈ captureNames tokens, name = none) ∧
      Readable (.openGroup (.capture none) :: tokens ++ [.close]) := by
  have hcontained := contained_of_ofSource h
  rw [ofSource?_eq] at h
  obtain ⟨names, hnames, h⟩ := Option.bind_eq_some_iff.1 h
  split_ifs at h
  obtain ⟨root, htree, -⟩ := Option.map_eq_some_iff.1 h
  obtain ⟨tokens, last, hlex, hread, houter, -⟩ := partTree?_eq_some_iff.1 htree
  have hnone := hunnamed names hnames
  rw [readsReferences_eq_false hnone] at hlex
  obtain ⟨own, hown, hcapture⟩ := Option.map_eq_some_iff.1 hnames
  have hownlex := lex_of_tokensOf hown
  rw [hcapture, readsReferences_eq_false hnone] at hownlex
  obtain rfl := Option.some.inj (hownlex.symm.trans hlex)
  refine ⟨own, hlex, by rwa [hcapture], ?_⟩
  intro names' s
  obtain ⟨inner, hinner, hshape⟩ := readAll_sameShape names' hnone
    (show ReadState.SameShape ⟨.start, [], 0⟩ ⟨.start, [], s.opened + 1⟩ from ⟨rfl, rfl⟩) hread
  have hinnerouter : inner.outer = [] :=
    List.map_eq_nil_iff.1 (by rw [← hshape.outer, houter, List.map_nil])
  let base : List (OpenGroup × Level) := (.capture (s.opened + 1), s.level) :: s.outer
  refine ⟨⟨s.level.pushAtom (.group (s.opened + 1) inner.level.node), s.outer, inner.opened⟩, ?_, rfl⟩
  change readAll names' ⟨.start, base, s.opened + 1⟩ (own ++ [.close]) = _
  rw [readAll_append, readAll_inside hinner base, Option.bind_some]
  simp [readAll_cons, readStep, ReadState.under, hinnerouter, base, OpenGroup.close]

/-- A pattern whose lexemes name no group and can be read everywhere compiles. -/
theorem isSome_ofSource_of_readable {source : Text} {tokens : List Token}
    (hlex : lex false source = some tokens) (hnames : ∀ name ∈ captureNames tokens, name = none)
    (hread : Readable tokens) : (ofSource? source).isSome := by
  have hany : ((captureNames tokens).any Option.isSome) = false := readsReferences_eq_false hnames
  have htokens : tokensOf? source = some tokens := by
    rw [tokensOf?, hlex, Option.bind_eq_bind, Option.bind_some, hany]
    rfl
  have hdistinct : (captureNames tokens).filterMap id = [] := by
    rw [List.filterMap_eq_nil_iff]
    exact hnames
  obtain ⟨last, hlast, houter⟩ := hread (captureNames tokens) ⟨.start, [], 0⟩
  have htree : partTree? (captureNames tokens) 0 source = some last.level.node :=
    partTree?_eq_some_iff.2 ⟨tokens, last, lex_of_tokensOf htokens, hlast, houter, rfl⟩
  rw [ofSource?_eq, namesOf?, htokens, Option.map_some, Option.bind_some, hdistinct,
    if_pos List.nodup_nil, htree]
  rfl

end Regex

end UriRouting
