import UriRouting.Proofs.Regex.Enclosing
import UriRouting.Proofs.Regex.Parts
import UriRouting.Proofs.Template.Groups
import UriRouting.Proofs.Template.Spelling

/-!
# Constraints inside templates

A constraint is checked by itself, but a template matches it inside the parentheses of its
placeholder. Nothing renumbers the escapes of the constraint, so in a template of one placeholder the
constraint matches what its lowered lexemes match by themselves (`params_of_single`). That is what the
constraint matches by itself as long as no numeric escape refers to a group in the template; else the
two may differ (`not_params_of_renumbered`).
-/

namespace UriRouting

open scoped CodeUnit

namespace Pattern

variable {κ : Type} [DecidableEq κ]

/-- If only the first group has a name, that name alone is bound. -/
theorem bindAll_single (name : κ) (n : Nat) (text : Text) (rest : List (Option Text)) :
    bindAll (some name :: List.replicate n none) (some text :: rest) = [(name, text)] := by
  have unnamed (entries : Entries κ Text) (n : Nat) (rest : List (Option Text)) :
      ((List.replicate n none).zip rest).foldl bind entries = entries := by
    induction n generalizing rest with
    | zero => rfl
    | succ n ih =>
      cases rest with
      | nil => rfl
      | cons text rest => exact ih rest
  exact unnamed _ n rest

end Pattern

namespace Template

open Regex (Node Token)

/-- The lexemes of a placeholder are those of its constraint between capturing parentheses. -/
theorem lex_placeholder {p : Placeholder} (hp : p.Sound) (named : Bool) :
    Regex.lex named (Piece.placeholder p).source = (Regex.lex named p.pattern).map fun body =>
      .openGroup (.capture none) :: body ++ [.close] := by
  rw [Regex.lex, ← List.append_nil (Piece.source _), lexFrom_placeholder hp,
    hp.contained.lexFrom_append_close]
  cases Regex.lex named p.pattern <;> rfl

/-- The constraint of a placeholder has the lexemes that it has in the template, whose groups are the
one of the placeholder and its own. -/
theorem exists_tokensOf_pattern {p : Placeholder} (hp : p.Sound) {names : List (Option (List Char))}
    (h : Regex.namesOf? (Piece.placeholder p).source = some names) :
    ∃ tokens, Regex.tokensOf? p.pattern = some tokens ∧
      names = none :: Regex.captureNames tokens := by
  have captureNames_wrapped (body : List Token) :
      Regex.captureNames (.openGroup (.capture none) :: body ++ [.close]) =
        none :: Regex.captureNames body := by
    rw [Regex.captureNames_append]
    simp [Regex.captureNames]
  obtain ⟨tokens, htokens, rfl⟩ := Option.map_eq_some_iff.1 h
  obtain ⟨plain, hplain, hnamed⟩ := Option.bind_eq_some_iff.1 htokens
  rw [lex_placeholder hp] at hplain hnamed
  obtain ⟨body, hbody, rfl⟩ := Option.map_eq_some_iff.1 hplain
  rw [captureNames_wrapped, List.any_cons, Option.isSome_none, Bool.false_or] at hnamed
  rw [Regex.tokensOf?, hbody, Option.bind_eq_bind, Option.bind_some]
  split_ifs at hnamed ⊢
  · obtain ⟨inner, hinner, rfl⟩ := Option.map_eq_some_iff.1 hnamed
    exact ⟨inner, hinner, captureNames_wrapped inner⟩
  · obtain rfl := Option.some.inj hnamed
    exact ⟨body, rfl, captureNames_wrapped body⟩

/-- The pattern of a template of one placeholder matches what the lowered lexemes of the constraint
match by themselves. -/
theorem isSome_groups_single {t : Template} {names : List (Option (List Char))} {terms : List Node}
    {p : Placeholder} (h : Compiled t names terms) (hpieces : t.outline.pieces = [.placeholder p]) :
    ∃ tokens r, Regex.tokensOf? p.pattern = some tokens ∧
      Regex.ofTokens? (tokens.flatMap (Token.lowered p.groupCount)) = some r ∧
      ∀ uri, (t.pattern.groups? uri).isSome =
        (Regex.exec? ⟨r.root.anchored, r.groupCount⟩ uri).isSome := by
  have hp : p.Sound := h.sound.placeholder p (by simp [hpieces])
  have hnamed := h.named
  rw [Outline.source, hpieces, List.flatMap_singleton] at hnamed
  obtain ⟨tokens, htokens, rfl⟩ := exists_tokensOf_pattern hp hnamed
  have hcount : (Regex.captureNames tokens).length = p.groupCount := by
    simpa [Outline.groupNames, hpieces, Piece.groupNames] using h.count
  have hread := h.read
  rw [hpieces] at hread
  obtain ⟨body, hterms, htree⟩ : ∃ body, terms = [.group 1 body] ∧
      Regex.partTree? (none :: Regex.captureNames tokens) 1 p.pattern = some body := by
    obtain ⟨first, hfirst, hread⟩ := Option.bind_eq_some_iff.1 hread
    obtain ⟨body, htree, rfl⟩ := Option.map_eq_some_iff.1 hfirst
    exact ⟨body, (Option.some.inj hread).symm, htree⟩
  have hgroups : ∀ group ∈ body.groups, 2 ≤ group := by
    rw [Regex.groups_partTree htree]
    intro group hgroup
    exact (List.mem_range'_1.1 hgroup).1
  have hdistinct : ((Regex.captureNames tokens).filterMap id).Nodup := h.distinct
  have hlowered := Regex.ofTokens?_lowered hdistinct rfl (Regex.lex_of_tokensOf htokens) htree
  rw [hcount] at hlowered
  refine ⟨tokens, _, htokens, hlowered, ?_⟩
  intro uri
  rw [Pattern.groups?, h.regex, hterms, List.length_cons, hcount, Regex.isSome_exec?_enclosed hgroups]

/-- A template of one placeholder binds the name to the text, whenever it matches. -/
theorem params?_single {t : Template} {names : List (Option (List Char))} {terms : List Node}
    {p : Placeholder} (h : Compiled t names terms) (hpieces : t.outline.pieces = [.placeholder p])
    (uri : Text) :
    t.params? uri = if (t.pattern.groups? uri).isSome then some [(p.name, uri)] else none := by
  rw [params?, Pattern.bindings?]
  cases hmatch : t.pattern.groups? uri with
  | none => rfl
  | some texts =>
    obtain ⟨-, values, hvalues, hspells⟩ := spells_of_groups h hmatch
    have hgroupNames : t.pattern.groupNames = some p.name :: List.replicate p.groupCount none := by
      simp [h.groupNames, Outline.groupNames, hpieces, Piece.groupNames]
    rw [hgroupNames] at hvalues ⊢
    rw [hpieces] at hspells
    cases hspells with
    | @placeholder _ value _ _ _ _ hrest =>
      cases hrest
      cases texts with
      | nil => cases hvalues
      | cons first rest =>
        obtain ⟨rfl, -⟩ := List.cons.inj hvalues
        rw [Option.map_some, Pattern.bindAll_single, List.append_nil]
        rfl

/-- A template of one placeholder binds its name to exactly the texts which the lowered lexemes of
the constraint match in full. If no numeric escape of the constraint refers to a group in the template,
the constraint compiles by itself, and these are the texts that it matches. -/
theorem params_of_single {text : Text} {t : Template} {p : Placeholder} (h : parse text = .ok t)
    (hpieces : t.outline.pieces = [.placeholder p]) :
    ∃ tokens, Regex.tokensOf? p.pattern = some tokens ∧
      (∃ r, Regex.ofTokens? (tokens.flatMap (Token.lowered p.groupCount)) = some r ∧
        ∀ uri, t.params? uri =
          if (Regex.exec? ⟨r.root.anchored, r.groupCount⟩ uri).isSome then some [(p.name, uri)]
          else none) ∧
      ((∀ token ∈ tokens, ¬ token.IsNumericReference p.groupCount) →
        ∃ pattern : Pattern Text, Pattern.compile p.pattern [] = .ok pattern ∧
          ∀ uri, t.params? uri =
            if (pattern.groups? uri).isSome then some [(p.name, uri)] else none) := by
  obtain ⟨-, names, terms, hcompiled⟩ := compiled_of_parse h
  obtain ⟨tokens, r, htokens, hr, hmatch⟩ := isSome_groups_single hcompiled hpieces
  have hparams (uri : Text) : t.params? uri =
      if (Regex.exec? ⟨r.root.anchored, r.groupCount⟩ uri).isSome then some [(p.name, uri)]
      else none := by
    rw [params?_single hcompiled hpieces, hmatch]
  refine ⟨tokens, htokens, ⟨r, hr, hparams⟩, ?_⟩
  intro hplain
  rw [Regex.flatMap_lowered_of_not hplain] at hr
  have hsource : Regex.ofSource? p.pattern = some r := by
    rw [Regex.ofSource?, htokens, Option.bind_eq_bind, Option.bind_some, hr]
  refine ⟨⟨p.pattern, [], r.root.anchored, r.groupCount⟩, ?_, hparams⟩
  rw [Pattern.compile, Regex.ofSource?_anchored hsource]

/-- A constraint with a group, an alternative and a class, none of which is referred to. -/
theorem params_single_alternative :
    ∃ t p, parse "\x7bx: (a|b)+[\\d] \x7d" = .ok t ∧ t.outline.pieces = [.placeholder p] ∧
      ∃ pattern : Pattern Text, Pattern.compile p.pattern [] = .ok pattern ∧
        ∀ uri, t.params? uri =
          if (pattern.groups? uri).isSome then some [(p.name, uri)] else none := by
  have hparse : (parse "\x7bx: (a|b)+[\\d] \x7d").toOption.map (fun t => t.outline.pieces) =
      some [.placeholder ⟨"x", some ("(a|b)+[\\d]" : Text), 1⟩] := by
    decide +kernel
  have htokens : (Regex.tokensOf? "(a|b)+[\\d]").all fun tokens =>
      tokens.all fun token => ¬ token.IsNumericReference 1 := by
    decide +kernel
  cases h : parse "\x7bx: (a|b)+[\\d] \x7d" with
  | error e => simp [h, Except.toOption] at hparse
  | ok t =>
    have hpieces : t.outline.pieces = [.placeholder ⟨"x", some ("(a|b)+[\\d]" : Text), 1⟩] := by
      simpa [h, Except.toOption] using hparse
    obtain ⟨tokens, hlex, -, hplain⟩ := params_of_single h hpieces
    refine ⟨t, _, rfl, hpieces, hplain ?_⟩
    change Regex.tokensOf? "(a|b)+[\\d]" = some tokens at hlex
    rw [hlex] at htokens
    simpa using htokens

/-- By itself the constraint `(a)\1` matches `aa`; in a template it does not, where `\1` refers to
the parentheses of the placeholder. -/
theorem not_params_of_renumbered :
    ∃ t p, ∃ pattern : Pattern Text, parse "\x7bx:(a)\\1\x7d" = .ok t ∧
      t.outline.pieces = [.placeholder p] ∧ p.constraint = some "(a)\\1" ∧
      Pattern.compile "(a)\\1" [] = .ok pattern ∧ (pattern.groups? "aa").isSome ∧
      t.params? "aa" = none := by
  have hparse : (parse "\x7bx:(a)\\1\x7d").toOption.map
      (fun t => (t.outline.pieces, t.params? "aa")) =
        some ([.placeholder ⟨"x", some ("(a)\\1" : Text), 1⟩], none) := by
    decide +kernel
  have hcompile : (Pattern.compile (κ := Text) "(a)\\1" []).toOption.map
      (fun pattern => (pattern.groups? "aa").isSome) = some true := by
    decide +kernel
  cases h : parse "\x7bx:(a)\\1\x7d" with
  | error e => simp [h, Except.toOption] at hparse
  | ok t =>
    obtain ⟨hpieces, hparams⟩ : t.outline.pieces = _ ∧ t.params? "aa" = none := by
      simpa [h, Except.toOption] using hparse
    cases hpattern : Pattern.compile (κ := Text) "(a)\\1" [] with
    | error e => simp [hpattern, Except.toOption] at hcompile
    | ok pattern =>
      have hmatch : (pattern.groups? "aa").isSome := by
        simpa [hpattern, Except.toOption] using hcompile
      exact ⟨t, _, pattern, rfl, hpieces, rfl, rfl, hmatch, hparams⟩

end Template

end UriRouting
