import UriRouting.Proofs.Template.Expression
import UriRouting.Proofs.Template.Written

/-!
# The grammar of templates

Reading a template undoes writing it. What has been written with some items is read as their pieces,
with the literals that stand next to each other merged (`readFrom_written`), and whatever can be read
has been written so (`exists_items_of_readFrom`). If no constraint names a group, the expression of
the whole compiles because the constraints do.
-/

namespace UriRouting

open scoped CodeUnit

namespace Template

/-- A body consists of what stands in front of its first colon and the suffix. -/
theorem Written.split_body (w : Written) :
    w.body.takeWhile isNotColon = w.before.1 ++ w.name.1 ++ w.after.1 ∧
      w.body.dropWhile isNotColon = w.suffix.text := by
  have hfront : ∀ u ∈ w.before.1 ++ w.name.1 ++ w.after.1, isNotColon u = true :=
    fun u hu => (w.neutral_front u hu).2
  rw [body, List.takeWhile_append_of_pos hfront, List.dropWhile_append_of_pos hfront,
    Text.takeWhile_eq_nil w.suffix.isNotColon_head?, List.append_nil,
    Text.dropWhile_eq_self w.suffix.isNotColon_head?]
  exact ⟨rfl, rfl⟩

/-- The name in a body is the name that is written there. -/
theorem Written.bodyName_body (w : Written) : bodyName w.body = w.name.1 := by
  rw [bodyName, w.split_body.1, Text.trim_around w.before.2 w.name.trimmed w.after.2]

/-- The constraint in a body is the one that is written there. -/
theorem Written.bodyConstraint_body (w : Written) :
    bodyConstraint w.body = (w.suffix.constraint?.map Constraint.text).getD [] := by
  rw [bodyConstraint, w.split_body.2]
  cases w.suffix with
  | absent => rfl
  | blank blanks => exact Text.trim_eq_nil blanks.2
  | constraint before c after => exact Text.trim_around before.2 c.trimmed after.2

/-- The placeholder that is read between the braces is the one that is written there. -/
theorem readPlaceholder_body (template : Text) (w : Written) :
    readPlaceholder template w.body = .ok w.placeholder := by
  rw [readPlaceholder, w.bodyName_body, w.bodyConstraint_body, Written.placeholder]
  cases w.suffix.constraint? with
  | none => simp [w.name.2]
  | some c =>
    obtain ⟨hunopened, hgroups⟩ := checks_iff.2 c.compiles
    simp [w.name.2, c.nonempty, hunopened, hgroups]

/-- What the checks of a body that can be read establish. -/
theorem checks_of_readPlaceholder {template body : Text} {p : Placeholder}
    (h : readPlaceholder template body = .ok p) :
    isName (bodyName body) = true ∧ (bodyConstraint body ≠ [] →
      ∃ groupCount, (Regex.ofSource? (bodyConstraint body)).map Regex.groupCount = some groupCount) := by
  rw [readPlaceholder] at h
  split_ifs at h with hname hempty hunopened
  · exact ⟨by simpa using hname, fun hne => absurd hempty hne⟩
  · split at h
    · cases h
    · next groupCount hgroups =>
      refine ⟨by simpa using hname, fun _ => ⟨groupCount, checks_iff.1 ⟨?_, hgroups⟩⟩⟩
      exact Bool.eq_false_iff.2 hunopened

/-- A balanced text behind a colon is a suffix if it is an expression, apart from white space. -/
theorem exists_suffix {rest : Text} (hbalanced : Balanced rest)
    (hcompiles : Text.trim rest ≠ [] →
      ∃ groupCount, (Regex.ofSource? (Text.trim rest)).map Regex.groupCount = some groupCount) :
    ∃ suffix : Suffix, suffix.text = (':' :: rest : Text) := by
  obtain ⟨before, after, hbefore, hafter, htrimmed, hrest⟩ := Text.exists_around rest
  by_cases hempty : Text.trim rest = []
  · refine ⟨.blank ⟨rest, ?_⟩, rfl⟩
    rw [hrest, hempty, List.append_nil, List.forall_mem_append]
    exact ⟨hbefore, hafter⟩
  · obtain ⟨groupCount, hcompiles⟩ := hcompiles hempty
    obtain ⟨r, hr, -⟩ := Option.map_eq_some_iff.1 hcompiles
    have hbraces : Balanced (Text.trim rest) := by
      rw [hrest, List.append_assoc] at hbalanced
      exact balanced_of_append
        (hbalanced.of_neutral_append fun u hu => (Blanks.neutral ⟨before, hbefore⟩ u hu).1)
        (fun u hu => (Blanks.neutral ⟨after, hafter⟩ u hu).1) (Regex.contained_of_ofSource hr)
    refine ⟨.constraint ⟨before, hbefore⟩
      ⟨Text.trim rest, groupCount, hempty, htrimmed, hbraces, hcompiles⟩ ⟨after, hafter⟩, ?_⟩
    rw [Suffix.text, ← hrest]

/-- A body that is balanced and can be read is that of a written placeholder. -/
theorem exists_written_of_readPlaceholder {template body : Text} {p : Placeholder}
    (hbalanced : Balanced body) (h : readPlaceholder template body = .ok p) :
    ∃ w : Written, w.body = body ∧ w.placeholder = p := by
  obtain ⟨hname, hcompiles⟩ := checks_of_readPlaceholder h
  obtain ⟨before, after, hbefore, hafter, -, hfront⟩ := Text.exists_around (body.takeWhile isNotColon)
  let written (suffix : Suffix) : Written :=
    ⟨⟨before, hbefore⟩, ⟨bodyName body, hname⟩, ⟨after, hafter⟩, suffix⟩
  have hbody : body = before ++ bodyName body ++ after ++ body.dropWhile isNotColon := by
    rw [bodyName, ← hfront, List.takeWhile_append_dropWhile]
  -- The name and the white space around it do not count for the balance.
  have hback : Balanced (body.dropWhile isNotColon) := by
    rw [hbody] at hbalanced
    exact hbalanced.of_neutral_append fun u hu => ((written .absent).neutral_front u hu).1
  obtain ⟨suffix, hsuffix⟩ : ∃ suffix : Suffix, suffix.text = body.dropWhile isNotColon := by
    have hcolon := @Text.eq_false_of_mem_head?_dropWhile isNotColon body
    have hconstraint : bodyConstraint body = Text.trim ((body.dropWhile isNotColon).drop 1) := rfl
    rw [hconstraint] at hcompiles
    cases hdrop : body.dropWhile isNotColon with
    | nil => exact ⟨.absent, rfl⟩
    | cons u rest =>
      rw [hdrop] at hcolon hback hcompiles
      obtain rfl : u = ':' := by simpa [isNotColon] using hcolon u rfl
      have hrest : Balanced rest :=
        (show Balanced (([':'] : Text) ++ rest) from hback).of_neutral_append
          (List.forall_mem_singleton.2 rfl)
      exact exists_suffix hrest hcompiles
  have hwritten : (written suffix).body = body := by
    rw [Written.body, hsuffix]
    exact hbody.symm
  refine ⟨written suffix, hwritten, ?_⟩
  rw [← hwritten, readPlaceholder_body] at h
  exact Except.ok.inj h

/-- The state of the reader inside a placeholder, with the braces that are open there. -/
def insideBody (start : Nat) (braces : Nat × Bool) (units : Text) : ReadState :=
  if braces.2 then .bodyBackslash start braces.1 units else .body start braces.1 units

/-- Inside a placeholder the reader counts the braces, up to the brace that closes the placeholder. -/
theorem readStep_insideBody (template : Text) (position start : Nat) (braces : Nat × Bool)
    (units : Text) (u : CodeUnit) :
    (∃ next, braceStep braces u = some next ∧
      readStep template position (insideBody start braces units) u =
        .ok ([], insideBody start next (u :: units))) ∨
      braces = (0, false) ∧ u = '}' ∧ braceStep braces u = none := by
  obtain ⟨depth, - | -⟩ := braces
  · by_cases hbackslash : u = '\\'
    · subst hbackslash
      exact .inl ⟨(depth, true), rfl, rfl⟩
    by_cases hopen : u = '{'
    · subst hopen
      exact .inl ⟨(depth + 1, false), rfl, rfl⟩
    by_cases hclose : u = '}'
    · subst hclose
      cases depth with
      | zero => exact .inr ⟨rfl, rfl, rfl⟩
      | succ depth => exact .inl ⟨(depth, false), rfl, rfl⟩
    · exact .inl ⟨(depth, false), by simp [braceStep, hbackslash, hopen, hclose],
        by simp [insideBody, readStep, hbackslash, hopen, hclose]⟩
  · exact .inl ⟨(depth, false), rfl, rfl⟩

/-- An opening brace ends a literal and begins a placeholder. -/
theorem readStep_open (template : Text) (position : Nat) (units : Text) :
    readStep template position (.literal units) '{' =
      .ok (literalPiece units, insideBody position (0, false) []) := rfl

/-- A step that finishes no piece. -/
theorem readFrom_of_readStep {template : Text} {position : Nat} {state next : ReadState}
    {u : CodeUnit} (h : readStep template position state u = .ok ([], next)) (rest : Text) :
    readFrom template position state (u :: rest) = readFrom template (position + 1) next rest := by
  rw [readFrom, h]
  change (readFrom template (position + 1) next rest).map ([] ++ ·) = _
  cases readFrom template (position + 1) next rest <;> rfl

/-- A text without opening braces is collected. -/
theorem readFrom_literal (template : Text) (position : Nat) (units : Text) {t : Text}
    (ht : ('{' : CodeUnit) ∉ t) (rest : Text) :
    readFrom template position (.literal units) (t ++ rest) =
      readFrom template (position + t.length) (.literal (t.reverse ++ units)) rest := by
  induction t generalizing position units with
  | nil => rfl
  | cons u t ih =>
    rw [List.mem_cons, not_or, eq_comm] at ht
    have hstep : readStep template position (.literal units) u = .ok ([], .literal (u :: units)) := by
      rw [readStep, if_neg ht.1]
    rw [List.cons_append, readFrom_of_readStep hstep, ih _ _ ht.2]
    simp [Nat.add_assoc, Nat.add_comm 1]

/-- A balanced body and the brace behind it are read as a placeholder, or refused as one. -/
theorem readFrom_body (template : Text) (position start : Nat) {braces : Nat × Bool} (units : Text)
    {body : Text} (hbody : bracesAfter braces body = some (0, false)) (rest : Text) :
    readFrom template position (insideBody start braces units) (body ++ ('}' :: rest : Text)) =
      (readPlaceholder template (units.reverse ++ body)).bind fun p =>
        (readFrom template (position + body.length + 1) (.literal []) rest).map
          ([.placeholder p] ++ ·) := by
  induction body generalizing position braces units with
  | nil =>
    obtain rfl : braces = (0, false) := Option.some.inj hbody
    have hstep : readStep template position (.body start 0 units) '}' =
        (readPlaceholder template units.reverse).map fun p => ([.placeholder p], .literal []) := rfl
    change readFrom template position (.body start 0 units) ('}' :: rest) = _
    rw [readFrom, hstep, List.append_nil]
    cases readPlaceholder template units.reverse <;> rfl
  | cons u body ih =>
    rw [bracesAfter_cons] at hbody
    obtain ⟨next, hnext, hrest⟩ := Option.bind_eq_some_iff.1 hbody
    obtain ⟨next', hnext', hstep⟩ | ⟨-, -, hnone⟩ :=
      readStep_insideBody template position start braces units u
    · obtain rfl : next = next' := Option.some.inj (hnext.symm.trans hnext')
      rw [List.cons_append, readFrom_of_readStep hstep, ih (position + 1) (u :: units) hrest]
      simp [Nat.add_assoc, Nat.add_comm 1]
    · rw [hnext] at hnone
      cases hnone

/-- What can be read inside a placeholder begins with a balanced body and the brace behind it. -/
theorem exists_body_of_readFrom {template : Text} {position start : Nat} {braces : Nat × Bool}
    {units rest : Text} {pieces : List Piece}
    (h : readFrom template position (insideBody start braces units) rest = .ok pieces) :
    ∃ (body after : Text) (p : Placeholder) (behind : Nat) (more : List Piece),
      rest = body ++ ('}' :: after : Text) ∧ bracesAfter braces body = some (0, false) ∧
        readPlaceholder template (units.reverse ++ body) = .ok p ∧
        readFrom template behind (.literal []) after = .ok more := by
  induction rest generalizing position braces units with
  | nil =>
    obtain ⟨depth, - | -⟩ := braces <;> cases h
  | cons u rest ih =>
    obtain ⟨next, hnext, hstep⟩ | ⟨rfl, rfl, -⟩ :=
      readStep_insideBody template position start braces units u
    · rw [readFrom_of_readStep hstep] at h
      obtain ⟨body, after, p, behind, more, rfl, hbody, hp, hafter⟩ := ih h
      refine ⟨u :: body, after, p, behind, more, rfl, ?_, by simpa using hp, hafter⟩
      rw [bracesAfter_cons, hnext, Option.bind_some, hbody]
    · change readFrom template position (.body start 0 units) ('}' :: rest) = _ at h
      have hstep : readStep template position (.body start 0 units) '}' =
        (readPlaceholder template units.reverse).map fun p => ([.placeholder p], .literal []) := rfl
      rw [readFrom, hstep] at h
      cases hp : readPlaceholder template units.reverse with
      | error e => simp [hp, Except.map] at h
      | ok p =>
        cases hafter : readFrom template (position + 1) (.literal []) rest with
        | error e => simp [hp, hafter, Except.map] at h
        | ok more => exact ⟨[], rest, p, _, more, rfl, rfl, by simpa using hp, hafter⟩

/-- The literal that is read of collected units. -/
theorem literalPiece_reverse (t : LiteralText) :
    literalPiece t.1.reverse = (literalItem t).map Item.piece := by
  by_cases h : t.1 = []
  · simp [literalPiece, literalItem, h]
  · simp [literalPiece, literalItem, h, Item.piece]

/-- What is written with some items is read as their pieces, with neighbouring literals merged. -/
theorem readFrom_written (template : Text) (position : Nat) (pending : LiteralText)
    (items : List Item) :
    readFrom template position (.literal pending.1.reverse) (written items) =
      .ok ((mergeFrom pending items).map Item.piece) := by
  induction items generalizing position pending with
  | nil =>
    change Except.ok (literalPiece pending.1.reverse) = _
    rw [literalPiece_reverse, mergeFrom]
  | cons item rest ih =>
    cases item with
    | literal t =>
      rw [written_cons, Item.text, readFrom_literal _ _ _ t.2, ← List.reverse_append]
      exact ih _ (pending.append t)
    | placeholder w =>
      have hbody : readFrom template (position + 1) (insideBody position (0, false) [])
          (w.body ++ ('}' :: written rest : Text)) =
          (readFrom template (position + 1 + w.body.length + 1) (.literal []) (written rest)).map
            ([.placeholder w.placeholder] ++ ·) := by
        rw [readFrom_body template (position + 1) position [] w.balanced_body, List.reverse_nil,
          List.nil_append, readPlaceholder_body]
        rfl
      rw [written_placeholder, readFrom, readStep_open]
      change (readFrom template (position + 1) (insideBody position (0, false) [])
        (w.body ++ ('}' :: written rest : Text))).map (literalPiece pending.1.reverse ++ ·) = _
      rw [hbody, show ([] : Text) = List.reverse [] from rfl, ih _ ⟨[], by simp⟩,
        literalPiece_reverse, mergeFrom, List.map_append]
      rfl

/-- What can be read has been written with some items. -/
theorem exists_items_of_readFrom {template t : Text} {position : Nat} {pieces : List Piece}
    (h : readFrom template position (.literal []) t = .ok pieces) :
    ∃ items, written items = t := by
  induction hlength : t.length using Nat.strong_induction_on generalizing t position pieces with
  | _ length ih =>
    subst hlength
    obtain ⟨front, rfl | ⟨rest, rfl⟩⟩ := exists_front t
    · exact ⟨[.literal front], by simp [written_cons, Item.text]⟩
    · rw [readFrom_literal _ _ _ front.2, readFrom, readStep_open] at h
      cases hinside : readFrom template (position + front.1.length + 1)
          (insideBody (position + front.1.length) (0, false) []) rest with
      | error e => simp [hinside, Except.map] at h
      | ok more =>
        obtain ⟨body, after, p, behind, others, rfl, hbody, hp, hafter⟩ :=
          exists_body_of_readFrom hinside
        obtain ⟨w, rfl, -⟩ := exists_written_of_readPlaceholder hbody hp
        have hshorter : after.length <
            (front.1 ++ ('{' :: (w.body ++ ('}' :: after : Text)) : Text)).length := by
          simp only [List.length_append, List.length_cons]
          omega
        obtain ⟨items, rfl⟩ := ih _ hshorter hafter rfl
        exact ⟨.literal front :: .placeholder w :: items, by
          rw [written_cons, written_placeholder, Item.text]⟩

/-- An item whose constraint, if it has one, names no group. -/
def Item.Unnamed : Item → Prop
  | literal _ => True
  | placeholder w => ∀ c, w.suffix.constraint? = some c → Regex.NamesNoGroup c.text

/-- The lexemes of an item that names no group can be read in any pattern. -/
theorem Item.Unnamed.exists_tokens {item : Item} (h : item.Unnamed) :
    ∃ out, item.piece.tokens? false = some out ∧
      (∀ name ∈ Regex.captureNames out, name = none) ∧ Regex.Readable out := by
  cases item with
  | literal t =>
    refine ⟨Regex.units t.1, rfl, ?_, Regex.readable_units t.1⟩
    simp [Regex.captureNames_units]
  | placeholder w =>
    obtain ⟨r, hr, hunnamed⟩ : ∃ r, Regex.ofSource? w.placeholder.pattern = some r ∧
        Regex.NamesNoGroup w.placeholder.pattern := by
      rw [Written.placeholder]
      cases hconstraint : w.suffix.constraint? with
      | none =>
        refine ⟨_, rfl, ?_⟩
        intro names hnames
        obtain rfl : [] = names := Option.some.inj hnames
        simp
      | some c =>
        obtain ⟨r, hr, -⟩ := Option.map_eq_some_iff.1 c.compiles
        exact ⟨r, hr, h c hconstraint⟩
    obtain ⟨tokens, hlex, hnames, hread⟩ := Regex.exists_lex_of_unnamed hr hunnamed
    refine ⟨_, by rw [Item.piece, Piece.tokens?, hlex, Option.map_some], ?_, hread⟩
    have hcapture : Regex.captureNames (.openGroup (.capture none) :: tokens ++ [.close]) =
        none :: Regex.captureNames tokens := by
      simp [Regex.captureNames]
    rw [hcapture, List.forall_mem_cons]
    exact ⟨rfl, hnames⟩

/-- The expression of items that name no group compiles. -/
theorem isSome_ofSource_outlineOf {items : List Item} (h : ∀ item ∈ items, item.Unnamed) :
    (Regex.ofSource? (outlineOf items).source).isSome := by
  obtain ⟨tokens, hlex, hnames, hread⟩ : ∃ tokens,
      Regex.lex false (outlineOf items).source = some tokens ∧
        (∀ name ∈ Regex.captureNames tokens, name = none) ∧ Regex.Readable tokens := by
    induction items with
    | nil => exact ⟨[], rfl, by simp [Regex.captureNames], Regex.readable_units []⟩
    | cons item rest ih =>
      rw [List.forall_mem_cons] at h
      obtain ⟨out, hout, houtnames, houtread⟩ := h.1.exists_tokens
      obtain ⟨more, hmore, hmorenames, hmoreread⟩ := ih h.2
      have hsound (p : Placeholder) (hp : item.piece = .placeholder p) : p.Sound := by
        cases item with
        | literal t => cases hp
        | placeholder w =>
          obtain rfl := Piece.placeholder.inj hp
          exact sound_of_readPlaceholder (readPlaceholder_body [] w)
      have hsource : (outlineOf (item :: rest)).source =
          item.piece.source ++ (outlineOf rest).source := List.flatMap_cons
      refine ⟨out ++ more, ?_, ?_, houtread.append hmoreread⟩
      · rw [hsource, Regex.lex, lexFrom_piece hsound hout, ← Regex.lex, hmore, Option.map_some]
      · rw [Regex.captureNames_append, List.forall_mem_append]
        exact ⟨houtnames, hmorenames⟩
  exact Regex.isSome_ofSource_of_readable hlex hnames hread

/-- Two outlines from which the same is derived. -/
structure Outline.Agrees (o o' : Outline) : Prop where
  normalized : o.normalized = o'.normalized
  source : o.source = o'.source
  groupNames : o.groupNames = o'.groupNames
  names : o.names = o'.names
  explicitConstraints : o.explicitConstraints = o'.explicitConstraints
  literalCharacters : o.literalCharacters = o'.literalCharacters

/-- Merging literals changes nothing that is put together from the pieces and takes literals unit by
unit. -/
theorem flatMap_mergeFrom {β : Type} (f : Piece → List β) (hnil : f (.literal []) = [])
    (happend : ∀ s t, f (.literal (s ++ t)) = f (.literal s) ++ f (.literal t))
    (pending : LiteralText) (items : List Item) :
    ((mergeFrom pending items).map Item.piece).flatMap f =
      f (.literal pending.1) ++ (items.map Item.piece).flatMap f := by
  have hliteral (t : LiteralText) : ((literalItem t).map Item.piece).flatMap f = f (.literal t.1) := by
    by_cases h : t.1 = []
    · simp [literalItem, h, hnil]
    · simp [literalItem, h, Item.piece]
  induction items generalizing pending with
  | nil => simp [mergeFrom, hliteral]
  | cons item rest ih =>
    cases item with
    | literal t => simp [mergeFrom, ih, LiteralText.append, happend, Item.piece]
    | placeholder w => simp [mergeFrom, ih, hliteral, hnil, Item.piece]

/-- Merging literals changes nothing that is derived from an outline. -/
theorem agrees_merge (template : Text) (items : List Item) :
    (Outline.mk template ((merge items).map Item.piece)).Agrees (outlineOf items) := by
  have hflat {β : Type} (f : Piece → List β) (hnil : f (.literal []) = [])
      (happend : ∀ s t, f (.literal (s ++ t)) = f (.literal s) ++ f (.literal t)) :
      ((merge items).map Item.piece).flatMap f = (items.map Item.piece).flatMap f := by
    rw [merge, flatMap_mergeFrom f hnil happend, hnil, List.nil_append]
  have hcount (pieces : List Piece) : pieces.countP Piece.isConstrained =
      (pieces.flatMap fun piece => if piece.isConstrained then [()] else []).length := by
    induction pieces with
    | nil => rfl
    | cons piece rest ih => by_cases h : piece.isConstrained = true <;> simp [ih, h, Nat.add_comm]
  refine ⟨?_, ?_, ?_, ?_, ?_, ?_⟩
  · exact hflat Piece.normalized rfl fun _ _ => rfl
  · exact hflat Piece.source rfl fun _ _ => List.flatMap_append
  · exact hflat Piece.groupNames rfl fun _ _ => rfl
  · simp only [Outline.names, outlineOf, List.filterMap_eq_flatMap_toList]
    rw [hflat _ rfl fun _ _ => rfl]
  · simp only [Outline.explicitConstraints, outlineOf, hcount]
    rw [hflat _ rfl fun _ _ => rfl]
  · simp only [Outline.literalCharacters, outlineOf]
    rw [hflat Piece.literalText rfl fun _ _ => rfl]

/-- What is written with some items is read as the outline that they describe, with neighbouring
literals merged, unless nothing is written or the expression of the whole does not compile. -/
theorem parse_written (items : List Item) :
    Outline.parse (written items) =
      if written items = [] then .error .empty
      else if (Regex.ofSource? (outlineOf items).source).isSome then
        .ok ⟨written items, (merge items).map Item.piece⟩
      else .error (.invalidTemplate (written items)) := by
  have hread : readFrom (written items) 0 (.literal []) (written items) =
      .ok ((merge items).map Item.piece) := readFrom_written _ 0 ⟨[], by simp⟩ items
  rw [Outline.parse, hread, ← (agrees_merge (written items) items).source]

/-- What is read as an outline has been written with some items, and the outline is theirs, with
neighbouring literals merged. -/
theorem exists_items_of_parse {template : Text} {o : Outline}
    (h : Outline.parse template = .ok o) :
    ∃ items, written items = template ∧ o = ⟨template, (merge items).map Item.piece⟩ := by
  obtain ⟨items, rfl⟩ : ∃ items, written items = template := by
    rw [Outline.parse] at h
    split_ifs at h
    split at h
    · cases h
    · next pieces hread => exact exists_items_of_readFrom hread
  rw [parse_written] at h
  split_ifs at h
  exact ⟨items, rfl, (Except.ok.inj h).symm⟩

/-- Templates are read exactly as they are written. What is written with some items that name no
group is read as these items, if it is not empty. And whatever is read has been written with some
items and is read as these; they are determined up to literals that stand next to each other. -/
theorem parse_exactly_written :
    (∀ items, written items ≠ [] → (∀ item ∈ items, item.Unnamed) →
      ∃ o, Outline.parse (written items) = .ok o ∧ o.Agrees (outlineOf items)) ∧
    ∀ template o, Outline.parse template = .ok o →
      ∃ items, written items = template ∧ o.Agrees (outlineOf items) ∧
        ∀ others, written others = template → merge others = merge items := by
  constructor
  · intro items hne hunnamed
    refine ⟨_, ?_, agrees_merge (written items) items⟩
    rw [parse_written, if_neg hne, if_pos (isSome_ofSource_outlineOf hunnamed)]
  · intro template o h
    obtain ⟨items, rfl, rfl⟩ := exists_items_of_parse h
    exact ⟨items, rfl, agrees_merge (written items) items,
      fun others hothers => merge_eq_of_written_eq hothers⟩

/-- A placeholder with white space everywhere and braces in its constraint, and one with a colon and
no constraint behind it. -/
theorem parse_exactly_written_digits :
    ∃ o, Outline.parse "/a/\x7b x : \\d\x7b3\x7d \x7d\x7by: \x7d" = .ok o ∧
      o.normalized = "/a/\x7bx\x7d\x7by\x7d" ∧ o.source = "/a/(\\d\x7b3\x7d)([^/]+)" ∧
      o.groupNames = [some ("x" : Text), some ("y" : Text)] ∧ o.explicitConstraints = 1 ∧
      ∃ items, ∀ others, written others = "/a/\x7b x : \\d\x7b3\x7d \x7d\x7by: \x7d" →
        merge others = merge items := by
  let blank : Blanks := ⟨" ", List.forall_mem_singleton.2 rfl⟩
  let nothing : Blanks := ⟨[], List.forall_mem_nil _⟩
  have htrimmed : Text.Trimmed "\\d\x7b3\x7d" := by
    refine ⟨?_, ?_⟩ <;> intro u hu <;> obtain rfl := Option.some.inj hu <;> rfl
  let digits : Constraint :=
    ⟨"\\d\x7b3\x7d", 0, by decide, htrimmed, by decide, by decide +kernel⟩
  let items : List Item := [.literal ⟨"/a/", by decide⟩,
    .placeholder ⟨blank, ⟨"x", by decide⟩, blank, .constraint blank digits blank⟩,
    .placeholder ⟨nothing, ⟨"y", by decide⟩, nothing, .blank blank⟩]
  have hwritten : written items = "/a/\x7b x : \\d\x7b3\x7d \x7d\x7by: \x7d" := rfl
  have hunnamed : ∀ item ∈ items, item.Unnamed := by
    have hnames : Regex.namesOf? "\\d\x7b3\x7d" = some [] := by decide +kernel
    simp only [items, List.forall_mem_cons]
    refine ⟨trivial, ?_, ?_, by simp⟩
    · intro c hc names hnamesof
      obtain rfl : digits = c := Option.some.inj hc
      obtain rfl := Option.some.inj (hnames.symm.trans hnamesof)
      simp
    · intro c hc
      cases hc
  obtain ⟨hforward, hback⟩ := parse_exactly_written
  obtain ⟨o, ho, hagrees⟩ := hforward items (by rw [hwritten]; decide) hunnamed
  rw [hwritten] at ho
  obtain ⟨own, -, -, hunique⟩ := hback _ _ ho
  exact ⟨o, ho, hagrees.normalized, hagrees.source, hagrees.groupNames, hagrees.explicitConstraints,
    own, hunique⟩

end Template

end UriRouting
