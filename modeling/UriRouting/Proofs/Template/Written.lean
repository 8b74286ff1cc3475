import UriRouting.Proofs.Regex.Parts
import UriRouting.Proofs.Template.Reading
import UriRouting.Proofs.Text.Trimming

/-!
# How templates are written

A template is written as literal texts and placeholders in any order (`Item`). Between its braces a
placeholder has a name with white space around it and, behind a colon, a constraint with white space
around it or white space alone. The parts carry what the notation asks of them: a literal holds no
opening brace, and a constraint begins and ends without white space, balances its braces and is an
expression by itself.

What is written between the braces can be read in one way only (`Written.ext_of_body`), and so can a
template, up to literals that stand next to each other (`merge_eq_of_written_eq`).
-/

namespace UriRouting

open scoped CodeUnit

namespace Template

/-- How many braces are open behind a unit, and whether it is a backslash that takes the next unit
out of account. A brace that is not open cannot be closed. -/
def braceStep : Nat × Bool → CodeUnit → Option (Nat × Bool)
  | (depth, true), _ => some (depth, false)
  | (depth, false), u =>
    if u = '\\' then some (depth, true)
    else if u = '{' then some (depth + 1, false)
    else if u = '}' then if depth = 0 then none else some (depth - 1, false)
    else some (depth, false)

/-- The same behind a text. -/
def bracesAfter (state : Nat × Bool) (t : Text) : Option (Nat × Bool) := t.foldlM braceStep state

/-- A text whose braces nest and balance, and that does not end behind a backslash. -/
def Balanced (t : Text) : Prop := bracesAfter (0, false) t = some (0, false)

instance (t : Text) : Decidable (Balanced t) := inferInstanceAs (Decidable (_ = _))

/-- A unit that is no brace and no backslash. -/
def isNeutral (u : CodeUnit) : Bool := u ≠ '\\' && u ≠ '{' && u ≠ '}'

/-- The braces of a text that begins with a unit. -/
theorem bracesAfter_cons (state : Nat × Bool) (u : CodeUnit) (rest : Text) :
    bracesAfter state (u :: rest) = (braceStep state u).bind (bracesAfter · rest) :=
  List.foldlM_cons

/-- The braces of two texts one after the other. -/
theorem bracesAfter_append (state : Nat × Bool) (a b : Text) :
    bracesAfter state (a ++ b) = (bracesAfter state a).bind (bracesAfter · b) :=
  List.foldlM_append

/-- Balanced texts one after the other are balanced. -/
theorem Balanced.append {a b : Text} (ha : Balanced a) (hb : Balanced b) : Balanced (a ++ b) := by
  rw [Balanced, bracesAfter_append, ha]
  exact hb

/-- Neutral units open and close nothing. -/
theorem bracesAfter_of_neutral (depth : Nat) {t : Text} (h : ∀ u ∈ t, isNeutral u = true) :
    bracesAfter (depth, false) t = some (depth, false) := by
  induction t with
  | nil => rfl
  | cons u rest ih =>
    rw [List.forall_mem_cons] at h
    have hu : braceStep (depth, false) u = some (depth, false) := by
      simp only [isNeutral, ne_eq, decide_not, Bool.and_eq_true, Bool.not_eq_true',
        decide_eq_false_iff_not] at h
      simp [braceStep, h.1]
    rw [bracesAfter_cons, hu, Option.bind_some, ih h.2]

/-- A text is balanced if it is balanced behind neutral units. -/
theorem Balanced.of_neutral_append {a b : Text} (h : Balanced (a ++ b))
    (ha : ∀ u ∈ a, isNeutral u = true) : Balanced b := by
  rwa [Balanced, bracesAfter_append, bracesAfter_of_neutral 0 ha] at h

/-- What a closing brace ends is balanced in one way only. -/
theorem balanced_unique {state : Nat × Bool} {a b rest rest' : Text}
    (ha : bracesAfter state a = some (0, false)) (hb : bracesAfter state b = some (0, false))
    (h : a ++ ('}' :: rest : Text) = b ++ ('}' :: rest' : Text)) : a = b ∧ rest = rest' := by
  -- Behind a balanced text, a closing brace closes nothing.
  have hclose (more : Text) : bracesAfter (0, false) ('}' :: more) = none := rfl
  induction a generalizing state b with
  | nil =>
    obtain rfl : state = (0, false) := Option.some.inj ha
    cases b with
    | nil => exact ⟨rfl, (List.cons.inj h).2⟩
    | cons v more =>
      obtain ⟨rfl, -⟩ := List.cons.inj h
      rw [hclose] at hb
      cases hb
  | cons u a ih =>
    cases b with
    | nil =>
      obtain rfl : state = (0, false) := Option.some.inj hb
      obtain ⟨rfl, -⟩ := List.cons.inj h
      rw [hclose] at ha
      cases ha
    | cons v b =>
      obtain ⟨rfl, htail⟩ := List.cons.inj h
      rw [bracesAfter_cons] at ha hb
      obtain ⟨next, hnext, ha⟩ := Option.bind_eq_some_iff.1 ha
      rw [hnext, Option.bind_some] at hb
      obtain ⟨rfl, hrest⟩ := ih ha hb htail
      exact ⟨rfl, hrest⟩

/-- Whether a scan for brackets stands behind a backslash. -/
def escapes : Regex.Scan → Bool
  | .escaped => true
  | .inClassEscaped => true
  | _ => false

/-- A scan stands behind a backslash if the unit before was one, and was not itself behind one. -/
theorem escapes_step (scan : Regex.Scan) (u : CodeUnit) :
    escapes (scan.step u).2 = (!escapes scan && decide (u = '\\')) := by
  by_cases hu : u = '\\'
  · subst hu
    cases scan <;> rfl
  · have hplain : escapes (Regex.Scan.plainStep u).2 = false := by
      rw [Regex.Scan.plainStep, if_neg hu]
      split_ifs <;> rfl
    rw [decide_eq_false hu, Bool.and_false]
    cases scan with
    | plain => exact hplain
    | escaped => rfl
    | inClass =>
      rw [Regex.Scan.step, if_neg hu]
      split_ifs <;> rfl
    | inClassEscaped => rfl
    | group =>
      rw [Regex.Scan.step]
      split_ifs
      · rfl
      · exact hplain
    | groupMark =>
      rw [Regex.Scan.step]
      split_ifs
      · rfl
      · exact hplain
    | groupAngle => exact hplain

/-- The same for the braces of a text. -/
theorem braceStep_snd {state next : Nat × Bool} {u : CodeUnit} (h : braceStep state u = some next) :
    next.2 = (!state.2 && decide (u = '\\')) := by
  obtain ⟨depth, - | -⟩ := state
  · rw [braceStep] at h
    split_ifs at h with hbackslash <;> obtain rfl := Option.some.inj h <;> simp [hbackslash]
  · obtain rfl := Option.some.inj h
    rfl

/-- Brackets and braces agree on which units stand behind a backslash. -/
theorem escapes_run {scan : Regex.Scan} {state last : Nat × Bool} {t : Text}
    (hstate : state.2 = escapes scan) (h : bracesAfter state t = some last) :
    last.2 = escapes (scan.run t).2 := by
  induction t generalizing scan state with
  | nil =>
    obtain rfl := Option.some.inj h
    exact hstate
  | cons u rest ih =>
    rw [bracesAfter_cons] at h
    obtain ⟨next, hnext, hrest⟩ := Option.bind_eq_some_iff.1 h
    have hescapes : next.2 = escapes (scan.step u).2 := by
      rw [braceStep_snd hnext, escapes_step, hstate]
    exact ih hescapes hrest

/-- A constraint that neutral units follow is balanced if they are balanced together and the
constraint is contained. -/
theorem balanced_of_append {a b : Text} (h : Balanced (a ++ b)) (hb : ∀ u ∈ b, isNeutral u = true)
    (ha : Regex.Contained a) : Balanced a := by
  rw [Balanced, bracesAfter_append] at h
  obtain ⟨⟨depth, escaped⟩, hmid, hlast⟩ := Option.bind_eq_some_iff.1 h
  obtain rfl : escaped = false := by
    have hescapes : escaped = escapes (Regex.Scan.plain.run a).2 := escapes_run rfl hmid
    rw [hescapes, ha.ends]
    rfl
  rw [bracesAfter_of_neutral depth hb] at hlast
  exact hmid.trans hlast

/-- A constraint passes the checks exactly if it compiles by itself, and the groups that are counted
are its own. -/
theorem checks_iff {constraint : Text} {groupCount : Nat} :
    (closesUnopened 0 false constraint = false ∧ constraintGroups? constraint = some groupCount) ↔
      (Regex.ofSource? constraint).map Regex.groupCount = some groupCount := by
  constructor
  · intro h
    obtain ⟨hunopened, hgroups⟩ := h
    rw [← Regex.constraintGroups?_eq hunopened, hgroups]
  · intro h
    obtain ⟨r, hr, -⟩ := Option.map_eq_some_iff.1 h
    have hunopened := Regex.closesUnopened_of_ofSource hr
    refine ⟨hunopened, ?_⟩
    rw [Regex.constraintGroups?_eq hunopened, h]

/-- A constraint passes both checks exactly if it is an expression by itself. What is counted is then
the number of its capturing groups, which are those of its tree, numbered one after the other. -/
theorem passes_checks_iff (constraint : Text) :
    ((closesUnopened 0 false constraint = false ∧ (constraintGroups? constraint).isSome) ↔
      (Regex.ofSource? constraint).isSome) ∧
    ∀ r, Regex.ofSource? constraint = some r →
      constraintGroups? constraint = some r.groupCount ∧
        r.root.groups = List.range' 1 r.groupCount := by
  have hcount (r : Regex) (hr : Regex.ofSource? constraint = some r) :
      closesUnopened 0 false constraint = false ∧
        constraintGroups? constraint = some r.groupCount :=
    checks_iff.2 (by rw [hr, Option.map_some])
  refine ⟨⟨?_, ?_⟩, ?_⟩
  · intro h
    obtain ⟨groupCount, hgroups⟩ := Option.isSome_iff_exists.1 h.2
    obtain ⟨r, hr, -⟩ := Option.map_eq_some_iff.1 (checks_iff.1 ⟨h.1, hgroups⟩)
    exact Option.isSome_of_mem hr
  · intro h
    obtain ⟨r, hr⟩ := Option.isSome_iff_exists.1 h
    exact ⟨(hcount r hr).1, Option.isSome_of_mem (hcount r hr).2⟩
  · intro r hr
    exact ⟨(hcount r hr).2, (Regex.groups_of_ofSource hr).2⟩

/-- White space, or nothing. -/
abbrev Blanks := { t : Text // ∀ u ∈ t, CodeUnit.isBlank u = true }

/-- The name of a placeholder. -/
abbrev Name := { t : Text // isName t = true }

/-- A text without an opening brace. -/
abbrev LiteralText := { t : Text // ('{' : CodeUnit) ∉ t }

/-- A constraint that a placeholder can have: it begins and ends without white space, its braces are
balanced, and it is an expression by itself, with so many capturing groups. -/
@[ext] structure Constraint where
  text : Text
  groupCount : Nat
  nonempty : text ≠ []
  trimmed : text.Trimmed
  balanced : Balanced text
  compiles : (Regex.ofSource? text).map Regex.groupCount = some groupCount

/-- What stands behind the name of a placeholder: nothing, a colon with white space alone, or a colon
and a constraint with white space around it. -/
inductive Suffix where
  | absent
  | blank (blanks : Blanks)
  | constraint (before : Blanks) (c : Constraint) (after : Blanks)

/-- The text of a suffix. -/
def Suffix.text : Suffix → Text
  | absent => []
  | blank blanks => ':' :: blanks.1
  | constraint before c after => ':' :: (before.1 ++ c.text ++ after.1)

/-- The constraint of a suffix, if it has one. -/
def Suffix.constraint? : Suffix → Option Constraint
  | constraint _ c _ => some c
  | _ => none

/-- A placeholder as it is written: its name with white space around it, and its suffix. -/
@[ext] structure Written where
  before : Blanks
  name : Name
  after : Blanks
  suffix : Suffix

namespace Written

/-- What stands between the braces. -/
def body (w : Written) : Text := w.before.1 ++ w.name.1 ++ w.after.1 ++ w.suffix.text

/-- The placeholder that is written. -/
def placeholder (w : Written) : Placeholder :=
  match w.suffix.constraint? with
  | none => ⟨w.name, none, 0⟩
  | some c => ⟨w.name, some c.text, c.groupCount⟩

end Written

/-- A part of a template as it is written: a literal text, possibly empty, or a placeholder. -/
inductive Item where
  | literal (text : LiteralText)
  | placeholder (w : Written)

namespace Item

/-- The text of an item. -/
def text : Item → Text
  | literal t => t.1
  | placeholder w => (['{'] : Text) ++ w.body ++ (['}'] : Text)

/-- The piece of an item. -/
def piece : Item → Piece
  | literal t => .literal t.1
  | placeholder w => .placeholder w.placeholder

end Item

/-- The template that is written with some items. -/
def written (items : List Item) : Text := items.flatMap Item.text

/-- The outline that some items describe. -/
def outlineOf (items : List Item) : Outline := ⟨written items, items.map Item.piece⟩

/-- A literal item, unless the text is empty. -/
def literalItem (t : LiteralText) : List Item := if t.1 = [] then [] else [.literal t]

/-- A unit that begins no placeholder. -/
def isLiteralUnit (u : CodeUnit) : Bool := u ≠ '{'

/-- The units of a literal begin no placeholder. -/
theorem LiteralText.isLiteralUnit (t : LiteralText) : ∀ u ∈ t.1, isLiteralUnit u = true := by
  intro u hu
  rw [Template.isLiteralUnit, decide_eq_true_eq]
  rintro rfl
  exact t.2 hu

/-- A text has a literal at its front, up to its first opening brace. -/
theorem exists_front (t : Text) :
    ∃ front : LiteralText, t = front.1 ∨ ∃ rest : Text, t = front.1 ++ ('{' :: rest : Text) := by
  have hbrace : ('{' : CodeUnit) ∉ t.takeWhile isLiteralUnit := by
    intro hmem
    cases List.mem_takeWhile_imp hmem
  have hsplit : t = t.takeWhile isLiteralUnit ++ t.dropWhile isLiteralUnit :=
    List.takeWhile_append_dropWhile.symm
  have hhead := @Text.eq_false_of_mem_head?_dropWhile isLiteralUnit t
  refine ⟨⟨t.takeWhile isLiteralUnit, hbrace⟩, ?_⟩
  cases hback : t.dropWhile isLiteralUnit with
  | nil =>
    rw [hback, List.append_nil] at hsplit
    exact .inl hsplit
  | cons u rest =>
    rw [hback] at hhead hsplit
    obtain rfl : u = '{' := by simpa [isLiteralUnit] using hhead u rfl
    exact .inr ⟨rest, hsplit⟩

/-- One literal text behind another. -/
def LiteralText.append (s t : LiteralText) : LiteralText := ⟨s.1 ++ t.1, by simp [s.2, t.2]⟩

/-- Merge the literals that stand next to each other, those at the front with a literal text before
them. -/
def mergeFrom (pending : LiteralText) : List Item → List Item
  | [] => literalItem pending
  | .literal t :: rest => mergeFrom (pending.append t) rest
  | .placeholder w :: rest => literalItem pending ++ .placeholder w :: mergeFrom ⟨[], by simp⟩ rest

/-- Merge the literals that stand next to each other, and leave out the empty ones. -/
def merge (items : List Item) : List Item := mergeFrom ⟨[], by simp⟩ items

/-- A unit of a name is no blank. -/
theorem isBlank_of_isNameUnit {u : CodeUnit} (h : isNameUnit u = true) :
    CodeUnit.isBlank u = false := by
  simp only [isNameUnit, Bool.or_eq_true, decide_eq_true_eq] at h
  rcases h with (h | rfl) | rfl
  · exact Text.isBlank_of_isWord h
  · rfl
  · rfl

/-- A unit of a class that holds neither the colon nor a brace nor the backslash. -/
theorem neutral_of_class {p : CodeUnit → Bool} {u : CodeUnit} (h : p u = true)
    (hp : p '\\' = false ∧ p '{' = false ∧ p '}' = false ∧ p ':' = false) :
    isNeutral u = true ∧ isNotColon u = true := by
  obtain ⟨hbackslash, hopen, hclose, hcolon⟩ := hp
  simp only [isNeutral, isNotColon, Bool.and_eq_true, decide_eq_true_eq]
  refine ⟨⟨⟨?_, ?_⟩, ?_⟩, ?_⟩ <;> rintro rfl <;> simp_all

/-- The units of a name are units of names. -/
theorem Name.isNameUnit (name : Name) : ∀ u ∈ name.1, isNameUnit u = true := by
  obtain ⟨- | ⟨u, rest⟩, hname⟩ := name
  · cases hname
  · rw [isName, Bool.and_eq_true, List.all_eq_true] at hname
    rw [List.forall_mem_cons]
    exact ⟨by simp [Template.isNameUnit, hname.1], hname.2⟩

/-- A name is not empty. -/
theorem Name.ne_nil (name : Name) : name.1 ≠ [] := by
  intro h
  have hname := name.2
  rw [h] at hname
  cases hname

/-- A name begins and ends without white space. -/
theorem Name.trimmed (name : Name) : name.1.Trimmed where
  first u hu := isBlank_of_isNameUnit (name.isNameUnit u (List.mem_of_mem_head? hu))
  last u hu := isBlank_of_isNameUnit (name.isNameUnit u (List.mem_of_mem_getLast? hu))

/-- White space is neutral and holds no colon. -/
theorem Blanks.neutral (blanks : Blanks) :
    ∀ u ∈ blanks.1, isNeutral u = true ∧ isNotColon u = true := fun u hu =>
  neutral_of_class (blanks.2 u hu) ⟨rfl, rfl, rfl, rfl⟩

/-- Constraints of one text are equal. -/
theorem Constraint.ext_of_text {c c' : Constraint} (h : c.text = c'.text) : c = c' :=
  Constraint.ext h (Option.some.inj (by rw [← c.compiles, ← c'.compiles, h]))

/-- A suffix is written in one way only. -/
theorem Suffix.eq_of_text_eq {a a' : Suffix} (h : a.text = a'.text) : a = a' := by
  -- White space alone is no constraint.
  have hblank (blanks before after : Blanks) (c : Constraint) :
      blanks.1 ≠ before.1 ++ c.text ++ after.1 := by
    intro h
    have hsome : Text.trim blanks.1 = c.text := by
      rw [h, Text.trim_around before.2 c.trimmed after.2]
    exact c.nonempty (hsome.symm.trans (Text.trim_eq_nil blanks.2))
  cases a with
  | absent => cases a' <;> first | rfl | cases h
  | blank blanks =>
    cases a' with
    | absent => cases h
    | blank blanks' => rw [Subtype.ext (List.cons.inj h).2]
    | constraint before c after => exact absurd (List.cons.inj h).2 (hblank _ _ _ _)
  | constraint before c after =>
    cases a' with
    | absent => cases h
    | blank blanks => exact absurd (List.cons.inj h).2.symm (hblank _ _ _ _)
    | constraint before' c' after' =>
      obtain ⟨hbefore, htext, hafter⟩ := Text.around_unique before.2 c.trimmed after.2 before'.2
        c'.trimmed after'.2 c.nonempty (List.cons.inj h).2
      rw [Subtype.ext hbefore, Constraint.ext_of_text htext, Subtype.ext hafter]

/-- A suffix begins with a colon, if it is not absent. -/
theorem Suffix.isNotColon_head? (a : Suffix) :
    ∀ u ∈ a.text.head?, isNotColon u = false := by
  intro u hu
  cases a with
  | absent => cases hu
  | blank blanks =>
    obtain rfl := Option.some.inj hu
    rfl
  | constraint before c after =>
    obtain rfl := Option.some.inj hu
    rfl

namespace Written

/-- The units in front of the suffix are neutral, and none is a colon. -/
theorem neutral_front (w : Written) :
    ∀ u ∈ w.before.1 ++ w.name.1 ++ w.after.1, isNeutral u = true ∧ isNotColon u = true := by
  intro u hu
  rw [List.mem_append, List.mem_append] at hu
  rcases hu with (hu | hu) | hu
  · exact w.before.neutral u hu
  · exact neutral_of_class (w.name.isNameUnit u hu) ⟨rfl, rfl, rfl, rfl⟩
  · exact w.after.neutral u hu

/-- What stands between the braces is balanced. -/
theorem balanced_body (w : Written) : Balanced w.body := by
  have hsuffix : Balanced w.suffix.text := by
    cases w.suffix with
    | absent => rfl
    | blank blanks =>
      apply bracesAfter_of_neutral
      rw [Suffix.text, List.forall_mem_cons]
      exact ⟨rfl, fun u hu => (blanks.neutral u hu).1⟩
    | constraint before c after =>
      have hbefore : Balanced (':' :: before.1) := by
        apply bracesAfter_of_neutral
        rw [List.forall_mem_cons]
        exact ⟨rfl, fun u hu => (before.neutral u hu).1⟩
      have hafter : Balanced after.1 :=
        bracesAfter_of_neutral 0 fun u hu => (after.neutral u hu).1
      exact (hbefore.append c.balanced).append hafter
  have hfront : Balanced (w.before.1 ++ w.name.1 ++ w.after.1) :=
    bracesAfter_of_neutral 0 fun u hu => (w.neutral_front u hu).1
  exact hfront.append hsuffix

/-- What stands between the braces is written in one way only. -/
theorem ext_of_body {w w' : Written} (h : w.body = w'.body) : w = w' := by
  obtain ⟨hfront, hsuffix⟩ := Text.split_unique (fun u hu => (w.neutral_front u hu).2)
    w.suffix.isNotColon_head? (fun u hu => (w'.neutral_front u hu).2)
    w'.suffix.isNotColon_head? h
  obtain ⟨hbefore, hname, hafter⟩ := Text.around_unique w.before.2 w.name.trimmed w.after.2
    w'.before.2 w'.name.trimmed w'.after.2 w.name.ne_nil hfront
  exact Written.ext (Subtype.ext hbefore) (Subtype.ext hname) (Subtype.ext hafter)
    (Suffix.eq_of_text_eq hsuffix)

end Written

@[simp] theorem written_nil : written [] = [] := rfl

/-- The template written with an item and some others. -/
theorem written_cons (item : Item) (rest : List Item) :
    written (item :: rest) = item.text ++ written rest :=
  List.flatMap_cons

/-- The template that begins with a placeholder. -/
theorem written_placeholder (w : Written) (rest : List Item) :
    written (.placeholder w :: rest) = ('{' :: (w.body ++ ('}' :: written rest : Text)) : Text) := by
  simp [written_cons, Item.text]

/-- A literal at the front of a template may be counted to the literal text before it. -/
theorem append_written_literal (pending t : LiteralText) (rest : List Item) :
    pending.1 ++ written (.literal t :: rest) = (pending.append t).1 ++ written rest := by
  simp [written_cons, Item.text, LiteralText.append]

/-- The first placeholder of a text, and what stands around it, can be read in one way only. -/
theorem placeholder_unique {front front' : LiteralText} {w w' : Written} {back back' : Text}
    (h : front.1 ++ ('{' :: (w.body ++ ('}' :: back : Text)) : Text) =
      front'.1 ++ ('{' :: (w'.body ++ ('}' :: back' : Text)) : Text)) :
    front = front' ∧ w = w' ∧ back = back' := by
  have hbrace (t : Text) : ∀ u ∈ ('{' :: t : Text).head?, isLiteralUnit u = false := by
    intro u hu
    obtain rfl := Option.some.inj hu
    rfl
  obtain ⟨hfront, htail⟩ := Text.split_unique front.isLiteralUnit (hbrace _)
    front'.isLiteralUnit (hbrace _) h
  obtain ⟨hbody, hback⟩ := balanced_unique w.balanced_body w'.balanced_body (List.cons.inj htail).2
  exact ⟨Subtype.ext hfront, Written.ext_of_body hbody, hback⟩

/-- Items without an opening brace are literals, which are merged to one. -/
theorem mergeFrom_of_no_brace {pending : LiteralText} {items : List Item}
    (h : ('{' : CodeUnit) ∉ pending.1 ++ written items) :
    mergeFrom pending items = literalItem ⟨pending.1 ++ written items, h⟩ := by
  induction items generalizing pending with
  | nil => simp [mergeFrom]
  | cons item rest ih =>
    cases item with
    | literal t =>
      simp only [append_written_literal] at h ⊢
      exact ih h
    | placeholder w => simp [written_placeholder] at h

/-- Items that are written with the same text are the same up to merging. -/
theorem mergeFrom_eq_of_text_eq {pending pending' : LiteralText} {items items' : List Item}
    (h : pending.1 ++ written items = pending'.1 ++ written items') :
    mergeFrom pending items = mergeFrom pending' items' := by
  induction items generalizing pending pending' items' with
  | nil =>
    rw [written_nil, List.append_nil] at h
    have hbrace : ('{' : CodeUnit) ∉ pending'.1 ++ written items' := h ▸ pending.2
    rw [mergeFrom_of_no_brace hbrace, mergeFrom]
    congr 1
    exact Subtype.ext h
  | cons item rest ih =>
    cases item with
    | literal t => exact ih (by rw [← append_written_literal, h])
    | placeholder w =>
      -- The literals of the other items belong before their first placeholder.
      induction items' generalizing pending' with
      | nil =>
        have hbrace := pending'.2
        rw [written_nil, List.append_nil] at h
        rw [← h, written_placeholder] at hbrace
        simp at hbrace
      | cons item' rest' ih' =>
        cases item' with
        | literal t' => exact ih' (by rw [h, append_written_literal])
        | placeholder w' =>
          rw [written_placeholder, written_placeholder] at h
          obtain ⟨rfl, rfl, hrest⟩ := placeholder_unique h
          have hmerge : mergeFrom ⟨[], by simp⟩ rest = mergeFrom ⟨[], by simp⟩ rest' :=
            ih (by rw [hrest])
          rw [mergeFrom, mergeFrom, hmerge]

/-- A template is written in one way only, up to literals that stand next to each other. -/
theorem merge_eq_of_written_eq {items items' : List Item} (h : written items = written items') :
    merge items = merge items' :=
  mergeFrom_eq_of_text_eq (by rw [h])

end Template

end UriRouting
