import Mathlib.Tactic.SplitIfs
import UriRouting.Proofs.Regex.Lexing

/-!
# The groups that a text opens and closes

Which groups a pattern opens and closes can be told from its text alone, whatever else its lexemes
are and however `\k` is read: `Scan` goes over the text and keeps only backslashes, classes and
parentheses apart. `brackets_eq_scan` says that a pattern whose lexemes can be read opens and closes
exactly the groups that the scan finds, so two readings of one text agree on its groups.
-/

namespace UriRouting

open scoped CodeUnit

namespace Regex

/-- A lexeme that opens or closes a group. -/
inductive Bracket where
  | opens
  | captures
  | names
  | closes
  deriving DecidableEq

/-- What an opening parenthesis opens, seen as a bracket. -/
def Opening.bracket : Opening → Bracket
  | plain => .opens
  | capture none => .captures
  | capture (some _) => .names
  | look _ _ => .opens

/-- The bracket that a lexeme is, if it is one. -/
def Token.bracket? : Token → Option Bracket
  | openGroup opening => some opening.bracket
  | close => some .closes
  | _ => none

/-- The brackets among some lexemes. -/
def brackets (tokens : List Token) : List Bracket := tokens.filterMap Token.bracket?

/-- Where a scan for brackets stands: in plain text or in a class, each possibly behind a backslash,
or behind an opening parenthesis, with a question mark, and with an angle bracket. -/
inductive Scan where
  | plain
  | escaped
  | inClass
  | inClassEscaped
  | group
  | groupMark
  | groupAngle
  deriving DecidableEq

/-- Scan a unit in plain text. -/
def Scan.plainStep (u : CodeUnit) : List Bracket × Scan :=
  if u = '\\' then ([], .escaped)
  else if u = '(' then ([], .group)
  else if u = ')' then ([.closes], .plain)
  else if u = '[' then ([], .inClass)
  else ([], .plain)

/-- Put a bracket before what a step finds. -/
def Scan.after (b : Bracket) (step : List Bracket × Scan) : List Bracket × Scan :=
  (b :: step.1, step.2)

/-- Scan one unit. -/
def Scan.step : Scan → CodeUnit → List Bracket × Scan
  | plain, u => plainStep u
  | escaped, _ => ([], plain)
  | inClass, u =>
    if u = ']' then ([], plain) else if u = '\\' then ([], inClassEscaped) else ([], inClass)
  | inClassEscaped, _ => ([], inClass)
  | group, u => if u = '?' then ([], groupMark) else after .captures (plainStep u)
  | groupMark, u => if u = '<' then ([], groupAngle) else after .opens (plainStep u)
  | groupAngle, u =>
    after (if u = '=' ∨ u = '!' then .opens else .names) (plainStep u)

/-- The bracket that the end of a text completes. -/
def Scan.finish : Scan → List Bracket
  | group => [.captures]
  | groupMark => [.opens]
  | groupAngle => [.names]
  | _ => []

/-- The brackets of a text scanned from a state on, and the state behind the text. -/
def Scan.run : Scan → Text → List Bracket × Scan
  | state, [] => ([], state)
  | state, u :: rest =>
    let (out, next) := state.step u
    let (more, last) := run next rest
    (out ++ more, last)

/-- The brackets of a text scanned from a state to its end. -/
def Scan.brackets (state : Scan) (t : Text) : List Bracket :=
  (state.run t).1 ++ (state.run t).2.finish

namespace Scan

@[simp] theorem run_nil (state : Scan) : state.run [] = ([], state) := rfl

@[simp] theorem run_cons (state : Scan) (u : CodeUnit) (rest : Text) :
    state.run (u :: rest) =
      ((state.step u).1 ++ ((state.step u).2.run rest).1, ((state.step u).2.run rest).2) := rfl

/-- Scanning two texts one after the other scans the second from the state behind the first. -/
theorem run_append (state : Scan) (s t : Text) :
    state.run (s ++ t) =
      ((state.run s).1 ++ ((state.run s).2.run t).1, ((state.run s).2.run t).2) := by
  induction s generalizing state with
  | nil => rfl
  | cons u rest ih => simp [ih]

/-- The brackets of a text scanned from a state are those of its first unit and of the rest. -/
theorem brackets_cons (state : Scan) (u : CodeUnit) (rest : Text) :
    state.brackets (u :: rest) = (state.step u).1 ++ (state.step u).2.brackets rest := by
  simp [brackets]

/-- The brackets of two texts one after the other. -/
theorem brackets_append (state : Scan) (s t : Text) :
    state.brackets (s ++ t) = (state.run s).1 ++ (state.run s).2.brackets t := by
  simp [brackets, run_append]

/-- A unit that is no backslash, parenthesis or opening square bracket is passed over. -/
theorem plainStep_of_ordinary {u : CodeUnit}
    (h : u ≠ '\\' ∧ u ≠ '(' ∧ u ≠ ')' ∧ u ≠ '[') : plainStep u = ([], plain) := by
  simp [plainStep, h]

/-- A unit of a class that holds none of the four is passed over. -/
theorem plainStep_of_class {p : CodeUnit → Bool} {u : CodeUnit} (h : p u = true)
    (hp : p '\\' = false ∧ p '(' = false ∧ p ')' = false ∧ p '[' = false) :
    plainStep u = ([], plain) := by
  apply plainStep_of_ordinary
  refine ⟨?_, ?_, ?_, ?_⟩ <;> intro hu <;> simp_all

end Scan

/-- The state of the scan inside a name. -/
def NameState.scan : NameState → Scan
  | backslash => .escaped
  | escapedHalfBackslash _ => .escaped
  | _ => .plain

/-- The state of the scan where the lexer stands. -/
def LexState.scan : LexState → Scan
  | backslash => .escaped
  | name _ _ state => state.scan
  | group => .group
  | groupMark => .groupMark
  | groupAngle => .groupAngle
  | inClass _ => .inClass
  | inClassBackslash _ => .inClassEscaped
  | _ => .plain

/-- The bracket that the scan has found and the lexer still reads the name of. -/
def LexState.pending : LexState → List Bracket
  | name .capture _ _ => [.names]
  | _ => []

/-- Whether a state can still lead to lexemes: a name may only hold characters of identifiers. -/
def LexState.Viable : LexState → Prop
  | name _ read _ => ∀ c ∈ read, Identifier.isContinue c = true
  | _ => True

/-- The characters of an identifier may all stand in its continuation. -/
theorem isContinue_of_identifier {cs name : List Char} (h : identifier? cs = some name) :
    ∀ c ∈ cs, Identifier.isContinue c = true := by
  cases cs with
  | nil => simp [identifier?] at h
  | cons first rest =>
    rw [identifier?] at h
    split at h
    · next hid =>
      simp only [Bool.and_eq_true, List.all_eq_true] at hid
      intro c hc
      obtain rfl | hc := List.mem_cons.1 hc
      · simp [Identifier.isContinue, hid.1]
      · exact hid.2 c hc
    · simp at h

/-- A name that can still be finished could be finished one unit earlier. -/
theorem lexName_viable {use : NameUse} {read : List Char} {state : NameState} {u : CodeUnit}
    {out : List Token} {next : LexState} (h : lexName use read state u = some (out, next))
    (hnext : next.Viable) : (LexState.name use read state).Viable := by
  rw [lexName] at h
  split at h
  · simp at h
  · obtain ⟨rfl, rfl⟩ : [] = out ∧ _ = next := by simpa using h
    exact hnext
  · split at h
    · obtain ⟨name, hid, -⟩ := Option.map_eq_some_iff.1 h
      intro c hc
      exact isContinue_of_identifier hid c (List.mem_reverse.2 hc)
    · obtain ⟨rfl, rfl⟩ : [] = out ∧ _ = next := by simpa using h
      intro c hc
      exact hnext c (List.mem_cons_of_mem _ hc)

/-- A state that leads to a viable one is viable. -/
theorem lexStep_viable {named : Bool} {state : LexState} {u : CodeUnit} {out : List Token}
    {next : LexState} (h : lexStep named state u = some (out, next)) (hnext : next.Viable) :
    state.Viable := by
  cases state with
  | name use read state => exact lexName_viable h hnext
  | _ => trivial

/-- A state from which a text leads to a viable one is viable. -/
theorem lexRun_viable {named : Bool} {state last : LexState} {s : Text} {out : List Token}
    (h : lexRun named state s = some (out, last)) (hlast : last.Viable) : state.Viable := by
  induction s generalizing state out with
  | nil =>
    obtain ⟨-, rfl⟩ : _ ∧ state = last := by simpa [lexRun] using h
    exact hlast
  | cons u rest ih =>
    rw [lexRun] at h
    split at h
    · simp at h
    · next out next hstep =>
      obtain ⟨⟨more, last'⟩, run, heq⟩ := Option.map_eq_some_iff.1 h
      obtain ⟨-, rfl⟩ : _ ∧ last' = last := by simpa using heq
      exact lexStep_viable hstep (ih run)

/-- A state from which a text can be read to its end is viable. -/
theorem viable_of_lexFrom {named : Bool} {state : LexState} {t : Text} {tokens : List Token}
    (h : lexFrom named state t = some tokens) : state.Viable := by
  rw [lexFrom_eq_lexRun] at h
  obtain ⟨⟨out, last⟩, run, hend⟩ := Option.bind_eq_some_iff.1 h
  apply lexRun_viable run
  cases last <;> simp_all [LexState.Viable, lexEnd]

/-- Between the characters of a name the scan passes over a unit as the name's reader does. -/
theorem nameStep_plain_scan {next : NameState} {u : CodeUnit} {c : Option Char}
    (h : nameStep .plain u = some (c, next))
    (hc : ∀ x ∈ c, x = '>' ∨ Identifier.isContinue x = true) :
    Scan.plain.step u = ([], next.scan) := by
  rw [nameStep] at h
  split at h
  · next hu =>
    obtain ⟨-, rfl⟩ : _ ∧ NameState.backslash = next := by simpa using h
    subst hu
    rfl
  · split at h
    · next hu =>
      obtain ⟨-, rfl⟩ : _ ∧ NameState.half u = next := by simpa using h
      exact Scan.plainStep_of_class hu (by decide)
    · next hu _ =>
      obtain ⟨x, hx, heq⟩ := Option.map_eq_some_iff.1 h
      obtain ⟨rfl, rfl⟩ : some x = c ∧ NameState.plain = next := by simpa using heq
      -- neither a parenthesis nor a square bracket continues an identifier
      refine Scan.plainStep_of_ordinary ⟨hu, ?_, ?_, ?_⟩ <;> intro hunit <;> subst hunit <;>
        (obtain rfl := Option.some.inj hx; exact absurd (hc _ rfl) (by decide))

/-- Behind the letter of an escape in a name the scan is back in plain text. -/
theorem nameStep_escape_scan {next : NameState} {u : CodeUnit} {c : Option Char}
    (h : nameStep .escape u = some (c, next)) : Scan.plain.step u = ([], next.scan) := by
  rw [nameStep] at h
  split at h
  · next hu =>
    obtain ⟨-, rfl⟩ : _ ∧ NameState.braces [] = next := by simpa using h
    subst hu
    rfl
  · split at h
    · next hu =>
      obtain ⟨-, rfl⟩ : _ ∧ NameState.digits none [u] = next := by simpa using h
      exact Scan.plainStep_of_class hu (by decide)
    · simp at h

/-- The scan passes over the digits between the braces of an escape in a name. -/
theorem nameStep_braces_scan {digits : List CodeUnit} {next : NameState} {u : CodeUnit}
    {c : Option Char} (h : nameStep (.braces digits) u = some (c, next)) :
    Scan.plain.step u = ([], next.scan) := by
  rw [nameStep] at h
  split at h
  · next hu =>
    obtain ⟨-, rfl⟩ : _ ∧ NameState.braces (digits ++ [u]) = next := by simpa using h
    exact Scan.plainStep_of_class hu (by decide)
  · split at h
    · next hu =>
      obtain ⟨x, -, heq⟩ := Option.map_eq_some_iff.1 h
      obtain ⟨-, rfl⟩ : _ ∧ NameState.plain = next := by simpa using heq
      rw [hu.1]
      rfl
    · simp at h

/-- The digits of an escape in a name end in plain text. -/
theorem endDigits_scan {high : Option CodeUnit} {digits : Text} {next : NameState}
    {c : Option Char} (h : endDigits high digits = some (c, next)) : next.scan = .plain := by
  cases high with
  | some high =>
    simp only [endDigits] at h
    split at h
    · obtain ⟨-, rfl⟩ : _ ∧ NameState.plain = next := by simpa using h
      rfl
    · simp at h
  | none =>
    simp only [endDigits] at h
    split at h
    · obtain ⟨-, rfl⟩ : _ ∧ NameState.escapedHalf _ = next := by simpa using h
      rfl
    · obtain ⟨x, -, heq⟩ := Option.map_eq_some_iff.1 h
      obtain ⟨-, rfl⟩ : _ ∧ NameState.plain = next := by simpa using heq
      rfl

/-- The scan passes over the digits of an escape in a name. -/
theorem nameStep_digits_scan {high : Option CodeUnit} {digits : List CodeUnit} {next : NameState}
    {u : CodeUnit} {c : Option Char} (h : nameStep (.digits high digits) u = some (c, next)) :
    Scan.plain.step u = ([], next.scan) := by
  rw [nameStep] at h
  split at h
  · next hu =>
    have hscan : next.scan = .plain := by
      split at h
      · exact endDigits_scan h
      · obtain ⟨-, rfl⟩ : _ ∧ NameState.digits high (digits ++ [u]) = next := by simpa using h
        rfl
    rw [hscan]
    exact Scan.plainStep_of_class hu (by decide)
  · simp at h

/-- The scan passes over a unit of a name as the name's reader goes on. -/
theorem nameStep_scan {state next : NameState} {u : CodeUnit} {c : Option Char}
    (h : nameStep state u = some (c, next))
    (hc : ∀ x ∈ c, x = '>' ∨ Identifier.isContinue x = true) :
    state.scan.step u = ([], next.scan) := by
  cases state with
  | plain => exact nameStep_plain_scan h hc
  | half high =>
    rw [nameStep] at h
    split at h
    · next hu =>
      obtain ⟨-, rfl⟩ : _ ∧ NameState.plain = next := by simpa using h
      exact Scan.plainStep_of_class hu (by decide)
    · simp at h
  | backslash =>
    rw [nameStep] at h
    split at h
    · obtain ⟨-, rfl⟩ : _ ∧ NameState.escape = next := by simpa using h
      rfl
    · simp at h
  | escape => exact nameStep_escape_scan h
  | braces digits => exact nameStep_braces_scan h
  | digits high digits => exact nameStep_digits_scan h
  | escapedHalf high =>
    rw [nameStep] at h
    split at h
    · next hu =>
      obtain ⟨-, rfl⟩ : _ ∧ NameState.escapedHalfBackslash high = next := by simpa using h
      subst hu
      rfl
    · simp at h
  | escapedHalfBackslash high =>
    rw [nameStep] at h
    split at h
    · obtain ⟨-, rfl⟩ : _ ∧ NameState.digits (some high) [] = next := by simpa using h
      rfl
    · simp at h

/-- A unit that completes a character leaves no escape open. -/
theorem nameStep_completes {state next : NameState} {u : CodeUnit} {c : Char}
    (h : nameStep state u = some (some c, next)) : next = .plain := by
  cases state <;> simp only [nameStep, endDigits] at h <;> grind [Option.map_eq_some_iff]

/-- Inside a name the scan goes on as the lexer does; the name's bracket comes with its end. -/
theorem lexName_scan {use : NameUse} {read : List Char} {state : NameState} {u : CodeUnit}
    {out : List Token} {next : LexState} (h : lexName use read state u = some (out, next))
    (hnext : next.Viable) :
    state.scan.step u = ([], next.scan) ∧
      (LexState.name use read state).pending = brackets out ++ next.pending := by
  rw [lexName] at h
  split at h
  · simp at h
  · next state' hstep =>
    obtain ⟨rfl, rfl⟩ : [] = out ∧ _ = next := by simpa using h
    exact ⟨nameStep_scan hstep (by simp), by cases use <;> rfl⟩
  · next c state' hstep =>
    split at h
    · next hc =>
      obtain ⟨name, -, heq⟩ := Option.map_eq_some_iff.1 h
      obtain ⟨rfl, rfl⟩ : [nameToken use name] = out ∧ LexState.plain = next := by simpa using heq
      constructor
      · rw [nameStep_scan hstep (by simpa using Or.inl hc), nameStep_completes hstep]
        rfl
      · cases use <;> rfl
    · obtain ⟨rfl, rfl⟩ : [] = out ∧ _ = next := by simpa using h
      have hcontinue : Identifier.isContinue c = true := hnext c List.mem_cons_self
      exact ⟨nameStep_scan hstep (by simpa using Or.inr hcontinue), by cases use <;> rfl⟩

/-- Brackets of lexemes put together. -/
theorem brackets_append (a b : List Token) : brackets (a ++ b) = brackets a ++ brackets b :=
  List.filterMap_append

/-- Units that stand for themselves open and close nothing. -/
theorem brackets_units (t : Text) : brackets (units t) = [] := by
  induction t with
  | nil => rfl
  | cons u rest ih => exact ih

/-- Where a lexeme begins, the scan takes a unit as the lexer does. -/
theorem plainStep_scan (u : CodeUnit) :
    Scan.plainStep u = (brackets (plainStep u).1, (plainStep u).2.scan) ∧
      (plainStep u).2.pending = [] := by
  by_cases hbackslash : u = '\\'
  · subst hbackslash
    exact ⟨rfl, rfl⟩
  by_cases hopen : u = '('
  · subst hopen
    exact ⟨rfl, rfl⟩
  by_cases hclose : u = ')'
  · subst hclose
    exact ⟨rfl, rfl⟩
  by_cases hclass : u = '['
  · subst hclass
    exact ⟨rfl, rfl⟩
  rw [Scan.plainStep_of_ordinary ⟨hbackslash, hopen, hclose, hclass⟩, plainStep, if_neg hbackslash,
    if_neg hopen, if_neg hclose]
  split_ifs <;> exact ⟨rfl, rfl⟩

/-- The same behind lexemes that end before the unit. -/
theorem flush_scan {before : List Token} {u : CodeUnit} {out : List Token} {next : LexState}
    (h : flush before u = some (out, next)) :
    (Scan.plainStep u).2 = next.scan ∧
      brackets before ++ (Scan.plainStep u).1 = brackets out ++ next.pending := by
  obtain ⟨rfl, rfl⟩ : before ++ (plainStep u).1 = out ∧ (plainStep u).2 = next := by
    simpa [flush] using h
  obtain ⟨hscan, hpending⟩ := plainStep_scan u
  rw [hscan, hpending, brackets_append, List.append_nil]
  exact ⟨rfl, rfl⟩

/-- Behind a backslash no unit opens or closes anything. -/
theorem backslashStep_scan (named : Bool) (u : CodeUnit) :
    (backslashStep named u).2.scan = .plain ∧ (backslashStep named u).2.pending = [] ∧
      brackets (backslashStep named u).1 = [] := by
  unfold backslashStep
  split
  · exact ⟨rfl, rfl, rfl⟩
  · split_ifs <;> exact ⟨rfl, rfl, rfl⟩

/-- A step of the lexer that the scan takes as well: it ends where the step ends and finds the
brackets of the step's lexemes, a name's bracket where the name begins. -/
def LexState.Scanned (state : LexState) (u : CodeUnit) (out : List Token) (next : LexState) :
    Prop :=
  (state.scan.step u).2 = next.scan ∧
    state.pending ++ (state.scan.step u).1 = brackets out ++ next.pending

/-- A step in plain text over an ordinary unit that finds no bracket and stays in plain text. -/
theorem scanned_of_ordinary {state : LexState} {u : CodeUnit} {out : List Token} {next : LexState}
    (hstate : state.scan = .plain ∧ state.pending = []) (hu : Scan.plainStep u = ([], .plain))
    (hout : brackets out = []) (hnext : next.scan = .plain ∧ next.pending = []) :
    state.Scanned u out next := by
  rw [LexState.Scanned, hstate.1, hstate.2, hnext.1, hnext.2, hout, Scan.step, hu]
  exact ⟨rfl, rfl⟩

/-- A step in plain text that ends lexemes without brackets before the unit. -/
theorem scanned_of_flush {state : LexState} {before : List Token} {u : CodeUnit}
    {out : List Token} {next : LexState} (hstate : state.scan = .plain ∧ state.pending = [])
    (hbefore : brackets before = []) (h : flush before u = some (out, next)) :
    state.Scanned u out next := by
  have hflush := flush_scan h
  rw [hbefore] at hflush
  rw [LexState.Scanned, hstate.1, hstate.2]
  exact hflush

/-- The scan goes over the unit behind a control escape as the lexer does. -/
theorem lexStep_control_scanned {named : Bool} {u : CodeUnit} {out : List Token} {next : LexState}
    (h : lexStep named .control u = some (out, next)) : LexState.control.Scanned u out next := by
  rw [lexStep] at h
  split at h
  · next hu =>
    obtain ⟨rfl, rfl⟩ : [.unit (controlUnit u)] = out ∧ .plain = next := by simpa using h
    exact scanned_of_ordinary ⟨rfl, rfl⟩ (Scan.plainStep_of_class hu (by decide)) rfl ⟨rfl, rfl⟩
  · exact scanned_of_flush ⟨rfl, rfl⟩ rfl h

/-- The scan goes over the hexadecimal digits of an escape as the lexer does. -/
theorem lexStep_hex_scanned {named : Bool} {letter : CodeUnit} {wanted : Nat} {digits : Text}
    {u : CodeUnit} {out : List Token} {next : LexState}
    (h : lexStep named (.hex letter wanted digits) u = some (out, next)) :
    (LexState.hex letter wanted digits).Scanned u out next := by
  rw [lexStep] at h
  split at h
  · next hu =>
    have hplain : Scan.plainStep u = ([], .plain) := Scan.plainStep_of_class hu (by decide)
    split at h
    · obtain ⟨rfl, rfl⟩ : [_] = out ∧ .plain = next := by simpa using h
      exact scanned_of_ordinary ⟨rfl, rfl⟩ hplain rfl ⟨rfl, rfl⟩
    · obtain ⟨rfl, rfl⟩ : [] = out ∧ LexState.hex letter wanted (u :: digits) = next := by
        simpa using h
      exact scanned_of_ordinary ⟨rfl, rfl⟩ hplain rfl ⟨rfl, rfl⟩
  · exact scanned_of_flush ⟨rfl, rfl⟩ (brackets_units _) h

/-- The scan goes over the digits of a numbered reference as the lexer does. -/
theorem lexStep_decimal_scanned {named : Bool} {digits : Text} {u : CodeUnit} {out : List Token}
    {next : LexState} (h : lexStep named (.decimal digits) u = some (out, next)) :
    (LexState.decimal digits).Scanned u out next := by
  rw [lexStep] at h
  split at h
  · next hu =>
    obtain ⟨rfl, rfl⟩ : [] = out ∧ LexState.decimal (u :: digits) = next := by simpa using h
    exact scanned_of_ordinary ⟨rfl, rfl⟩ (Scan.plainStep_of_class hu (by decide)) rfl ⟨rfl, rfl⟩
  · exact scanned_of_flush ⟨rfl, rfl⟩ rfl h

/-- The scan goes over the unit behind an opening parenthesis as the lexer does. -/
theorem lexStep_group_scanned {named : Bool} {u : CodeUnit} {out : List Token} {next : LexState}
    (h : lexStep named .group u = some (out, next)) : LexState.group.Scanned u out next := by
  rw [lexStep] at h
  split at h
  · next hu =>
    obtain ⟨rfl, rfl⟩ : [] = out ∧ LexState.groupMark = next := by simpa using h
    subst hu
    exact ⟨rfl, rfl⟩
  · next hu =>
    rw [LexState.Scanned,
      show LexState.group.scan.step u = Scan.after .captures (Scan.plainStep u) from if_neg hu]
    exact flush_scan h

/-- The scan goes over the unit behind a parenthesis and a question mark as the lexer does. -/
theorem lexStep_groupMark_scanned {named : Bool} {u : CodeUnit} {out : List Token}
    {next : LexState} (h : lexStep named .groupMark u = some (out, next)) :
    LexState.groupMark.Scanned u out next := by
  rw [lexStep] at h
  split_ifs at h with hcolon hequals hbang hangle
  · obtain ⟨rfl, rfl⟩ : [_] = out ∧ .plain = next := by simpa using h
    subst hcolon
    exact ⟨rfl, rfl⟩
  · obtain ⟨rfl, rfl⟩ : [_] = out ∧ .plain = next := by simpa using h
    subst hequals
    exact ⟨rfl, rfl⟩
  · obtain ⟨rfl, rfl⟩ : [_] = out ∧ .plain = next := by simpa using h
    subst hbang
    exact ⟨rfl, rfl⟩
  · obtain ⟨rfl, rfl⟩ : [] = out ∧ LexState.groupAngle = next := by simpa using h
    subst hangle
    exact ⟨rfl, rfl⟩

/-- The scan goes over the unit that tells a lookbehind from a named group as the lexer does. -/
theorem lexStep_groupAngle_scanned {named : Bool} {u : CodeUnit} {out : List Token}
    {next : LexState} (h : lexStep named .groupAngle u = some (out, next)) (hnext : next.Viable) :
    LexState.groupAngle.Scanned u out next := by
  rw [lexStep] at h
  split_ifs at h with hequals hbang
  · obtain ⟨rfl, rfl⟩ : [_] = out ∧ .plain = next := by simpa using h
    subst hequals
    exact ⟨rfl, rfl⟩
  · obtain ⟨rfl, rfl⟩ : [_] = out ∧ .plain = next := by simpa using h
    subst hbang
    exact ⟨rfl, rfl⟩
  · obtain ⟨hstep, hpending⟩ := lexName_scan h hnext
    have hangle : LexState.groupAngle.scan.step u = Scan.after .names (Scan.plainStep u) := by
      simp [LexState.scan, Scan.step, hequals, hbang]
    rw [LexState.Scanned, hangle, show Scan.plainStep u = ([], next.scan) from hstep, ← hpending]
    exact ⟨rfl, rfl⟩

/-- The scan goes over what stands between braces as the lexer does. -/
theorem lexStep_braces_scanned {named : Bool} {written : Text} {u : CodeUnit} {out : List Token}
    {next : LexState} (h : lexStep named (.braces written) u = some (out, next)) :
    (LexState.braces written).Scanned u out next := by
  rw [lexStep] at h
  split at h
  · next hu =>
    obtain ⟨rfl, rfl⟩ : [] = out ∧ LexState.braces (u :: written) = next := by simpa using h
    have hplain : Scan.plainStep u = ([], .plain) := by
      rcases hu with hu | rfl
      · exact Scan.plainStep_of_class hu (by decide)
      · rfl
    exact scanned_of_ordinary ⟨rfl, rfl⟩ hplain rfl ⟨rfl, rfl⟩
  · split at h
    · next hu =>
      split at h
      · next min max _ =>
        obtain ⟨rfl, rfl⟩ : [] = out ∧ LexState.quantified min max = next := by simpa using h
        subst hu
        exact ⟨rfl, rfl⟩
      · exact scanned_of_flush ⟨rfl, rfl⟩ (brackets_units _) h
    · exact scanned_of_flush ⟨rfl, rfl⟩ (brackets_units _) h

/-- The scan goes over the units of a class as the lexer does. -/
theorem lexStep_inClass_scanned {named : Bool} {body : Text} {u : CodeUnit} {out : List Token}
    {next : LexState} (h : lexStep named (.inClass body) u = some (out, next)) :
    (LexState.inClass body).Scanned u out next := by
  rw [lexStep] at h
  split_ifs at h with hclose hbackslash
  · obtain ⟨s, -, heq⟩ := Option.map_eq_some_iff.1 h
    obtain ⟨rfl, rfl⟩ : [.set s] = out ∧ .plain = next := by simpa using heq
    subst hclose
    exact ⟨rfl, rfl⟩
  · obtain ⟨rfl, rfl⟩ : [] = out ∧ LexState.inClassBackslash (u :: body) = next := by
      simpa using h
    subst hbackslash
    exact ⟨rfl, rfl⟩
  · obtain ⟨rfl, rfl⟩ : [] = out ∧ LexState.inClass (u :: body) = next := by simpa using h
    simp [LexState.Scanned, LexState.scan, Scan.step, hclose, hbackslash, brackets,
      LexState.pending]

/-- The scan goes over a unit as the lexer does: it finds the bracket of the same lexeme, and a
name's bracket where the name begins. -/
theorem lexStep_scanned {named : Bool} {state : LexState} {u : CodeUnit} {out : List Token}
    {next : LexState} (h : lexStep named state u = some (out, next)) (hnext : next.Viable) :
    state.Scanned u out next := by
  cases state with
  | plain => exact flush_scan h
  | backslash =>
    obtain ⟨rfl, rfl⟩ : (backslashStep named u).1 = out ∧ (backslashStep named u).2 = next := by
      simpa [lexStep, Prod.ext_iff] using h
    obtain ⟨hscan, hpending, hbrackets⟩ := backslashStep_scan named u
    rw [LexState.Scanned, hscan, hpending, hbrackets]
    exact ⟨rfl, rfl⟩
  | control => exact lexStep_control_scanned h
  | hex letter wanted digits => exact lexStep_hex_scanned h
  | decimal digits => exact lexStep_decimal_scanned h
  | reference =>
    rw [lexStep] at h
    split at h
    · next hu =>
      obtain ⟨rfl, rfl⟩ : [] = out ∧ LexState.name .reference [] .plain = next := by simpa using h
      subst hu
      exact ⟨rfl, rfl⟩
    · simp at h
  | name use read state =>
    obtain ⟨hstep, hpending⟩ := lexName_scan h hnext
    rw [LexState.Scanned, hpending, show (LexState.name use read state).scan = state.scan from rfl,
      hstep]
    exact ⟨rfl, List.append_nil _⟩
  | group => exact lexStep_group_scanned h
  | groupMark => exact lexStep_groupMark_scanned h
  | groupAngle => exact lexStep_groupAngle_scanned h hnext
  | braces written => exact lexStep_braces_scanned h
  | quantified min max =>
    rw [lexStep] at h
    split at h
    · next hu =>
      obtain ⟨rfl, rfl⟩ : [_] = out ∧ .plain = next := by simpa using h
      subst hu
      exact ⟨rfl, rfl⟩
    · exact scanned_of_flush ⟨rfl, rfl⟩ rfl h
  | inClass body => exact lexStep_inClass_scanned h
  | inClassBackslash body =>
    obtain ⟨rfl, rfl⟩ : [] = out ∧ LexState.inClass (u :: body) = next := by
      simpa [lexStep] using h
    exact ⟨rfl, rfl⟩

/-- The scan of a text ends where the lexer does and finds the brackets of its lexemes. -/
theorem lexRun_scan {named : Bool} {state last : LexState} {s : Text} {out : List Token}
    (h : lexRun named state s = some (out, last)) (hlast : last.Viable) :
    (state.scan.run s).2 = last.scan ∧
      state.pending ++ (state.scan.run s).1 = brackets out ++ last.pending := by
  induction s generalizing state out with
  | nil =>
    obtain ⟨rfl, rfl⟩ : [] = out ∧ state = last := by simpa [lexRun] using h
    simp [brackets]
  | cons u rest ih =>
    rw [lexRun] at h
    split at h
    · simp at h
    · next first next hstep =>
      obtain ⟨⟨more, last'⟩, run, heq⟩ := Option.map_eq_some_iff.1 h
      obtain ⟨rfl, rfl⟩ : first ++ more = out ∧ last' = last := by simpa using heq
      obtain ⟨hscan, hbrackets⟩ := lexStep_scanned hstep (lexRun_viable run hlast)
      obtain ⟨ihscan, ihbrackets⟩ := ih run
      rw [Scan.run_cons, hscan]
      refine ⟨ihscan, ?_⟩
      rw [brackets_append, List.append_assoc, ← ihbrackets, ← List.append_assoc,
        ← List.append_assoc, hbrackets]

/-- What the end of a text completes opens just what the scan finds there. -/
theorem lexEnd_scan {state : LexState} {out : List Token} (h : lexEnd state = some out) :
    brackets out = state.scan.finish ∧ state.pending = [] ∧ state.Viable := by
  cases state with
  | hex letter wanted digits =>
    obtain rfl : units (letter :: digits.reverse) = out := by simpa [lexEnd] using h
    exact ⟨brackets_units _, rfl, trivial⟩
  | braces written =>
    obtain rfl : units ('{' :: written.reverse) = out := by simpa [lexEnd] using h
    exact ⟨brackets_units _, rfl, trivial⟩
  | _ =>
    simp only [lexEnd, reduceCtorEq, Option.some.injEq] at h
    try exact h ▸ ⟨rfl, rfl, trivial⟩

/-- A pattern whose lexemes can be read opens and closes the groups that its text shows, however
`\k` is read. -/
theorem brackets_eq_scan {named : Bool} {state : LexState} {t : Text} {tokens : List Token}
    (h : lexFrom named state t = some tokens) :
    brackets tokens = state.pending ++ state.scan.brackets t := by
  rw [lexFrom_eq_lexRun] at h
  obtain ⟨⟨out, last⟩, run, hend⟩ := Option.bind_eq_some_iff.1 h
  obtain ⟨more, hmore, rfl⟩ := Option.map_eq_some_iff.1 hend
  obtain ⟨hfinish, hpending, hviable⟩ := lexEnd_scan hmore
  obtain ⟨hscan, hbrackets⟩ := lexRun_scan run hviable
  rw [brackets_append, hfinish, Scan.brackets, hscan, ← List.append_assoc, hbrackets, hpending,
    List.append_nil]

/-- No lexemes follow a name that holds a closing parenthesis. -/
theorem lexFrom_name_close (named : Bool) (use : NameUse) (read : List Char) (state : NameState)
    (rest : Text) : lexFrom named (.name use (')' :: read) state) rest = none := by
  cases h : lexFrom named (.name use (')' :: read) state) rest with
  | none => rfl
  | some tokens => exact absurd (viable_of_lexFrom h ')' List.mem_cons_self) (by decide)

/-- Where plain text can go on with a closing parenthesis, the pattern could end as well. -/
theorem exists_lexEnd_of_close {named : Bool} {state : LexState} {rest : Text}
    {tokens : List Token} (hscan : state.scan = .plain)
    (h : lexFrom named state (')' :: rest) = some tokens) : ∃ out, lexEnd state = some out := by
  rw [lexFrom] at h
  cases state with
  | reference =>
    have hstep : lexStep named .reference ')' = none := rfl
    simp [hstep] at h
  | name use read state =>
    have hstep : lexStep named (.name use read state) ')' = none ∨
        lexStep named (.name use read state) ')' = some ([], .name use (')' :: read) .plain) := by
      cases state <;> first | exact .inl rfl | exact .inr rfl
    rcases hstep with hstep | hstep <;> simp [hstep, lexFrom_name_close] at h
  | backslash => cases hscan
  | group => cases hscan
  | groupMark => cases hscan
  | groupAngle => cases hscan
  | inClass body => cases hscan
  | inClassBackslash body => cases hscan
  | _ => exact ⟨_, rfl⟩

end Regex

end UriRouting
