import UriRouting.Template.Basic

/-!
# Generating texts from templates

`generate` fills in values by name; a placeholder without a value becomes empty. `generateFrom`
takes the values from a range of a list: each distinct name takes the next value when it is first
met, and a name for which no value is left becomes empty. A missing value in the list is used up
without being bound, so the name asks again at its next occurrence.
-/

namespace UriRouting

namespace Template

/-- The value of a name, or the empty text. -/
def valueOrEmpty (values : Entries Text (Option Text)) (name : Text) : Text :=
  ((values.get? name).join).getD []

/-- Fill in values by name. -/
def generate (t : Template) (values : Entries Text (Option Text)) : Text :=
  Id.run (substitute (fun name => pure (valueOrEmpty values name)) t.normalized)

/-- The values that names have taken, and those that are left. -/
structure Supply where
  assigned : Entries Text Text
  remaining : List (Option Text)

/-- The value of a name, which takes the next one of the list if it has none yet. -/
def Supply.take (name : Text) : StateM Supply Text := fun s =>
  match s.assigned.get? name with
  | some text => (text, s)
  | none =>
    match s.remaining with
    | [] => ([], s)
    | none :: rest => ([], { s with remaining := rest })
    | some text :: rest => (text, ⟨s.assigned.insert name text, rest⟩)

/-- Fill in values from a list. -/
def generateList (t : Template) (values : List (Option Text)) : Text :=
  ((substitute Supply.take t.normalized).run ⟨[], values⟩).1

/-- The first position and the length of a range of a list, if the two numbers name one. -/
def rangeOf? (offset length : Number) (size : Nat) : Option (Nat × Nat) :=
  match offset.toNat?, length.toNat? with
  | some first, some count => if first + count ≤ size then some (first, count) else none
  | _, _ => none

/-- Fill in values from the range of a list that begins at an offset; without a length it reaches to
the end of the list. -/
def generateFrom (t : Template) (values : List (Option Text)) (offset : Number)
    (length : Option Number) : Except Error Text :=
  let count := length.getD ((Number.ofInt values.length).add offset.neg)
  match rangeOf? offset count values.length with
  | some (first, count) => .ok (t.generateList ((values.drop first).take count))
  | none => .error (.rangeOutside offset (offset.add count) values.length)

end Template

end UriRouting
