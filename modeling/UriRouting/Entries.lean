/-!
# Ordered entries

An ordered map is a list of names with their values, with distinct names in insertion order. Writing
a name again keeps its place and replaces its value: `get?_insert` and `names_insert` say what
becomes of the values and of the names.
-/

namespace UriRouting

/-- Names with their values, in insertion order. -/
abbrev Entries (κ α : Type) := List (κ × α)

namespace Entries

variable {κ α : Type} [DecidableEq κ]

/-- Write a value under a name: in the name's place, or at the end if the name is new. -/
def insert (name : κ) (value : α) : Entries κ α → Entries κ α
  | [] => [(name, value)]
  | (key, old) :: rest =>
    if key = name then (key, value) :: rest else (key, old) :: insert name value rest

/-- The value under a name. -/
def get? (name : κ) : Entries κ α → Option α
  | [] => none
  | (key, value) :: rest => if key = name then some value else get? name rest

/-- The names in insertion order. -/
def names (entries : Entries κ α) : List κ := entries.map Prod.fst

/-- Write pairs one after the other; a later pair of the same name wins. -/
def ofPairs (pairs : List (κ × α)) : Entries κ α :=
  pairs.foldl (fun entries pair => insert pair.1 pair.2 entries) []

/-- A written value is found under its name, and nothing else changes. -/
theorem get?_insert (name key : κ) (value : α) (entries : Entries κ α) :
    get? key (insert name value entries) =
      if key = name then some value else get? key entries := by
  induction entries with
  | nil => simp only [insert, get?, eq_comm]
  | cons entry rest ih =>
    obtain ⟨first, old⟩ := entry
    by_cases h : first = name
    · subst h
      by_cases h' : first = key
      · simp [insert, get?, h']
      · simp [insert, get?, h', Ne.symm h']
    · by_cases h' : first = key
      · subst h'
        simp [insert, get?, h]
      · simp [insert, get?, h, h', ih]

/-- Writing adds the name at the end unless it is there. -/
theorem names_insert (name : κ) (value : α) (entries : Entries κ α) :
    names (insert name value entries) =
      if name ∈ names entries then names entries else names entries ++ [name] := by
  induction entries with
  | nil => rfl
  | cons entry rest ih =>
    obtain ⟨first, old⟩ := entry
    have cons_names (v : α) (l : Entries κ α) : names ((first, v) :: l) = first :: names l := rfl
    by_cases h : first = name
    · subst h
      simp [insert, cons_names]
    · have : insert name value ((first, old) :: rest) = (first, old) :: insert name value rest :=
        if_neg h
      rw [this, cons_names, cons_names, ih]
      by_cases h' : name ∈ names rest
      · simp [h']
      · simp [h', Ne.symm h]

end Entries

end UriRouting
