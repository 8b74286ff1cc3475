import UriRouting.Entries
import Mathlib.Data.List.Induction
import Mathlib.Data.List.Nodup

/-!
# Names in order of first occurrence

`List.eraseDups` keeps the first occurrence of each element, in their order (`pairwise_idxOf_eraseDups`).
What comes later changes neither the elements before it nor their places (`idxOf_eraseDups_of_mem`), and a
new element takes the next place (`idxOf_eraseDups_of_not_mem`). Binding names to values that depend on the name alone binds each distinct
name once, in this order (`Entries.ofPairs_zip_map`). `Taken` says how far a list of items is used up
when each distinct name takes an item where it first occurs.
-/

namespace UriRouting

section

variable {α : Type} [BEq α] [LawfulBEq α] {a : α} {l : List α}

/-- An element that is there already is not kept again. -/
theorem eraseDups_concat_of_mem (h : a ∈ l) : (l ++ [a]).eraseDups = l.eraseDups := by
  have : [a].removeAll l = [] := by simp [List.removeAll, h]
  rw [List.eraseDups_append, this, List.eraseDups_nil, List.append_nil]

/-- A new element is kept behind the others. -/
theorem eraseDups_concat_of_not_mem (h : a ∉ l) : (l ++ [a]).eraseDups = l.eraseDups ++ [a] := by
  have : [a].removeAll l = [a] := by simp [List.removeAll, h]
  rw [List.eraseDups_append, this]
  rfl

/-- The elements that are kept stand in the order of their first occurrences. -/
theorem pairwise_idxOf_eraseDups (l : List α) :
    l.eraseDups.Pairwise fun a b => l.idxOf a < l.idxOf b := by
  induction l using List.reverseRecOn with
  | nil => exact List.Pairwise.nil
  | append_singleton l a ih =>
    have hbefore : l.eraseDups.Pairwise fun b c => (l ++ [a]).idxOf b < (l ++ [a]).idxOf c := by
      refine ih.imp_of_mem fun hb hc hlt => ?_
      rwa [List.idxOf_append_of_mem (List.mem_eraseDups.1 hb),
        List.idxOf_append_of_mem (List.mem_eraseDups.1 hc)]
    by_cases h : a ∈ l
    · rwa [eraseDups_concat_of_mem h]
    · rw [eraseDups_concat_of_not_mem h, List.pairwise_append]
      refine ⟨hbefore, List.pairwise_singleton _ a, fun b hb c hc => ?_⟩
      obtain rfl := List.mem_singleton.1 hc
      have hb := List.mem_eraseDups.1 hb
      rw [List.idxOf_append_of_mem hb, List.idxOf_append_of_notMem h]
      exact Nat.lt_add_right _ (List.idxOf_lt_length_iff.2 hb)

/-- The elements that are kept differ from each other. -/
theorem nodup_eraseDups (l : List α) : l.eraseDups.Nodup :=
  (pairwise_idxOf_eraseDups l).imp fun hlt heq => Nat.ne_of_lt hlt (congrArg l.idxOf heq)

/-- An element keeps its place whatever follows. -/
theorem idxOf_eraseDups_of_mem (h : a ∈ l) (more : List α) :
    (l ++ more).eraseDups.idxOf a = l.eraseDups.idxOf a := by
  rw [List.eraseDups_append, List.idxOf_append_of_mem (List.mem_eraseDups.2 h)]

/-- A new element takes the place behind the others. -/
theorem idxOf_eraseDups_of_not_mem (h : a ∉ l) (more : List α) :
    (l ++ a :: more).eraseDups.idxOf a = l.eraseDups.length := by
  have hmem : a ∈ l ++ [a] := List.mem_append_right _ (List.mem_singleton.2 rfl)
  rw [← List.singleton_append, ← List.append_assoc, idxOf_eraseDups_of_mem hmem,
    eraseDups_concat_of_not_mem h,
    List.idxOf_append_of_notMem fun hmem => h (List.mem_eraseDups.1 hmem), List.idxOf_cons_self]
  rfl

/-- The first element of an ordered list that passes a test stands before all others that pass it. -/
theorem rel_of_find? {α : Type} {R : α → α → Prop} {l : List α} (h : l.Pairwise R) {p : α → Bool}
    {a b : α} (hfind : l.find? p = some a) (hb : b ∈ l) (hpb : p b = true) : b = a ∨ R a b := by
  obtain ⟨-, before, after, rfl, hbefore⟩ := List.find?_eq_some_iff_append.1 hfind
  obtain ⟨-, hafter, -⟩ := List.pairwise_append.1 h
  rcases List.mem_append.1 hb with hb | hb
  · simpa [hpb] using hbefore b hb
  · rcases List.mem_cons.1 hb with rfl | hb
    · exact .inl rfl
    · exact .inr ((List.pairwise_cons.1 hafter).1 b hb)

end

namespace Entries

variable {κ α : Type} [DecidableEq κ]

/-- Writing a value again changes nothing. -/
theorem insert_of_get? {name : κ} {value : α} {entries : Entries κ α}
    (h : entries.get? name = some value) : entries.insert name value = entries := by
  induction entries with
  | nil => cases h
  | cons entry rest ih =>
    obtain ⟨key, old⟩ := entry
    by_cases hkey : key = name
    · rw [get?, if_pos hkey] at h
      rw [insert, if_pos hkey, Option.some.inj h]
    · rw [get?, if_neg hkey] at h
      rw [insert, if_neg hkey, ih h]

/-- A new name is written at the end. -/
theorem insert_of_not_mem {name : κ} (value : α) {entries : Entries κ α}
    (h : name ∉ entries.names) : entries.insert name value = entries ++ [(name, value)] := by
  induction entries with
  | nil => rfl
  | cons entry rest ih =>
    obtain ⟨key, old⟩ := entry
    obtain ⟨hne, hrest⟩ : name ≠ key ∧ name ∉ names rest := by simpa [names] using h
    rw [insert, if_neg hne.symm, ih hrest]
    rfl

/-- Writing pairs one after the other puts their names in order of first occurrence. -/
theorem names_ofPairs [BEq κ] [LawfulBEq κ] (pairs : List (κ × α)) :
    names (ofPairs pairs) = (pairs.map Prod.fst).eraseDups := by
  induction pairs using List.reverseRecOn with
  | nil => rfl
  | append_singleton pairs pair ih =>
    have hstep : ofPairs (pairs ++ [pair]) = insert pair.1 pair.2 (ofPairs pairs) := by
      rw [ofPairs, List.foldl_append]
      rfl
    rw [hstep, names_insert, ih, List.map_append]
    split
    · next h => exact (eraseDups_concat_of_mem (List.mem_eraseDups.1 h)).symm
    · next h => exact (eraseDups_concat_of_not_mem fun hmem => h (List.mem_eraseDups.2 hmem)).symm

/-- The value of a name among names with their values. -/
theorem get?_map_of_mem (f : κ → α) {names : List κ} {name : κ} (h : name ∈ names) :
    get? name (names.map fun name => (name, f name)) = some (f name) := by
  induction names with
  | nil => cases h
  | cons first rest ih =>
    rw [List.map_cons, get?]
    split
    · next hname => rw [hname]
    · next hname => exact ih ((List.mem_cons.1 h).resolve_left (Ne.symm hname))

/-- Writing the values of names one after the other writes each distinct name once. -/
theorem ofPairs_zip_map [BEq κ] [LawfulBEq κ] (f : κ → α) (names : List κ) :
    ofPairs (names.zip (names.map f)) = names.eraseDups.map fun name => (name, f name) := by
  have hzip (names : List κ) : names.zip (names.map f) = names.map fun name => (name, f name) := by
    simpa using List.zip_map' (f := id) (g := f) (l := names)
  rw [hzip]
  induction names using List.reverseRecOn with
  | nil => rfl
  | append_singleton names name ih =>
    have hstep : ofPairs ((names ++ [name]).map fun name => (name, f name)) =
        insert name (f name) (names.eraseDups.map fun name => (name, f name)) := by
      rw [← ih, ofPairs, List.map_append, List.foldl_append]
      rfl
    rw [hstep]
    by_cases h : name ∈ names
    · rw [eraseDups_concat_of_mem h]
      exact insert_of_get? (get?_map_of_mem f (List.mem_eraseDups.2 h))
    · rw [eraseDups_concat_of_not_mem h, List.map_append]
      apply insert_of_not_mem
      simpa [Entries.names, Function.comp_def] using h

end Entries

/-- What has become of some items when each distinct one of some names has taken an item: the names are
bound to the values that they have found, no other name is bound, and the items behind are left. -/
structure Taken {κ α β : Type} [DecidableEq κ] [BEq κ] (value : κ → Option α) (items : List β)
    (names : List κ) (entries : Entries κ α) (remaining : List β) : Prop where
  bound : ∀ name ∈ names, entries.get? name = value name
  unbound : ∀ name, name ∉ names → entries.get? name = none
  remaining : remaining = items.drop names.eraseDups.length

namespace Taken

variable {κ α β : Type} [DecidableEq κ] [BEq κ]

/-- Nothing has been taken at first. -/
theorem nil (value : κ → Option α) (items : List β) : Taken value items [] [] items :=
  ⟨by simp, fun _ _ => rfl, rfl⟩

variable [LawfulBEq κ] {value : κ → Option α} {items : List β} {names : List κ} {name : κ}
  {entries : Entries κ α} {remaining : List β}

/-- A name that comes up again takes nothing. -/
theorem concat_of_mem (h : Taken value items names entries remaining) (hmem : name ∈ names) :
    Taken value items (names ++ [name]) entries remaining where
  bound other hother := by
    rcases List.mem_append.1 hother with hother | hother
    · exact h.bound other hother
    · exact List.mem_singleton.1 hother ▸ h.bound name hmem
  unbound other hother := h.unbound other fun hmem => hother (List.mem_append_left _ hmem)
  remaining := by rw [eraseDups_concat_of_mem hmem, h.remaining]

/-- A new name takes the next item, if there is one, and is bound to the value that it has found. -/
theorem concat_of_not_mem (h : Taken value items names entries remaining) (hmem : name ∉ names)
    {entries' : Entries κ α}
    (hentries : ∀ other, entries'.get? other =
      if other = name then value name else entries.get? other) :
    Taken value items (names ++ [name]) entries' remaining.tail where
  bound other hother := by
    rw [hentries]
    split
    · next heq => rw [heq]
    · next hne =>
      exact h.bound other ((List.mem_append.1 hother).resolve_right fun h =>
        hne (List.mem_singleton.1 h))
  unbound other hother := by
    rw [List.mem_append, List.mem_singleton, not_or] at hother
    rw [hentries, if_neg hother.2, h.unbound other hother.1]
  remaining := by
    rw [eraseDups_concat_of_not_mem hmem, List.length_append, List.length_singleton, h.remaining,
      List.tail_drop]

end Taken

end UriRouting
