import UriRouting.Proofs.Regex.Ways

/-!
# What a way of an expression changes

A way that matches forwards ends at a later position (`after_suffix_of_mem_ways`), and any way
changes the texts of the groups of its expression alone (`keeps_of_mem_ways`). So a capturing group
records exactly the text between its ends, and what follows it leaves the record as it is.
-/

namespace UriRouting

namespace Regex

section Steps

variable {once : Cursor → List Cursor} {R : Cursor → Cursor → Prop}

/-- What each step keeps, a number of steps keep. -/
theorem rel_of_mem_waysExactly (hrefl : ∀ s, R s s) (htrans : ∀ s t u, R s t → R t u → R s u)
    (honce : ∀ s, ∀ t ∈ once s, R s t) {n : Nat} {s t : Cursor} (h : t ∈ waysExactly once n s) :
    R s t := by
  induction n generalizing s with
  | zero =>
    obtain rfl : t = s := by simpa [waysExactly] using h
    exact hrefl t
  | succ n ih =>
    obtain ⟨mid, hmid, ht⟩ := List.mem_flatMap.1 h
    exact htrans _ _ _ (honce s mid hmid) (ih ht)

/-- The positions that are reached by at most so many steps that move. -/
theorem mem_waysUpTo_succ {greedy : Bool} {n : Nat} {s t : Cursor} :
    t ∈ waysUpTo greedy once (n + 1) s ↔
      t = s ∨ ∃ mid ∈ once s, mid.left ≠ s.left ∧ t ∈ waysUpTo greedy once n mid := by
  have hmore : (t ∈ (once s).flatMap fun mid =>
      if mid.left = s.left then [] else waysUpTo greedy once n mid) ↔
        ∃ mid ∈ once s, mid.left ≠ s.left ∧ t ∈ waysUpTo greedy once n mid := by
    rw [List.mem_flatMap]
    apply exists_congr
    intro mid
    split <;> simp_all
  cases greedy with
  | true => simp only [waysUpTo, if_true, List.mem_append, List.mem_singleton, hmore, or_comm]
  | false => simp only [waysUpTo, Bool.false_eq_true, if_false, List.mem_cons, hmore]

/-- What each step keeps, any number of steps that move keep. -/
theorem rel_of_mem_waysUpTo (hrefl : ∀ s, R s s) (htrans : ∀ s t u, R s t → R t u → R s u)
    (honce : ∀ s, ∀ t ∈ once s, R s t) {greedy : Bool} {n : Nat} {s t : Cursor}
    (h : t ∈ waysUpTo greedy once n s) : R s t := by
  induction n generalizing s with
  | zero =>
    obtain rfl : t = s := by simpa [waysUpTo] using h
    exact hrefl t
  | succ n ih =>
    obtain rfl | ⟨mid, hmid, -, ht⟩ := mem_waysUpTo_succ.1 h
    · exact hrefl t
    · exact htrans _ _ _ (honce s mid hmid) (ih ht)

/-- What each step keeps, a repetition keeps. -/
theorem rel_of_mem_repetition (hrefl : ∀ s, R s s) (htrans : ∀ s t u, R s t → R t u → R s u)
    {q : Quantifier} {body : Node} {direction : Direction}
    (honce : ∀ s, ∀ t ∈ body.ways direction (s.forget body.groups), R s t) {s t : Cursor}
    (h : t ∈ (Node.repetition q body).ways direction s) : R s t := by
  simp only [Node.ways] at h
  obtain ⟨mid, hmid, ht⟩ := List.mem_flatMap.1 h
  exact htrans _ _ _ (rel_of_mem_waysExactly hrefl htrans honce hmid)
    (rel_of_mem_waysUpTo hrefl htrans honce ht)

end Steps

/-- Forgetting texts moves nowhere. -/
@[simp] theorem Cursor.after_forget (groups : List Nat) (s : Cursor) :
    (s.forget groups).after = s.after := by
  rw [forget]
  split <;> rfl

@[simp] theorem Cursor.after_record (index : Nat) (direction : Direction) (s t : Cursor) :
    (Cursor.record index direction s t).after = t.after := rfl

@[simp] theorem Cursor.left_forget (groups : List Nat) (s : Cursor) :
    (s.forget groups).left = s.left := by
  rw [left_eq, left_eq, after_forget]

/-- A step forward reads the unit in front. -/
theorem Cursor.advance_forward {test : CodeUnit → Bool} {s t : Cursor}
    (h : s.advance .forward test = some t) :
    ∃ u, test u = true ∧ s.after = u :: t.after ∧ t.captures = s.captures := by
  rw [advance] at h
  split at h
  · cases h
  · next u rest hafter =>
    split at h
    · next htest =>
      obtain rfl := Option.some.inj h
      exact ⟨u, htest, hafter, rfl⟩
    · cases h

/-- A unit in front that passes the test can be stepped over. -/
theorem Cursor.exists_advance_forward (test : CodeUnit → Bool) {s : Cursor} {u : CodeUnit}
    {rest : Text} (htest : test u = true) (hafter : s.after = u :: rest) :
    ∃ t, s.advance .forward test = some t ∧ t.after = rest := by
  obtain ⟨before, after, left, captures, hleft⟩ := s
  obtain rfl : after = u :: rest := hafter
  exact ⟨_, if_pos htest, rfl⟩

/-- A step keeps the texts of the groups. -/
theorem Cursor.captures_advance {direction : Direction} {test : CodeUnit → Bool} {s t : Cursor}
    (h : s.advance direction test = some t) : t.captures = s.captures := by
  cases direction with
  | forward =>
    obtain ⟨-, -, -, hcaptures⟩ := advance_forward h
    exact hcaptures
  | backward =>
    rw [advance] at h
    split at h
    · cases h
    · split at h
      · obtain rfl := Option.some.inj h
        rfl
      · cases h

/-- Following a text keeps what its steps keep. -/
theorem Cursor.rel_of_follow {R : Cursor → Cursor → Prop} (hrefl : ∀ s, R s s)
    (htrans : ∀ s t u, R s t → R t u → R s u) {direction : Direction}
    (hstep : ∀ s t u, s.advance direction (· = u) = some t → R s t) {text : Text} {s t : Cursor}
    (h : s.follow direction text = some t) : R s t := by
  induction text generalizing s with
  | nil =>
    obtain rfl := Option.some.inj h
    exact hrefl s
  | cons u rest ih =>
    obtain ⟨mid, hmid, ht⟩ := Option.bind_eq_some_iff.1 h
    exact htrans _ _ _ (hstep s mid u hmid) (ih ht)

/-- A way that matches forwards ends at the position or behind it. -/
theorem after_suffix_of_mem_ways {n : Node} {s t : Cursor} (h : t ∈ n.ways .forward s) :
    t.after <:+ s.after := by
  have hstep (s t : Cursor) (test : CodeUnit → Bool) (h : s.advance .forward test = some t) :
      t.after <:+ s.after := by
    obtain ⟨u, -, hafter, -⟩ := Cursor.advance_forward h
    exact hafter ▸ List.suffix_cons u t.after
  have htrans (s t u : Cursor) (h : t.after <:+ s.after) (h' : u.after <:+ t.after) :
      u.after <:+ s.after := h'.trans h
  induction n generalizing s t with
  | empty =>
    obtain rfl : t = s := by simpa [Node.ways] using h
    exact List.suffix_rfl
  | unit u => exact hstep s t _ (by simpa [Node.ways] using h)
  | set c => exact hstep s t _ (by simpa [Node.ways] using h)
  | assertion a =>
    obtain ⟨-, rfl⟩ : s.holds a ∧ t = s := by simpa [Node.ways] using h
    exact List.suffix_rfl
  | backReference index =>
    exact Cursor.rel_of_follow (R := fun s t => t.after <:+ s.after) (fun _ => List.suffix_rfl)
      htrans (fun s t u => hstep s t _) (by simpa [Node.ways] using h)
  | group index body ih =>
    obtain ⟨mid, hmid, rfl⟩ := List.mem_map.1 h
    rw [Cursor.after_record]
    exact ih hmid
  | look side negated body ih =>
    simp only [Node.ways] at h
    split at h <;> split at h <;> simp at h <;> subst h <;> exact List.suffix_rfl
  | repetition q body ih =>
    exact rel_of_mem_repetition (fun _ => List.suffix_rfl) htrans
      (fun s t ht => by simpa using ih ht) h
  | seq first second ihfirst ihsecond =>
    obtain ⟨mid, hmid, ht⟩ := List.mem_flatMap.1 h
    exact (ihsecond ht).trans (ihfirst hmid)
  | alt first second ihfirst ihsecond =>
    rcases List.mem_append.1 h with h | h
    · exact ihfirst h
    · exact ihsecond h

/-- Two positions at which the texts of all but some groups are the same. -/
structure Cursor.Keeps (groups : List Nat) (s t : Cursor) : Prop where
  length : t.captures.length = s.captures.length
  others : ∀ i, (∀ group ∈ groups, group - 1 ≠ i) → t.captures[i]? = s.captures[i]?

namespace Cursor.Keeps

variable {groups : List Nat} {s t u : Cursor}

theorem refl (s : Cursor) : Keeps groups s s := ⟨rfl, fun _ _ => rfl⟩

theorem of_eq (h : t.captures = s.captures) : Keeps groups s t :=
  ⟨congrArg List.length h, fun _ _ => congrArg (·[_]?) h⟩

theorem trans (h : Keeps groups s t) (h' : Keeps groups t u) : Keeps groups s u :=
  ⟨h'.length.trans h.length, fun i hi => (h'.others i hi).trans (h.others i hi)⟩

theorem mono {more : List Nat} (h : Keeps groups s t) (hsub : groups ⊆ more) : Keeps more s t :=
  ⟨h.length, fun i hi => h.others i fun group hgroup => hi group (hsub hgroup)⟩

/-- Forgetting groups changes no other. -/
theorem forget (groups : List Nat) (s : Cursor) : Keeps groups s (s.forget groups) := by
  rw [Cursor.forget]
  split
  · exact refl s
  · refine ⟨by simp, ?_⟩
    intro i hi
    have habsent : i + 1 ∉ groups := fun h => hi _ h (Nat.add_sub_cancel ..)
    simp [List.getElem?_mapIdx, habsent]

/-- Recording a group changes no other. -/
theorem record (index : Nat) (direction : Direction) (s t : Cursor) :
    Keeps [index] t (Cursor.record index direction s t) := by
  refine ⟨by simp [Cursor.record], ?_⟩
  intro i hi
  simp only [Cursor.record]
  rw [List.getElem?_set_ne (hi index (List.mem_singleton.2 rfl))]

end Cursor.Keeps

/-- A way changes the texts of the groups of its expression alone. -/
theorem keeps_of_mem_ways {n : Node} {direction : Direction} {s t : Cursor}
    (h : t ∈ n.ways direction s) : Cursor.Keeps n.groups s t := by
  induction n generalizing direction s t with
  | empty =>
    obtain rfl : t = s := by simpa [Node.ways] using h
    exact .refl t
  | unit u => exact .of_eq (Cursor.captures_advance (by simpa [Node.ways] using h))
  | set c => exact .of_eq (Cursor.captures_advance (by simpa [Node.ways] using h))
  | assertion a =>
    obtain ⟨-, rfl⟩ : s.holds a ∧ t = s := by simpa [Node.ways] using h
    exact .refl t
  | backReference index =>
    simp only [Node.ways, Option.mem_toList] at h
    exact Cursor.rel_of_follow .refl (fun _ _ _ => .trans)
      (fun _ _ _ h => .of_eq (Cursor.captures_advance h)) h
  | group index body ih =>
    obtain ⟨mid, hmid, rfl⟩ := List.mem_map.1 h
    exact ((ih hmid).mono (List.subset_cons_self ..)).trans
      ((Cursor.Keeps.record ..).mono (by simp))
  | look side negated body ih =>
    simp only [Node.ways] at h
    split at h
    · next mid _ hways =>
      split at h
      · simp at h
      · obtain rfl := List.mem_singleton.1 h
        have hmid : Cursor.Keeps body.groups s mid := ih (by rw [hways]; exact List.mem_cons_self)
        exact ⟨hmid.length, hmid.others⟩
    · split at h
      · obtain rfl := List.mem_singleton.1 h
        exact .refl t
      · simp at h
  | repetition q body ih =>
    exact rel_of_mem_repetition (R := Cursor.Keeps body.groups) .refl (fun _ _ _ => .trans)
      (fun s t ht => (Cursor.Keeps.forget ..).trans (ih ht)) h
  | seq first second ihfirst ihsecond =>
    have hfirst : first.groups ⊆ (Node.seq first second).groups := List.subset_append_left ..
    have hsecond : second.groups ⊆ (Node.seq first second).groups := List.subset_append_right ..
    cases direction with
    | forward =>
      obtain ⟨mid, hmid, ht⟩ := List.mem_flatMap.1 h
      exact ((ihfirst hmid).mono hfirst).trans ((ihsecond ht).mono hsecond)
    | backward =>
      obtain ⟨mid, hmid, ht⟩ := List.mem_flatMap.1 h
      exact ((ihsecond hmid).mono hsecond).trans ((ihfirst ht).mono hfirst)
  | alt first second ihfirst ihsecond =>
    rcases List.mem_append.1 h with h | h
    · exact (ihfirst h).mono (List.subset_append_left ..)
    · exact (ihsecond h).mono (List.subset_append_right ..)

/-- A group that matches forwards records the text that a way of its body has read. -/
theorem captured_of_mem_ways_group {index : Nat} {body : Node} {s t : Cursor}
    (h : t ∈ (Node.group index body).ways .forward s) (hindex : index - 1 < s.captures.length) :
    ∃ text, s.after = text ++ t.after ∧ t.captures[index - 1]? = some (some text) ∧
      ∃ mid ∈ body.ways .forward s, s.after = text ++ mid.after := by
  obtain ⟨mid, hmid, rfl⟩ := List.mem_map.1 h
  obtain ⟨text, htext⟩ := after_suffix_of_mem_ways hmid
  refine ⟨text, htext.symm, ?_, mid, hmid, htext.symm⟩
  have hlength := (keeps_of_mem_ways hmid).length
  have hrecorded : s.textTo mid = text := by
    rw [Cursor.textTo, s.left_eq, mid.left_eq, ← htext, List.length_append, Nat.add_sub_cancel,
      List.take_left']
    rfl
  simp only [Cursor.record, hrecorded]
  rw [List.getElem?_set_self (by omega)]

end Regex

end UriRouting
