import UriRouting.Proofs.Regex.Captures

/-!
# The language of an expression

An expression is local if it has no back references, lookarounds or assertions. What it matches then
depends on nothing but the text: `Lang` says which texts these are, a repetition being any number of
texts of its body between the bounds. The search finds a way over a text of the language and over no
other (`exists_way_iff`), although it takes no more iterations than units are left.
-/

namespace UriRouting

namespace Regex

/-- An expression without back references, lookarounds and assertions, whose bounds are in order. -/
def Node.IsLocal : Node → Prop
  | assertion _ => False
  | backReference _ => False
  | look _ _ _ => False
  | group _ body => body.IsLocal
  | repetition q body => q.inOrder = true ∧ body.IsLocal
  | seq first second => first.IsLocal ∧ second.IsLocal
  | alt first second => first.IsLocal ∧ second.IsLocal
  | _ => True

/-- Whether a number of iterations lies between the bounds of a quantifier. -/
def Quantifier.Allows (q : Quantifier) (count : Nat) : Prop :=
  q.min ≤ count ∧ ∀ most, q.max = some most → count ≤ most

/-- The texts that a local expression matches. -/
def Node.Lang : Node → Text → Prop
  | empty, w => w = []
  | unit u, w => w = [u]
  | set c, w => ∃ u, c.contains u = true ∧ w = [u]
  | group _ body, w => body.Lang w
  | repetition q body, w =>
    ∃ parts : List Text, (∀ part ∈ parts, body.Lang part) ∧ q.Allows parts.length ∧
      w = parts.flatten
  | seq first second, w => ∃ v v', first.Lang v ∧ second.Lang v' ∧ w = v ++ v'
  | alt first second, w => first.Lang w ∨ second.Lang w
  | _, _ => False

/-- A text that is shorter than the number of its parts has an empty part. -/
theorem nil_mem_of_length_lt {parts : List Text} (h : parts.flatten.length < parts.length) :
    [] ∈ parts := by
  induction parts with
  | nil => simp at h
  | cons part rest ih =>
    cases part with
    | nil => exact List.mem_cons_self
    | cons u more =>
      rw [List.flatten_cons, List.length_append, List.length_cons, List.length_cons] at h
      exact List.mem_cons_of_mem _ (ih (by omega))

/-- The parts of a text that are not empty. -/
def movingParts (parts : List Text) : List Text := parts.filter fun part => !part.isEmpty

theorem mem_movingParts {parts : List Text} {part : Text} :
    part ∈ movingParts parts ↔ part ∈ parts ∧ part ≠ [] := by
  simp [movingParts]

@[simp] theorem flatten_movingParts (parts : List Text) :
    (movingParts parts).flatten = parts.flatten := List.flatten_filter_not_isEmpty

/-- A text has no more parts that are not empty than parts. -/
theorem length_movingParts_le (parts : List Text) : (movingParts parts).length ≤ parts.length :=
  List.length_filter_le ..

/-- A text has no more parts that are not empty than units. -/
theorem length_movingParts_le_flatten (parts : List Text) :
    (movingParts parts).length ≤ parts.flatten.length := by
  rw [← flatten_movingParts]
  apply Nat.le_of_not_lt
  intro h
  exact (mem_movingParts.1 (nil_mem_of_length_lt h)).2 rfl

/-- If there is room, all the iterations of the lower bound are taken. -/
theorem Quantifier.required_of_le {q : Quantifier} {room : Nat} (h : q.min ≤ room + 1) :
    q.required room = q.min := Nat.min_eq_left h

/-- Else one more is taken than there is room for. -/
theorem Quantifier.required_of_lt {q : Quantifier} {room : Nat} (h : room + 1 < q.min) :
    q.required room = room + 1 := Nat.min_eq_right (Nat.le_of_lt h)

/-- As many iterations may follow as there is room for and the upper bound leaves. -/
theorem Quantifier.le_extra_iff {q : Quantifier} {room count : Nat} :
    count ≤ q.extra room ↔ count ≤ room ∧ ∀ most, q.max = some most → count ≤ most - q.min := by
  rw [extra]
  cases q.max with
  | none => simp
  | some most =>
    change count ≤ Min.min (most - q.min) room ↔ _
    rw [Nat.le_min, and_comm]
    simp

section Steps

variable {once : Cursor → List Cursor} {L : Text → Prop}

/-- A number of steps read as many texts of the language. -/
theorem exists_parts_of_mem_waysExactly
    (honce : ∀ s, ∀ t ∈ once s, ∃ w, L w ∧ s.after = w ++ t.after) {n : Nat} {s t : Cursor}
    (h : t ∈ waysExactly once n s) :
    ∃ parts : List Text, (∀ part ∈ parts, L part) ∧ parts.length = n ∧
      s.after = parts.flatten ++ t.after := by
  induction n generalizing s with
  | zero =>
    obtain rfl : t = s := by simpa [waysExactly] using h
    exact ⟨[], by simp, rfl, rfl⟩
  | succ n ih =>
    obtain ⟨mid, hmid, ht⟩ := List.mem_flatMap.1 h
    obtain ⟨w, hw, hafter⟩ := honce s mid hmid
    obtain ⟨parts, hparts, hlength, hrest⟩ := ih ht
    exact ⟨w :: parts, List.forall_mem_cons.2 ⟨hw, hparts⟩, by rw [List.length_cons, hlength],
      by rw [hafter, hrest, List.flatten_cons, List.append_assoc]⟩

/-- Steps that move read at most so many texts of the language. -/
theorem exists_parts_of_mem_waysUpTo
    (honce : ∀ s, ∀ t ∈ once s, ∃ w, L w ∧ s.after = w ++ t.after) {greedy : Bool} {n : Nat}
    {s t : Cursor} (h : t ∈ waysUpTo greedy once n s) :
    ∃ parts : List Text, (∀ part ∈ parts, L part) ∧ parts.length ≤ n ∧
      s.after = parts.flatten ++ t.after := by
  induction n generalizing s with
  | zero =>
    obtain rfl : t = s := by simpa [waysUpTo] using h
    exact ⟨[], by simp, Nat.le_refl 0, rfl⟩
  | succ n ih =>
    obtain rfl | ⟨mid, hmid, -, ht⟩ := mem_waysUpTo_succ.1 h
    · exact ⟨[], by simp, Nat.zero_le _, rfl⟩
    · obtain ⟨w, hw, hafter⟩ := honce s mid hmid
      obtain ⟨parts, hparts, hlength, hrest⟩ := ih ht
      exact ⟨w :: parts, List.forall_mem_cons.2 ⟨hw, hparts⟩, Nat.succ_le_succ hlength,
        by rw [hafter, hrest, List.flatten_cons, List.append_assoc]⟩

/-- Texts of the language are read by as many steps. -/
theorem exists_mem_waysExactly
    (honce : ∀ s w rest, L w → s.after = w ++ rest → ∃ t ∈ once s, t.after = rest)
    {parts : List Text} (hparts : ∀ part ∈ parts, L part) {s : Cursor} {rest : Text}
    (hafter : s.after = parts.flatten ++ rest) :
    ∃ t ∈ waysExactly once parts.length s, t.after = rest := by
  induction parts generalizing s with
  | nil => exact ⟨s, List.mem_singleton.2 rfl, hafter⟩
  | cons part parts ih =>
    rw [List.forall_mem_cons] at hparts
    rw [List.flatten_cons, List.append_assoc] at hafter
    obtain ⟨mid, hmid, hrest⟩ := honce s part _ hparts.1 hafter
    obtain ⟨t, ht, hend⟩ := ih hparts.2 hrest
    exact ⟨t, List.mem_flatMap.2 ⟨mid, hmid, ht⟩, hend⟩

/-- Texts of the language that are not empty are read by at most so many steps that move. -/
theorem exists_mem_waysUpTo
    (honce : ∀ s w rest, L w → s.after = w ++ rest → ∃ t ∈ once s, t.after = rest)
    {parts : List Text} (hparts : ∀ part ∈ parts, L part ∧ part ≠ []) (greedy : Bool) {n : Nat}
    (hlength : parts.length ≤ n) {s : Cursor} {rest : Text}
    (hafter : s.after = parts.flatten ++ rest) :
    ∃ t ∈ waysUpTo greedy once n s, t.after = rest := by
  induction parts generalizing n s with
  | nil =>
    refine ⟨s, ?_, hafter⟩
    cases n with
    | zero => exact List.mem_singleton.2 rfl
    | succ n => exact mem_waysUpTo_succ.2 (.inl rfl)
  | cons part parts ih =>
    cases n with
    | zero => simp at hlength
    | succ n =>
      rw [List.forall_mem_cons] at hparts
      rw [List.flatten_cons, List.append_assoc] at hafter
      obtain ⟨mid, hmid, hrest⟩ := honce s part _ hparts.1.1 hafter
      have hmoved : mid.left ≠ s.left := by
        have := List.length_pos_iff.2 hparts.1.2
        have hlength := congrArg List.length hafter
        rw [List.length_append] at hlength
        rw [mid.left_eq, s.left_eq, hrest]
        omega
      obtain ⟨t, ht, hend⟩ := ih hparts.2 (Nat.le_of_succ_le_succ hlength) hrest
      exact ⟨t, mem_waysUpTo_succ.2 (.inr ⟨mid, hmid, hmoved, ht⟩), hend⟩

end Steps

/-- The iterations of a quantifier over a text with so much room: those that the lower bound asks
for, and then those that move. -/
theorem exists_iterations {q : Quantifier} {parts : List Text} (hallows : q.Allows parts.length)
    {room : Nat} (hroom : parts.flatten.length ≤ room) :
    ∃ first moving : List Text, first.length = q.required room ∧
      (∀ part ∈ first, part ∈ parts) ∧ (∀ part ∈ moving, part ∈ parts ∧ part ≠ []) ∧
      moving.length ≤ q.extra (room - first.flatten.length) ∧
      first.flatten ++ moving.flatten = parts.flatten := by
  by_cases hmin : q.min ≤ room + 1
  · have hsplit : (parts.take q.min).flatten ++ (parts.drop q.min).flatten = parts.flatten := by
      rw [← List.flatten_append, List.take_append_drop]
    refine ⟨parts.take q.min, movingParts (parts.drop q.min), ?_, fun part => List.mem_of_mem_take,
      ?_, ?_, by rw [flatten_movingParts, hsplit]⟩
    · rw [List.length_take, Quantifier.required_of_le hmin, Nat.min_eq_left hallows.1]
    · intro part hpart
      obtain ⟨hdrop, hne⟩ := mem_movingParts.1 hpart
      exact ⟨List.mem_of_mem_drop hdrop, hne⟩
    · have hcount := length_movingParts_le (parts.drop q.min)
      have hunits := length_movingParts_le_flatten (parts.drop q.min)
      have hflatten := congrArg List.length hsplit
      rw [List.length_append] at hflatten
      rw [List.length_drop] at hcount
      apply Quantifier.le_extra_iff.2 ⟨by omega, ?_⟩
      intro most hmost
      have := hallows.2 most hmost
      omega
  · -- Too many iterations are asked for to take them all, but most of them are empty.
    have hmin := Nat.lt_of_not_le hmin
    have hunits := length_movingParts_le_flatten parts
    have hnil : [] ∈ parts := nil_mem_of_length_lt (by
      have := hallows.1
      omega)
    refine ⟨movingParts parts ++ List.replicate (room + 1 - (movingParts parts).length) [], [], ?_,
      ?_, by simp, Nat.zero_le _, by simp⟩
    · rw [List.length_append, List.length_replicate, Quantifier.required_of_lt hmin]
      omega
    · intro part hpart
      rcases List.mem_append.1 hpart with hpart | hpart
      · exact (mem_movingParts.1 hpart).1
      · rw [List.eq_of_mem_replicate hpart]
        exact hnil

/-- The iterations that the search has taken make up a number that the quantifier allows, once
enough empty ones are put in. -/
theorem exists_allowed {q : Quantifier} (horder : q.inOrder = true) {first moving : List Text}
    {room further : Nat} (hfirst : first.length = q.required room)
    (hroom : first.flatten.length ≤ room) (hmoving : moving.length ≤ q.extra further) :
    ∃ parts : List Text, (∀ part ∈ parts, part ∈ first ∨ part ∈ moving) ∧ q.Allows parts.length ∧
      parts.flatten = first.flatten ++ moving.flatten := by
  have hnil (hlt : first.length < q.min) : [] ∈ first := by
    apply nil_mem_of_length_lt
    apply Nat.lt_of_le_of_lt hroom
    by_cases hmin : q.min ≤ room + 1
    · rw [Quantifier.required_of_le hmin] at hfirst
      omega
    · rw [hfirst, Quantifier.required_of_lt (Nat.lt_of_not_le hmin)]
      exact Nat.lt_succ_self room
  have hrequired : first.length ≤ q.min := hfirst ▸ Nat.min_le_left ..
  refine ⟨first ++ List.replicate (q.min - first.length) [] ++ moving, ?_, ?_, by simp⟩
  · intro part hpart
    rw [List.mem_append, List.mem_append, List.mem_replicate] at hpart
    rcases hpart with (hpart | ⟨hpositive, rfl⟩) | hpart
    · exact .inl hpart
    · exact .inl (hnil (by omega))
    · exact .inr hpart
  · have hlength : (first ++ List.replicate (q.min - first.length) [] ++ moving).length =
        q.min + moving.length := by
      rw [List.length_append, List.length_append, List.length_replicate]
      omega
    rw [hlength]
    refine ⟨Nat.le_add_right .., ?_⟩
    intro most hmost
    simp only [Quantifier.inOrder, hmost, decide_eq_true_eq] at horder
    have := (Quantifier.le_extra_iff.1 hmoving).2 most hmost
    omega

/-- A way of a local expression reads a text of its language. -/
theorem exists_lang_of_mem_ways {n : Node} (hlocal : n.IsLocal) {s t : Cursor}
    (h : t ∈ n.ways .forward s) : ∃ w, n.Lang w ∧ s.after = w ++ t.after := by
  induction n generalizing s t with
  | empty =>
    obtain rfl : t = s := by simpa [Node.ways] using h
    exact ⟨[], rfl, rfl⟩
  | unit u =>
    simp only [Node.ways, Option.mem_toList] at h
    obtain ⟨v, hv, hafter, -⟩ := Cursor.advance_forward h
    obtain rfl : v = u := by simpa using hv
    exact ⟨[v], rfl, hafter⟩
  | set c =>
    simp only [Node.ways, Option.mem_toList] at h
    obtain ⟨v, hv, hafter, -⟩ := Cursor.advance_forward h
    exact ⟨[v], ⟨v, hv, rfl⟩, hafter⟩
  | assertion a => exact hlocal.elim
  | backReference index => exact hlocal.elim
  | group index body ih =>
    obtain ⟨mid, hmid, rfl⟩ := List.mem_map.1 h
    rw [Cursor.after_record]
    exact ih hlocal hmid
  | look side negated body => exact hlocal.elim
  | repetition q body ih =>
    simp only [Node.ways] at h
    obtain ⟨mid, hmid, ht⟩ := List.mem_flatMap.1 h
    have honce (s t : Cursor) (ht : t ∈ body.ways .forward (s.forget body.groups)) :
        ∃ w, body.Lang w ∧ s.after = w ++ t.after := by
      simpa using ih hlocal.2 ht
    obtain ⟨first, hfirst, hlength, hafter⟩ := exists_parts_of_mem_waysExactly honce hmid
    obtain ⟨moving, hmoving, hlength', hafter'⟩ := exists_parts_of_mem_waysUpTo honce ht
    have hroom : first.flatten.length ≤ s.left := by
      rw [s.left_eq, hafter, List.length_append]
      exact Nat.le_add_right ..
    obtain ⟨parts, hparts, hallows, hflatten⟩ := exists_allowed hlocal.1 hlength hroom hlength'
    refine ⟨parts.flatten, ⟨parts, ?_, hallows, rfl⟩, ?_⟩
    · intro part hpart
      exact (hparts part hpart).elim (hfirst part) (hmoving part)
    · rw [hafter, hafter', hflatten, List.append_assoc]
  | seq first second ihfirst ihsecond =>
    obtain ⟨mid, hmid, ht⟩ := List.mem_flatMap.1 h
    obtain ⟨v, hv, hafter⟩ := ihfirst hlocal.1 hmid
    obtain ⟨v', hv', hafter'⟩ := ihsecond hlocal.2 ht
    exact ⟨v ++ v', ⟨v, v', hv, hv', rfl⟩, by rw [hafter, hafter', List.append_assoc]⟩
  | alt first second ihfirst ihsecond =>
    rcases List.mem_append.1 h with h | h
    · obtain ⟨w, hw, hafter⟩ := ihfirst hlocal.1 h
      exact ⟨w, .inl hw, hafter⟩
    · obtain ⟨w, hw, hafter⟩ := ihsecond hlocal.2 h
      exact ⟨w, .inr hw, hafter⟩

/-- Every text of the language of an expression is read by a way of it, if the text goes on with
it. -/
theorem exists_mem_ways_of_lang {n : Node} {s : Cursor} {w rest : Text} (h : n.Lang w)
    (hafter : s.after = w ++ rest) : ∃ t ∈ n.ways .forward s, t.after = rest := by
  induction n generalizing s w rest with
  | empty =>
    obtain rfl : w = [] := h
    exact ⟨s, by simp [Node.ways], hafter⟩
  | unit u =>
    obtain rfl : w = [u] := h
    have hu : decide (u = u) = true := decide_eq_true rfl
    obtain ⟨t, ht, hrest⟩ := Cursor.exists_advance_forward (· = u) hu hafter
    exact ⟨t, by simpa [Node.ways] using ht, hrest⟩
  | set c =>
    obtain ⟨u, hu, rfl⟩ := h
    obtain ⟨t, ht, hrest⟩ := Cursor.exists_advance_forward c.contains hu hafter
    exact ⟨t, by simpa [Node.ways] using ht, hrest⟩
  | assertion a => exact h.elim
  | backReference index => exact h.elim
  | group index body ih =>
    obtain ⟨t, ht, hrest⟩ := ih h hafter
    exact ⟨_, List.mem_map.2 ⟨t, ht, rfl⟩, hrest⟩
  | look side negated body => exact h.elim
  | repetition q body ih =>
    obtain ⟨parts, hparts, hallows, rfl⟩ := h
    have honce (s : Cursor) (w rest : Text) (hw : body.Lang w) (hafter : s.after = w ++ rest) :
        ∃ t ∈ body.ways .forward (s.forget body.groups), t.after = rest :=
      ih hw (by rw [Cursor.after_forget, hafter])
    have hroom : parts.flatten.length ≤ s.left := by
      rw [s.left_eq, hafter, List.length_append]
      exact Nat.le_add_right ..
    obtain ⟨first, moving, hlength, hfirst, hmoving, hextra, hflatten⟩ :=
      exists_iterations hallows hroom
    rw [← hflatten, List.append_assoc] at hafter
    obtain ⟨mid, hmid, hbehind⟩ :=
      exists_mem_waysExactly honce (fun part hpart => hparts part (hfirst part hpart)) hafter
    have hleft : s.left - first.flatten.length = mid.left := by
      rw [s.left_eq, mid.left_eq, hafter, hbehind, List.length_append, Nat.add_sub_cancel_left]
    rw [hleft] at hextra
    have hmoving' (part : Text) (hpart : part ∈ moving) : body.Lang part ∧ part ≠ [] :=
      ⟨hparts part (hmoving part hpart).1, (hmoving part hpart).2⟩
    obtain ⟨t, ht, hrest⟩ := exists_mem_waysUpTo honce hmoving' q.greedy hextra hbehind
    rw [hlength] at hmid
    exact ⟨t, List.mem_flatMap.2 ⟨mid, hmid, ht⟩, hrest⟩
  | seq first second ihfirst ihsecond =>
    obtain ⟨v, v', hv, hv', rfl⟩ := h
    rw [List.append_assoc] at hafter
    obtain ⟨mid, hmid, hbehind⟩ := ihfirst hv hafter
    obtain ⟨t, ht, hrest⟩ := ihsecond hv' hbehind
    exact ⟨t, List.mem_flatMap.2 ⟨mid, hmid, ht⟩, hrest⟩
  | alt first second ihfirst ihsecond =>
    rcases h with h | h
    · obtain ⟨t, ht, hrest⟩ := ihfirst h hafter
      exact ⟨t, List.mem_append_left _ ht, hrest⟩
    · obtain ⟨t, ht, hrest⟩ := ihsecond h hafter
      exact ⟨t, List.mem_append_right _ ht, hrest⟩

/-- An anchored local expression matches the texts of its language. -/
theorem isSome_exec?_anchored {root : Node} (hlocal : root.IsLocal) (groupCount : Nat)
    (text : Text) : (exec? ⟨root.anchored, groupCount⟩ text).isSome ↔ root.Lang text := by
  rw [exec?_anchored, Option.isSome_map, List.find?_isSome]
  constructor
  · intro h
    obtain ⟨t, ht, hend⟩ := h
    obtain ⟨w, hw, hafter⟩ := exists_lang_of_mem_ways hlocal ht
    rw [List.isEmpty_iff.1 hend, List.append_nil] at hafter
    obtain rfl : text = w := hafter
    exact hw
  · intro h
    have hstart : (Cursor.start text groupCount).after = text ++ [] := (List.append_nil text).symm
    obtain ⟨t, ht, hend⟩ := exists_mem_ways_of_lang h hstart
    exact ⟨t, ht, by rw [hend]; rfl⟩

end Regex

end UriRouting
