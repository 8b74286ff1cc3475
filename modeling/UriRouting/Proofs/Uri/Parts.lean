import UriRouting.Proofs.Text.Trimming

/-!
# The parts of a URI

A URI is put together from its parts with their delimiters in front or behind (`Parts.text`), and
split again at the delimiters: the scheme ends with the first colon, if that comes before any slash,
question mark or number sign, the authority begins behind two slashes, and each part ends where a later
one can begin (`Parts.split`). Splitting gives the parts back if none of them holds a delimiter that
ends it (`split_text`).
-/

namespace UriRouting

open scoped CodeUnit

instance Text.decidableDisjoint (s t : Text) : Decidable (s.Disjoint t) :=
  @decidable_of_iff _ (∀ u ∈ s, u ∉ t) List.disjoint_left.symm (List.decidableBAll _ s)

namespace Uri

/-- The parts of a URI between its delimiters. -/
structure Parts where
  scheme : Option Text
  authority : Option Text
  path : Text
  query : Option Text
  fragment : Option Text
  deriving DecidableEq

namespace Parts

/-- A part with its mark in front of it, if there is such a part. -/
def marked (mark : Text) (part : Option Text) : Text := part.elim [] (mark ++ ·)

/-- The parts put together with their delimiters. -/
def text (p : Parts) : Text :=
  (p.scheme.elim ([] : Text) fun t => t ++ ":") ++ marked "//" p.authority ++ p.path ++
    marked "?" p.query ++ marked "#" p.fragment

/-- Cut a text in front of the first delimiter. -/
def cut (delimiters t : Text) : Text × Text :=
  (t.takeWhile (· ∉ delimiters), t.dropWhile (· ∉ delimiters))

/-- Cut off what stands before a colon, if that is the first delimiter. -/
def splitScheme (t : Text) : Option Text × Text :=
  let (front, rest) := cut ":/?#" t
  if rest.head? = some (':' : CodeUnit) then (some front, rest.tail) else (none, t)

/-- Cut off what stands behind a mark that the text begins with, up to a delimiter. -/
def splitBehind (mark delimiters t : Text) : Option Text × Text :=
  if mark.isPrefixOf t then
    let (front, rest) := cut delimiters (t.drop mark.length)
    (some front, rest)
  else (none, t)

/-- Split a URI into its parts. -/
def split (t : Text) : Parts :=
  let (scheme, t) := splitScheme t
  let (authority, t) := splitBehind "//" "/?#" t
  let (path, t) := cut "?#" t
  let (query, t) := splitBehind "?" "#" t
  let (fragment, _) := splitBehind "#" [] t
  ⟨scheme, authority, path, query, fragment⟩

variable {delimiters front rest : Text}

/-- A text is cut where its first delimiter is. -/
theorem cut_append (hfront : front.Disjoint delimiters)
    (hrest : ∀ u ∈ rest.head?, u ∈ delimiters) : cut delimiters (front ++ rest) = (front, rest) := by
  have hfront' : ∀ u ∈ front, decide (u ∉ delimiters) = true := by
    simpa using List.disjoint_left.1 hfront
  have hrest' : ∀ u ∈ rest.head?, decide (u ∉ delimiters) = false := by simpa using hrest
  rw [cut, List.takeWhile_append_of_pos hfront', List.dropWhile_append_of_pos hfront',
    Text.takeWhile_eq_nil hrest', Text.dropWhile_eq_self hrest', List.append_nil]

/-- What stands before the first colon is a scheme. -/
theorem splitScheme_colon (hfront : front.Disjoint ":/?#") :
    splitScheme (front ++ ":" ++ rest) = (some front, rest) := by
  have hcolon : ∀ u ∈ (↑":" ++ rest : Text).head?, u ∈ (↑":/?#" : Text) := by
    intro u hu
    obtain rfl : (':' : CodeUnit) = u := Option.some.inj hu
    decide
  rw [splitScheme, List.append_assoc, cut_append hfront hcolon]
  rfl

/-- A part stands behind its mark and ends in front of a delimiter. -/
theorem splitBehind_append (mark : Text) (hfront : front.Disjoint delimiters)
    (hrest : ∀ u ∈ rest.head?, u ∈ delimiters) :
    splitBehind mark delimiters (mark ++ front ++ rest) = (some front, rest) := by
  have hprefix : mark.isPrefixOf (mark ++ front ++ rest) = true := by
    rw [List.isPrefixOf_iff_prefix, List.append_assoc]
    exact List.prefix_append ..
  rw [splitBehind, if_pos hprefix, List.append_assoc, List.drop_left, cut_append hfront hrest]

/-- A part with a mark of one unit ends in front of a delimiter, and is absent if the text does not
begin with its mark. -/
theorem splitBehind_marked {u : CodeUnit} {part : Option Text}
    (hpart : ∀ t, part = some t → t.Disjoint delimiters) (hrest : ∀ v ∈ rest.head?, v ∈ delimiters)
    (hu : u ∉ delimiters) : splitBehind [u] delimiters (marked [u] part ++ rest) = (part, rest) := by
  cases part with
  | some t => exact splitBehind_append [u] (hpart t rfl) hrest
  | none =>
    rw [marked, Option.elim_none, List.nil_append, splitBehind, if_neg]
    cases rest with
    | nil => simp
    | cons v more =>
      have hv : v ∈ delimiters := hrest v rfl
      have hne : u ≠ v := fun h => hu (h ▸ hv)
      simp [List.isPrefixOf, hne]

/-- A part begins with its mark, if there is such a part. -/
theorem head?_marked {u : CodeUnit} {part : Option Text} {rest : Text} :
    ∀ v ∈ (marked [u] part ++ rest).head?, v = u ∨ v ∈ rest.head? := by
  intro v hv
  cases part with
  | none => exact .inr hv
  | some t => exact .inl (Option.some.inj hv).symm

/-- Parts that hold no delimiter which ends them; there is an authority, and so the path is empty or
begins with a slash. -/
structure Separated (p : Parts) : Prop where
  scheme : ∀ t, p.scheme = some t → t.Disjoint ":/?#"
  authority : ∃ t, p.authority = some t ∧ t.Disjoint "/?#"
  path : p.path.Disjoint "?#"
  absolute : ∀ u ∈ p.path.head?, u = '/'
  query : ∀ t, p.query = some t → t.Disjoint "#"

/-- Splitting gives the parts back that a URI has been put together from. -/
theorem split_text {p : Parts} (h : p.Separated) : split p.text = p := by
  obtain ⟨scheme, authority, path, query, fragment⟩ := p
  obtain ⟨hscheme, ⟨authority, rfl, hauthority⟩, hpath, habsolute, hquery⟩ := h
  -- Each part is followed by the beginning of a later one or by the end.
  have fragment_head : ∀ u ∈ (marked "#" fragment).head?, u ∈ (↑"#" : Text) := by
    intro u hu
    rw [← List.append_nil (marked _ _)] at hu
    rcases head?_marked u hu with rfl | hu
    · decide
    · cases hu
  have query_head : ∀ u ∈ (marked "?" query ++ marked "#" fragment).head?, u ∈ (↑"?#" : Text) := by
    intro u hu
    rcases head?_marked u hu with rfl | hu
    · decide
    · obtain rfl := List.mem_singleton.1 (fragment_head u hu)
      decide
  have path_head : ∀ u ∈ (path ++ (marked "?" query ++ marked "#" fragment)).head?,
      u ∈ (↑"/?#" : Text) := by
    intro u hu
    cases path with
    | nil => exact List.mem_cons_of_mem _ (query_head u hu)
    | cons v rest =>
      obtain rfl := habsolute u hu
      decide
  have scheme_split : splitScheme (Parts.text ⟨scheme, some authority, path, query, fragment⟩) =
      (scheme, "//" ++ authority ++ (path ++ (marked "?" query ++ marked "#" fragment))) := by
    simp only [text, List.append_assoc]
    cases scheme with
    | none => rfl
    | some t =>
      rw [Option.elim_some, splitScheme_colon (hscheme t rfl)]
      rfl
  have fragment_split : splitBehind "#" [] (marked "#" fragment) = (fragment, []) := by
    rw [← List.append_nil (marked _ _)]
    exact splitBehind_marked (fun _ _ => List.disjoint_nil_right _) (by simp) List.not_mem_nil
  have query_split : splitBehind "?" "#" (marked "?" query ++ marked "#" fragment) =
      (query, marked "#" fragment) :=
    splitBehind_marked hquery fragment_head (by decide)
  simp only [split, scheme_split, splitBehind_append _ hauthority path_head,
    cut_append hpath query_head, query_split, fragment_split]

end Parts

end Uri

end UriRouting
