import UriRouting.Text.Utf8
import Mathlib.Tactic.SplitIfs

/-!
# Reading back what UTF-8 has written

The first byte of a character opens a sequence with the length and the bits of the character, every
further byte adds six bits, and the last one completes the character: the decoder reads the bytes of
a character as that character, whatever follows (`decodeFrom_encodeChar`). So it reads back every
list of characters (`decode_encode`), and only the byte order mark has the bytes of the mark at its
start (`dropMark_encode`). Since no character begins with a byte that continues a sequence, it also
reads a character behind any bytes, ill-formed and truncated ones included
(`decodeFrom_append_encodeChar`).
-/

namespace UriRouting

namespace Utf8

/-- Reading bytes begins with a step. -/
theorem decodeFrom_cons (state : Option Partial) (b : UInt8) (rest : List UInt8) :
    decodeFrom state (b :: rest) = (step state b).1 ++ decodeFrom (step state b).2 rest := by
  cases state <;> rfl

/-- What a first byte does, by its value. -/
theorem start_ofNat {n : Nat} (h : n < 256) :
    start (UInt8.ofNat n) =
      if n < 0x80 then ([Char.ofNat n], none)
      else if n < 0xC2 then ([Text.replacement], none)
      else if n < 0xE0 then ([], some ⟨n - 0xC0, 1, 0x80, 0xBF⟩)
      else if n < 0xF0 then
        ([], some ⟨n - 0xE0, 2, if n = 0xE0 then 0xA0 else 0x80, if n = 0xED then 0x9F else 0xBF⟩)
      else if n < 0xF5 then
        ([], some ⟨n - 0xF0, 3, if n = 0xF0 then 0x90 else 0x80, if n = 0xF4 then 0x8F else 0xBF⟩)
      else ([Text.replacement], none) := by
  have hn : (UInt8.ofNat n).toNat = n := UInt8.toNat_ofNat_of_lt' h
  simp only [start, UInt8.lt_iff_toNat_lt, ← UInt8.toNat_inj, hn]
  rfl

/-- A byte in the expected range adds its six bits. -/
theorem resume_ofNat {p : Partial} {n : Nat} (h : n < 64) (hlow : p.low.toNat ≤ n + 128)
    (hhigh : n + 128 ≤ p.high.toNat) :
    resume p (UInt8.ofNat (n + 128)) =
      if p.needed = 1 then ([Char.ofNat (p.bits * 0x40 + n)], none)
      else ([], some ⟨p.bits * 0x40 + n, p.needed - 1, 0x80, 0xBF⟩) := by
  have hn : (UInt8.ofNat (n + 128)).toNat = n + 128 :=
    UInt8.toNat_ofNat_of_lt' (by rw [UInt8.size]; omega)
  have hrange : (decide (p.low ≤ UInt8.ofNat (n + 128)) && decide (UInt8.ofNat (n + 128) ≤ p.high)) =
      true := by
    rw [Bool.and_eq_true, decide_eq_true_eq, decide_eq_true_eq, UInt8.le_iff_toNat_le,
      UInt8.le_iff_toNat_le, hn]
    exact ⟨hlow, hhigh⟩
  rw [resume, if_pos hrange, hn, Nat.add_sub_cancel]

/-- Reading goes on behind a first byte that opens a sequence. -/
theorem decodeFrom_start {b : UInt8} {p : Partial} (h : start b = ([], some p))
    (rest : List UInt8) : decodeFrom none (b :: rest) = decodeFrom (some p) rest := by
  rw [decodeFrom_cons, step, h, List.nil_append]

/-- Reading goes on behind a byte that does not complete its sequence. -/
theorem decodeFrom_resume {bits needed n : Nat} {low high : UInt8} (h : n < 64)
    (hlow : low.toNat ≤ n + 128) (hhigh : n + 128 ≤ high.toNat) (rest : List UInt8) :
    decodeFrom (some ⟨bits, needed + 2, low, high⟩) (UInt8.ofNat (n + 128) :: rest) =
      decodeFrom (some ⟨bits * 0x40 + n, needed + 1, 0x80, 0xBF⟩) rest := by
  rw [decodeFrom_cons, step, resume_ofNat h hlow hhigh, if_neg (by simp), List.nil_append]
  rfl

/-- The last byte of a sequence completes the character. -/
theorem decodeFrom_last {bits n : Nat} {low high : UInt8} (h : n < 64)
    (hlow : low.toNat ≤ n + 128) (hhigh : n + 128 ≤ high.toNat) (rest : List UInt8) :
    decodeFrom (some ⟨bits, 1, low, high⟩) (UInt8.ofNat (n + 128) :: rest) =
      Char.ofNat (bits * 0x40 + n) :: decodeFrom none rest := by
  rw [decodeFrom_cons, step, resume_ofNat h hlow hhigh, if_pos rfl, List.singleton_append]

/-- Six bits fit the range of a byte that may be any but the first. -/
theorem tail_range {n : Nat} (h : n < 64) :
    (0x80 : UInt8).toNat ≤ n + 128 ∧ n + 128 ≤ (0xBF : UInt8).toNat := by
  rw [show (0x80 : UInt8).toNat = 128 from rfl, show (0xBF : UInt8).toNat = 191 from rfl]
  omega

/-- Two bytes read as their character. -/
theorem decodeFrom_two {n : Nat} (h : 0x80 ≤ n ∧ n < 0x800) (rest : List UInt8) :
    decodeFrom none (UInt8.ofNat (n / 64 % 32 + 192) :: UInt8.ofNat (n % 64 + 128) :: rest) =
      Char.ofNat n :: decodeFrom none rest := by
  have hstart : start (UInt8.ofNat (n / 64 % 32 + 192)) =
      ([], some ⟨n / 64 % 32 + 192 - 0xC0, 1, 0x80, 0xBF⟩) := by
    rw [start_ofNat (by omega), if_neg (by omega), if_neg (by omega), if_pos (by omega)]
  have hlast := tail_range (show n % 64 < 64 by omega)
  have hbits : (n / 64 % 32 + 192 - 0xC0) * 0x40 + n % 64 = n := by omega
  rw [decodeFrom_start hstart, decodeFrom_last (by omega) hlast.1 hlast.2, hbits]

/-- Three bytes read as their character, which may be no surrogate. -/
theorem decodeFrom_three {n : Nat} (h : 0x800 ≤ n ∧ n < 0x10000) (hvalid : n < 0xD800 ∨ 0xDFFF < n)
    (rest : List UInt8) :
    decodeFrom none (UInt8.ofNat (n / 4096 % 16 + 224) :: UInt8.ofNat (n / 64 % 64 + 128) ::
      UInt8.ofNat (n % 64 + 128) :: rest) = Char.ofNat n :: decodeFrom none rest := by
  have hstart : start (UInt8.ofNat (n / 4096 % 16 + 224)) =
      ([], some ⟨n / 4096 % 16 + 224 - 0xE0, 2,
        if n / 4096 % 16 + 224 = 0xE0 then 0xA0 else 0x80,
        if n / 4096 % 16 + 224 = 0xED then 0x9F else 0xBF⟩) := by
    rw [start_ofNat (by omega), if_neg (by omega), if_neg (by omega), if_neg (by omega),
      if_pos (by omega)]
  -- The first byte excludes what could be written shorter, and the surrogates.
  have hsecond : (if n / 4096 % 16 + 224 = 0xE0 then (0xA0 : UInt8) else 0x80).toNat ≤
        n / 64 % 64 + 128 ∧
      n / 64 % 64 + 128 ≤ (if n / 4096 % 16 + 224 = 0xED then (0x9F : UInt8) else 0xBF).toNat := by
    split_ifs <;> simp only [UInt8.reduceToNat] <;> omega
  have hlast := tail_range (show n % 64 < 64 by omega)
  have hbits : ((n / 4096 % 16 + 224 - 0xE0) * 0x40 + n / 64 % 64) * 0x40 + n % 64 = n := by omega
  rw [decodeFrom_start hstart, decodeFrom_resume (by omega) hsecond.1 hsecond.2,
    decodeFrom_last (by omega) hlast.1 hlast.2, hbits]

/-- Four bytes read as their character, which is a code point. -/
theorem decodeFrom_four {n : Nat} (h : 0x10000 ≤ n ∧ n < 0x110000) (rest : List UInt8) :
    decodeFrom none (UInt8.ofNat (n / 262144 % 8 + 240) :: UInt8.ofNat (n / 4096 % 64 + 128) ::
      UInt8.ofNat (n / 64 % 64 + 128) :: UInt8.ofNat (n % 64 + 128) :: rest) =
        Char.ofNat n :: decodeFrom none rest := by
  have hstart : start (UInt8.ofNat (n / 262144 % 8 + 240)) =
      ([], some ⟨n / 262144 % 8 + 240 - 0xF0, 3,
        if n / 262144 % 8 + 240 = 0xF0 then 0x90 else 0x80,
        if n / 262144 % 8 + 240 = 0xF4 then 0x8F else 0xBF⟩) := by
    rw [start_ofNat (by omega), if_neg (by omega), if_neg (by omega), if_neg (by omega),
      if_neg (by omega), if_pos (by omega)]
  have hsecond : (if n / 262144 % 8 + 240 = 0xF0 then (0x90 : UInt8) else 0x80).toNat ≤
        n / 4096 % 64 + 128 ∧
      n / 4096 % 64 + 128 ≤ (if n / 262144 % 8 + 240 = 0xF4 then (0x8F : UInt8) else 0xBF).toNat := by
    split_ifs <;> simp only [UInt8.reduceToNat] <;> omega
  have hthird := tail_range (show n / 64 % 64 < 64 by omega)
  have hlast := tail_range (show n % 64 < 64 by omega)
  have hbits : (((n / 262144 % 8 + 240 - 0xF0) * 0x40 + n / 4096 % 64) * 0x40 + n / 64 % 64) *
      0x40 + n % 64 = n := by omega
  rw [decodeFrom_start hstart, decodeFrom_resume (by omega) hsecond.1 hsecond.2,
    decodeFrom_resume (by omega) hthird.1 hthird.2, decodeFrom_last (by omega) hlast.1 hlast.2,
    hbits]

/-- The bytes of a character read as that character, whatever follows. -/
theorem decodeFrom_encodeChar (c : Char) (rest : List UInt8) :
    decodeFrom none (String.utf8EncodeChar c ++ rest) = c :: decodeFrom none rest := by
  have hvalid : c.val.toNat < 0xD800 ∨ 0xDFFF < c.val.toNat ∧ c.val.toNat < 0x110000 := c.valid
  have hchar : Char.ofNat c.val.toNat = c := Char.ofNat_toNat c
  rw [String.utf8EncodeChar.eq_1]
  split_ifs with h1 h2 h3
  · rw [List.singleton_append, decodeFrom_cons, step, start_ofNat (by omega), if_pos (by omega),
      hchar, List.singleton_append]
  · exact (decodeFrom_two (by omega) rest).trans (by rw [hchar])
  · exact (decodeFrom_three (by omega) (by omega) rest).trans (by rw [hchar])
  · exact (decodeFrom_four (by omega) rest).trans (by rw [hchar])

/-- A byte that continues a sequence and begins none. -/
def IsTail (b : UInt8) : Prop := 0x80 ≤ b ∧ b ≤ 0xBF

/-- No other bytes than tails continue the sequence that is open, if there is one. -/
def ExpectsTail (state : Option Partial) : Prop := ∀ p ∈ state, 0x80 ≤ p.low ∧ p.high ≤ 0xBF

/-- The sequence that a byte opens is continued by tails. -/
theorem expectsTail_start (b : UInt8) : ExpectsTail (start b).2 := by
  rw [start]
  split_ifs <;> simp [ExpectsTail]

/-- A byte that does not continue the open sequence cuts it off and is read as a first byte. -/
theorem resume_of_not {p : Partial} {b : UInt8} (h : ¬ (p.low ≤ b ∧ b ≤ p.high)) :
    resume p b = (Text.replacement :: (start b).1, (start b).2) := by
  rw [resume, if_neg (by simpa using h)]

/-- The sequence that is open behind a byte is continued by tails. -/
theorem expectsTail_step (state : Option Partial) (b : UInt8) : ExpectsTail (step state b).2 := by
  cases state with
  | none => exact expectsTail_start b
  | some p =>
    rw [step]
    by_cases hrange : p.low ≤ b ∧ b ≤ p.high
    · rw [resume, if_pos (by simpa using hrange)]
      dsimp only
      split_ifs <;> simp [ExpectsTail]
    · rw [resume_of_not hrange]
      exact expectsTail_start b

/-- A character does not begin with a tail. -/
theorem exists_encodeChar_eq (c : Char) :
    ∃ b rest, String.utf8EncodeChar c = b :: rest ∧ ¬ IsTail b := by
  have hvalid : c.val.toNat < 0xD800 ∨ 0xDFFF < c.val.toNat ∧ c.val.toNat < 0x110000 := c.valid
  have not_tail {n : Nat} (h : n < 256) (hn : n < 0x80 ∨ 0xBF < n) : ¬ IsTail (UInt8.ofNat n) := by
    have hbyte : (UInt8.ofNat n).toNat = n := UInt8.toNat_ofNat_of_lt' h
    rw [IsTail, UInt8.le_iff_toNat_le, UInt8.le_iff_toNat_le, hbyte]
    simp only [UInt8.reduceToNat]
    omega
  rw [String.utf8EncodeChar.eq_1]
  split_ifs <;> exact ⟨_, _, rfl, not_tail (by omega) (by omega)⟩

/-- The bytes of a character read as that character, whatever stands before and behind them: a
sequence that is still open is cut off by the first of them. -/
theorem decodeFrom_append_encodeChar {state : Option Partial} (hstate : ExpectsTail state)
    (bytes : List UInt8) (c : Char) (rest : List UInt8) :
    decodeFrom state (bytes ++ (String.utf8EncodeChar c ++ rest)) =
      decodeFrom state bytes ++ c :: decodeFrom none rest := by
  induction bytes generalizing state with
  | nil =>
    cases state with
    | none => exact decodeFrom_encodeChar c rest
    | some p =>
      obtain ⟨b, more, hc, hb⟩ := exists_encodeChar_eq c
      obtain ⟨hlow, hhigh⟩ := hstate p rfl
      have hrange : ¬ (p.low ≤ b ∧ b ≤ p.high) := fun h =>
        hb ⟨UInt8.le_trans hlow h.1, UInt8.le_trans h.2 hhigh⟩
      have hread := decodeFrom_encodeChar c rest
      rw [hc, List.cons_append, decodeFrom_cons, step] at hread
      rw [List.nil_append, hc, List.cons_append, decodeFrom_cons, step, resume_of_not hrange,
        List.cons_append, hread]
      rfl
  | cons b more ih =>
    rw [List.cons_append, decodeFrom_cons, decodeFrom_cons, ih (expectsTail_step state b),
      List.append_assoc]

/-- Characters are written one after the other. -/
theorem encode_cons (c : Char) (cs : List Char) :
    encode (c :: cs) = String.utf8EncodeChar c ++ encode cs :=
  List.flatMap_cons

/-- The bytes of two lists of characters one after the other. -/
theorem encode_append (cs ds : List Char) : encode (cs ++ ds) = encode cs ++ encode ds :=
  List.flatMap_append

/-- The bytes of some characters read as those characters. -/
theorem decode_encode (cs : List Char) : decode (encode cs) = cs := by
  rw [decode]
  induction cs with
  | nil => rfl
  | cons c rest ih => rw [encode_cons, decodeFrom_encodeChar, ih]

/-- The byte order mark. -/
def mark : Char := '\uFEFF'

/-- The characters behind a byte order mark at the start, if there is one. -/
def afterMark : List Char → List Char
  | [] => []
  | c :: rest => if c = mark then rest else c :: rest

/-- Bytes lose a byte order mark only if they begin with one. -/
theorem dropMark_eq (bytes : List UInt8) :
    dropMark bytes = bytes ∨ bytes = String.utf8EncodeChar mark ++ dropMark bytes := by
  rw [dropMark.eq_def]
  split
  · exact .inr rfl
  · exact .inl rfl

/-- Bytes begin with a byte order mark. -/
def Marked (bytes : List UInt8) : Prop := String.utf8EncodeChar mark <+: bytes

/-- Bytes that do not begin with a byte order mark stay as they are. -/
theorem dropMark_of_not_marked {bytes : List UInt8} (h : ¬ Marked bytes) : dropMark bytes = bytes :=
  (dropMark_eq bytes).resolve_right fun hmark => h ⟨_, hmark.symm⟩

/-- Bytes and another character behind them do not begin with a byte order mark if the bytes do
not. -/
theorem not_marked_append {bytes : List UInt8} {c : Char} (hbytes : ¬ Marked bytes) (hc : c ≠ mark)
    (rest : List UInt8) : ¬ Marked (bytes ++ (String.utf8EncodeChar c ++ rest)) := by
  intro hmarked
  have hprefix : String.utf8EncodeChar mark <+: bytes ++ (String.utf8EncodeChar c ++ rest) :=
    hmarked
  obtain h | ⟨more, hmore⟩ := List.prefix_or_prefix_of_prefix hprefix (List.prefix_append bytes _)
  · exact hbytes h
  rw [← hmore, List.prefix_append_right_inj] at hprefix
  obtain ⟨others, hothers⟩ := hprefix
  cases bytes with
  | nil =>
    rw [List.nil_append] at hmore
    have hread := congrArg (decodeFrom none) hothers
    rw [hmore, decodeFrom_encodeChar, decodeFrom_encodeChar] at hread
    exact hc (List.cons_eq_cons.1 hread).1.symm
  | cons b front =>
    -- The mark would have to end with the beginning of the character, but it ends with tails.
    have htails : ∀ b ∈ (String.utf8EncodeChar mark).tail, 0x80 ≤ b ∧ b ≤ 0xBF := by
      decide +kernel
    rw [← hmore, List.cons_append, List.tail_cons] at htails
    obtain ⟨first, after, hfirst, hnot⟩ := exists_encodeChar_eq c
    cases more with
    | nil =>
      rw [List.append_nil] at hmore
      exact hbytes (hmore ▸ List.prefix_refl _)
    | cons x more =>
      rw [hfirst, List.cons_append, List.cons_append] at hothers
      obtain rfl : x = first := (List.cons_eq_cons.1 hothers).1
      exact hnot (htails x (List.mem_append_right _ List.mem_cons_self))

/-- The bytes of some characters lose a byte order mark exactly if the characters begin with it. -/
theorem dropMark_encode (cs : List Char) : dropMark (encode cs) = encode (afterMark cs) := by
  cases cs with
  | nil => rfl
  | cons c rest =>
    rw [afterMark]
    split_ifs with h
    · rw [h]
      rfl
    · rcases dropMark_eq (encode (c :: rest)) with hkept | hmark
      · exact hkept
      · -- What begins with the bytes of the mark reads as the mark.
        have hread := congrArg (decodeFrom none) hmark
        rw [encode_cons, decodeFrom_encodeChar, decodeFrom_encodeChar] at hread
        exact absurd (List.cons_eq_cons.1 hread).1 h

end Utf8

end UriRouting
