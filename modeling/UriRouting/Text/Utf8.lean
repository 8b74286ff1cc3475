import UriRouting.Text.Basic

/-!
# UTF-8

`Utf8.encode` writes characters as bytes. `Utf8.decode` reads any bytes: where they are ill-formed,
each maximal start of a well-formed sequence, and each byte that starts none, reads as one
replacement character. The decoder is a machine that remembers the sequence it is in the middle of.
-/

namespace UriRouting

namespace Utf8

/-- The UTF-8 bytes of a list of characters. -/
def encode (cs : List Char) : List UInt8 := cs.flatMap String.utf8EncodeChar

/-- A sequence that has begun: the bits read so far, how many bytes it still needs, and the range
in which the next one has to lie. -/
structure Partial where
  bits : Nat
  needed : Nat
  low : UInt8
  high : UInt8

/-- Read a byte that begins a sequence: what it completes, and the sequence it opens. -/
def start (b : UInt8) : List Char × Option Partial :=
  if b < 0x80 then ([Char.ofNat b.toNat], none)
  else if b < 0xC2 then ([Text.replacement], none)
  else if b < 0xE0 then ([], some ⟨b.toNat - 0xC0, 1, 0x80, 0xBF⟩)
  else if b < 0xF0 then
    ([], some ⟨b.toNat - 0xE0, 2, if b = 0xE0 then 0xA0 else 0x80, if b = 0xED then 0x9F else 0xBF⟩)
  else if b < 0xF5 then
    ([], some ⟨b.toNat - 0xF0, 3, if b = 0xF0 then 0x90 else 0x80, if b = 0xF4 then 0x8F else 0xBF⟩)
  else ([Text.replacement], none)

/-- Read a byte in the middle of a sequence. A byte outside the expected range ends the sequence
with one replacement character and begins the next. -/
def resume (p : Partial) (b : UInt8) : List Char × Option Partial :=
  if p.low ≤ b && b ≤ p.high then
    let bits := p.bits * 0x40 + (b.toNat - 0x80)
    if p.needed = 1 then ([Char.ofNat bits], none) else ([], some ⟨bits, p.needed - 1, 0x80, 0xBF⟩)
  else
    let (out, next) := start b
    (Text.replacement :: out, next)

/-- Read one byte in any state. -/
def step : Option Partial → UInt8 → List Char × Option Partial
  | none, b => start b
  | some p, b => resume p b

/-- Read the bytes that follow a state; a sequence cut off by the end is replaced. -/
def decodeFrom : Option Partial → List UInt8 → List Char
  | none, [] => []
  | some _, [] => [Text.replacement]
  | state, b :: rest =>
    let (out, next) := step state b
    out ++ decodeFrom next rest

/-- The characters that the bytes stand for. -/
def decode (bytes : List UInt8) : List Char := decodeFrom none bytes

/-- Drop one leading byte order mark. -/
def dropMark : List UInt8 → List UInt8
  | 0xEF :: 0xBB :: 0xBF :: rest => rest
  | bytes => bytes

end Utf8

end UriRouting
