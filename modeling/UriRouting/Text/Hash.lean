import UriRouting.Number.Basic
import UriRouting.Text.Basic

/-!
# Hashes of texts

The hash of a text is the polynomial of its units with base 31, of which a signed 32-bit word is
kept. Each step multiplies two words and adds the next unit to the product as a number; of the sum a
word is kept again.
-/

namespace UriRouting

namespace Text

/-- The sum of one step: 31 times the word so far, kept to 32 bits, and the next unit. -/
def hashSum (word : Int32) (u : CodeUnit) : Number :=
  (Number.ofInt (31 * word).toInt).add (Number.ofInt u.toNat)

/-- The word after one more unit. -/
def hashStep (word : Int32) (u : CodeUnit) : Int32 := (hashSum word u).toInt32

/-- The hash of a text as a word. -/
def hashWord (t : Text) : Int32 := t.foldl hashStep 0

/-- The polynomial hash with base 31, kept to 32 bits and read as a signed number. -/
def hash (t : Text) : Int := t.hashWord.toInt

end Text

end UriRouting
