import UriRouting.Component.Escape
import UriRouting.Component.Kind

/-!
# Percent-encoding of component values

`encode` writes a value so that it can stand in a component: an allowed character is written as it
is, every other one as the escapes of its UTF-8 bytes, and a space in a query parameter as a plus
sign. `contextualEncode` does the same but leaves the escapes that the value already holds alone.
`decode` reads a component back: each run of neighbouring escapes is read as UTF-8 on its own.
`isEncoded` tells whether a value could stand in the component as it is.
-/

namespace UriRouting

open scoped CodeUnit

namespace Component

/-- Why a value cannot be encoded or decoded. -/
inductive EncodingError where
  /-- The value holds half of a surrogate pair at the position. -/
  | unpairedSurrogate (index : Nat) (value : Text)
  /-- A percent sign at the position begins no escape. -/
  | malformedEscape (index : Nat) (value : Text)

/-- The report of an encoding error. -/
def EncodingError.message : EncodingError → Text
  | unpairedSurrogate index value =>
    "Unpaired surrogate at index " ++ Text.ofNat index ++ " in \"" ++ value ++ "\""
  | malformedEscape index value =>
    "Malformed escape sequence at index " ++ Text.ofNat index ++ " in \"" ++ value ++ "\""

/-- What a character is written as in a component. -/
def code (k : Component) (c : Char) : Text :=
  if k.allows c then Text.unitsOf c
  else if c = ' ' ∧ k = queryParam then ['+']
  else Escape.ofChar c

/-- Encode every character that a component does not allow. -/
def encode (k : Component) (value : Text) : Except EncodingError Text :=
  match value.firstUnpaired with
  | some index => .error (.unpairedSurrogate index value)
  | none => .ok (value.toChars.flatMap k.code)

/-- What an item of a value is written as when escapes are kept. -/
def contextualCode (k : Component) : Escape.Item → Text
  | .escape high low => ['%', high, low]
  | .char c => k.code c
  | .unpaired u => [u]

/-- Encode every character that a component does not allow, except those of valid escapes. -/
def contextualEncode (k : Component) (value : Text) : Except EncodingError Text :=
  match value.firstUnpaired with
  | some index => .error (.unpairedSurrogate index value)
  | none => .ok ((Escape.items value).flatMap k.contextualCode)

/-- The text of a run of escaped bytes; a byte order mark at its start is dropped. -/
def runText (bytes : List UInt8) : Text := Text.ofChars (Utf8.decode (Utf8.dropMark bytes))

/-- What a character between escapes reads as. -/
def plainText (k : Component) (c : Char) : Text :=
  if c = '+' ∧ k = queryParam then [' '] else Text.unitsOf c

/-- Read items while a run of bytes is open, the latest byte first. -/
def decodeItems (k : Component) (run : List UInt8) : List Escape.Item → Text
  | [] => runText run.reverse
  | .escape high low :: rest => decodeItems k (Escape.byte high low :: run) rest
  | .char c :: rest => runText run.reverse ++ k.plainText c ++ decodeItems k [] rest
  | .unpaired u :: rest => runText run.reverse ++ u :: decodeItems k [] rest

/-- Read the escapes of a component, and the plus signs of a query parameter. -/
def decode (k : Component) (value : Text) : Except EncodingError Text :=
  match Escape.firstStray (Escape.items value) with
  | some index => .error (.malformedEscape index value)
  | none => .ok (k.decodeItems [] (Escape.items value))

/-- Whether a component allows the character of a unit; half of a surrogate pair is none. -/
def allowsUnit (k : Component) (u : CodeUnit) : Bool :=
  !CodeUnit.isSurrogate u && k.allows (Char.ofNat u.toNat)

/-- Whether every unit of a value is allowed in a component or part of an escape. -/
def isEncoded (k : Component) : Text → Bool
  | [] => true
  | [u] => k.allowsUnit u
  | [u, v] => k.allowsUnit u && k.allowsUnit v
  | u :: v :: w :: rest =>
    if Escape.isEscape u v w then k.isEncoded rest
    else k.allowsUnit u && k.isEncoded (v :: w :: rest)

end Component

end UriRouting
