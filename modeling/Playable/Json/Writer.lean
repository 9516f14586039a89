import Playable.Json.Value
import Playable.Number.Shortest
import Playable.Text.Digit

/-!
# Writing structured values

The writer uses ASCII alone: every other character is escaped by its code units.
A comma or a colon is followed by one space.
-/

namespace Playable.Json

/-- The escape of one code unit. -/
def unitEscape (n : Nat) : Text :=
  '\\' :: 'u' :: Text.hexDigits 4 n

/-- One character inside a string. -/
def writeChar (c : Char) : Text :=
  if c = '"' then ['\\', '"']
  else if c = '\\' then ['\\', '\\']
  else if c = '\n' then ['\\', 'n']
  else if c = '\r' then ['\\', 'r']
  else if c = '\t' then ['\\', 't']
  else if c = '\x08' then ['\\', 'b']
  else if c = '\x0c' then ['\\', 'f']
  else if 32 ≤ c.toNat ∧ c.toNat < 127 then [c]
  else if c.toNat < 0x10000 then unitEscape c.toNat
  else unitEscape (0xD800 + (c.toNat - 0x10000) / 0x400)
    ++ unitEscape (0xDC00 + (c.toNat - 0x10000) % 0x400)

/-- One code point inside a string. -/
def writeCodePoint : CodePoint → Text
  | .char c => writeChar c
  | .half n => unitEscape (0xD800 + n)

/-- A text as a string. -/
def writeText (t : Text) : Text :=
  '"' :: t.flatMap writeChar ++ ['"']

/-- A raw text as a string. -/
def writeRaw (t : RawText) : Text :=
  '"' :: t.flatMap writeCodePoint ++ ['"']

mutual

/-- A value as text. A number of the binary format is written with the fewest digits
that read back. -/
def write : Value → Text
  | .null => "null".toList
  | .bool true => "true".toList
  | .bool false => "false".toList
  | .int i => Text.ofInt i
  | .float x => Number.decimalText x
  | .text t => writeText t
  | .broken t => writeRaw t.codePoints
  | .list values => '[' :: writeItems values ++ [']']
  | .object fields => '{' :: writeFields fields ++ ['}']

/-- The items of a list, with a comma and a space between them. -/
def writeItems : List Value → Text
  | [] => []
  | [v] => write v
  | v :: more => write v ++ ',' :: ' ' :: writeItems more

/-- The fields of an object, with a comma and a space between them. -/
def writeFields : Fields → Text
  | [] => []
  | [(name, v)] => writeText name ++ ':' :: ' ' :: write v
  | (name, v) :: more =>
    writeText name ++ ':' :: ' ' :: write v ++ ',' :: ' ' :: writeFields more

end

end Playable.Json
