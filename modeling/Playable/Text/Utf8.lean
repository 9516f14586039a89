import Playable.Text.Basic

/-!
# Octets of text

The octets of a character, and the reading of octets as text. Octets that form
no character are not lost silently: each longest beginning of a character that
is not completed becomes one replacement character.
-/

namespace Playable.Text

/-- The character that stands for octets that form no character. -/
def replacementChar : Char :=
  Char.ofNat 0xFFFD

/-- The octets of one character, as numbers below 256. -/
def utf8Char (c : Char) : List Nat :=
  let n := c.toNat
  if n < 0x80 then [n]
  else if n < 0x800 then [0xC0 + n / 64, 0x80 + n % 64]
  else if n < 0x10000 then [0xE0 + n / 4096, 0x80 + n / 64 % 64, 0x80 + n % 64]
  else [0xF0 + n / 262144, 0x80 + n / 4096 % 64, 0x80 + n / 64 % 64, 0x80 + n % 64]

/-- The octets of a text. -/
def utf8 (t : Text) : List Nat :=
  t.flatMap utf8Char

/-- What the first octet of a character announces. -/
structure LeadOctet where
  /-- How many octets follow. -/
  following : Nat
  /-- The bits of the character that the first octet holds. -/
  bits : Nat
  /-- The least value of the second octet. -/
  low : Nat
  /-- The greatest value of the second octet. -/
  high : Nat

/-- Read a first octet; `none` for an octet that starts no character. -/
def LeadOctet.of? (b : Nat) : Option LeadOctet :=
  if b < 0x80 then some ⟨0, b, 0, 0⟩
  else if b < 0xC2 then none
  else if b < 0xE0 then some ⟨1, b - 0xC0, 0x80, 0xBF⟩
  else if b = 0xE0 then some ⟨2, 0, 0xA0, 0xBF⟩
  else if b = 0xED then some ⟨2, 0xD, 0x80, 0x9F⟩
  else if b < 0xF0 then some ⟨2, b - 0xE0, 0x80, 0xBF⟩
  else if b = 0xF0 then some ⟨3, 0, 0x90, 0xBF⟩
  else if b < 0xF4 then some ⟨3, b - 0xF0, 0x80, 0xBF⟩
  else if b = 0xF4 then some ⟨3, 4, 0x80, 0x8F⟩
  else none

/-- Read octets as text. `owed` octets are still missing from the current
character, whose bits so far are `bits`; the next octet must lie between `low`
and `high`. -/
def decodeFrom (owed bits low high : Nat) : List Nat → Text
  | [] => if owed = 0 then [] else [replacementChar]
  | b :: rest =>
    if 0 < owed ∧ low ≤ b ∧ b ≤ high then
      if owed = 1 then Char.ofNat (bits * 64 + (b - 0x80)) :: decodeFrom 0 0 0 0 rest
      else decodeFrom (owed - 1) (bits * 64 + (b - 0x80)) 0x80 0xBF rest
    else
      let broken := if owed = 0 then [] else [replacementChar]
      match LeadOctet.of? b with
      | none => broken ++ replacementChar :: decodeFrom 0 0 0 0 rest
      | some lead =>
        if lead.following = 0 then broken ++ Char.ofNat lead.bits :: decodeFrom 0 0 0 0 rest
        else broken ++ decodeFrom lead.following lead.bits lead.low lead.high rest

/-- The text that octets spell, with a replacement character for each sequence
that spells none. -/
def ofUtf8 (octets : List Nat) : Text :=
  decodeFrom 0 0 0 0 octets

end Playable.Text
