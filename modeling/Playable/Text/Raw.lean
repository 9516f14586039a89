import Playable.Text.Digit
import Playable.Text.Utf8

/-!
# Raw text

An escape can spell half of a surrogate pair without the other half. Such a half is a
code point, but it is no character and has no octets. A raw text may hold it: it is cut
and turned around like any other text, and only when it has to be encoded is it refused.
-/

namespace Playable

/-- A code point. -/
inductive CodePoint where
  /-- A character. -/
  | char (c : Char)
  /-- Half of a surrogate pair, by its place among the halves. -/
  | half (n : Fin 0x800)
  deriving DecidableEq, Repr

namespace CodePoint

/-- Whether a code point is a character with a property. -/
def isChar (p : Char → Bool) : CodePoint → Bool
  | char c => p c
  | half _ => false

/-- Whether a code point is half of a surrogate pair. -/
def isHalf : CodePoint → Bool
  | char _ => false
  | half _ => true

/-- The code point as a character; the replacement character stands for a half. -/
def toChar : CodePoint → Char
  | char c => c
  | half _ => Text.replacementChar

end CodePoint

/-- A text that may hold halves of surrogate pairs. -/
abbrev RawText := List CodePoint

/-- A text as a raw text. -/
def Text.raw (t : Text) : RawText :=
  t.map .char

/-- The halves of surrogate pairs that keep a text from being encoded: those that stand
side by side where the first one stands. -/
structure EncodingError where
  /-- The first half. -/
  half : Fin 0x800
  /-- How many characters stand in front of it. -/
  place : Nat
  /-- How many halves stand side by side there. -/
  count : Nat
  deriving DecidableEq, Repr

/-- The wording for a text that cannot be encoded. -/
def EncodingError.message (e : EncodingError) : Text :=
  "'utf-8' codec can't encode character".toList ++
    (if e.count = 1 then
      " '\\u".toList ++ Text.hexDigits 4 (0xD800 + e.half) ++ "' in position ".toList ++
        Text.ofNat e.place
    else
      "s in position ".toList ++ Text.ofNat e.place ++ '-' ::
        Text.ofNat (e.place + e.count - 1)) ++
    ": surrogates not allowed".toList

namespace RawText

/-- A raw text as text; the replacement character stands for each half. -/
def toText (t : RawText) : Text :=
  t.map CodePoint.toChar

/-- The characters of a raw text without halves, where `place` characters stand in front. -/
def charactersFrom (place : Nat) : RawText → Except EncodingError Text
  | [] => .ok []
  | .char c :: rest => (charactersFrom (place + 1) rest).map (c :: ·)
  | .half n :: rest => .error ⟨n, place, (rest.takeWhile CodePoint.isHalf).length + 1⟩

/-- The characters of a raw text, which can be encoded only if it holds no half. -/
def characters (t : RawText) : Except EncodingError Text :=
  charactersFrom 0 t

end RawText

/-- A raw text that cannot be encoded. -/
structure BrokenText where
  /-- The code points of the text. -/
  codePoints : RawText
  /-- There is half of a surrogate pair among them. -/
  broken : codePoints.characters.isOk = false

end Playable
