import Playable.Text.Basic
import Playable.Text.Digit
import Playable.Text.Printable

/-!
# Quoted text

How messages show a text exactly. Single quotes enclose it, unless it holds a
single quote and no double quote. The enclosing quote and the backslash are
escaped, line ends and tabulators have short escapes, and every other character
that is not printable is written by its code point.
-/

namespace Playable.Text

/-- The quote that encloses a text. -/
def enclosingQuote (t : Text) : Char :=
  if '\'' ∈ t ∧ '"' ∉ t then '"' else '\''

/-- One character inside a quotation that is enclosed by `quote`. -/
def quoteChar (quote c : Char) : Text :=
  if c = quote ∨ c = '\\' then ['\\', c]
  else if c = '\n' then ['\\', 'n']
  else if c = '\r' then ['\\', 'r']
  else if c = '\t' then ['\\', 't']
  else if isPrintable c then [c]
  else if c.toNat < 0x100 then '\\' :: 'x' :: hexDigits 2 c.toNat
  else if c.toNat < 0x10000 then '\\' :: 'u' :: hexDigits 4 c.toNat
  else '\\' :: 'U' :: hexDigits 8 c.toNat

/-- A text between quotes. -/
def quoted (t : Text) : Text :=
  let quote := enclosingQuote t
  quote :: t.flatMap (quoteChar quote) ++ [quote]

/-- A list of texts, each quoted, in brackets. -/
def quotedList (ts : List Text) : Text :=
  '[' :: join [',', ' '] (ts.map quoted) ++ [']']

end Playable.Text
