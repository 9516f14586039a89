import Playable.Text.Basic

/-!
# Lines

A line ends at a line feed, a carriage return (with the line feed behind it, if
any), a vertical tabulator, a form feed, one of three information separators, or
one of the line and paragraph separators. The last line needs no end.
-/

namespace Playable.Text

/-- A character that ends a line. -/
def endsLine (c : Char) : Bool :=
  (10 ≤ c.toNat && c.toNat ≤ 13) || (28 ≤ c.toNat && c.toNat ≤ 30) || c.toNat = 133 ||
    c.toNat = 8232 || c.toNat = 8233

/-- The lines of a text without their ends, given the line read so far in
reverse. -/
def linesFrom (current : Text) : Text → List Text
  | [] => if current.isEmpty then [] else [current.reverse]
  | '\r' :: '\n' :: rest => current.reverse :: linesFrom [] rest
  | c :: rest =>
    if endsLine c then current.reverse :: linesFrom [] rest
    else linesFrom (c :: current) rest

/-- The lines of a text without their ends. -/
def lines (t : Text) : List Text :=
  linesFrom [] t

end Playable.Text
