/-!
# Text

A text is a list of characters, so offsets and lengths count code points. This
module holds the operations that need no knowledge of character classes:
trimming by a predicate, cutting at a separator, joining, and replacing one
character sequence by another. Trimming and cutting work on lists of anything that
can be compared.
-/

namespace Playable

/-- A text is the list of its characters. -/
abbrev Text := List Char

namespace Text

variable {α : Type}

/-- Drop the characters that satisfy `p` from both ends. -/
def trim (p : α → Bool) (t : List α) : List α :=
  ((t.dropWhile p).reverse.dropWhile p).reverse

/-- Cut at every occurrence of a separator; a text without it is one piece. -/
def split [DecidableEq α] (sep : α) (t : List α) : List (List α) :=
  t.foldr (fun c pieces =>
    if c = sep then [] :: pieces
    else match pieces with
      | [] => [[c]]
      | piece :: more => (c :: piece) :: more) [[]]

/-- Concatenate with a separator between neighbours. -/
def join (sep : List α) : List (List α) → List α
  | [] => []
  | [t] => t
  | t :: more => t ++ sep ++ join sep more

/-- The part before the first separator, and the part after it if there is one. -/
def cutFirst [DecidableEq α] (sep : α) (t : List α) : List α × Option (List α) :=
  match t.dropWhile (· ≠ sep) with
  | [] => (t, none)
  | _ :: after => (t.takeWhile (· ≠ sep), some after)

/-- The rest of a text behind a given beginning. -/
def after? (beginning : Text) (t : Text) : Option Text :=
  if beginning.isPrefixOf t then some (t.drop beginning.length) else none

/-- Replace every pair of neighbouring characters `a b` by `b`, from left to right. -/
def dropBefore (a b : Char) : Text → Text
  | [] => []
  | c :: rest =>
    if c = a ∧ rest.head? = some b then dropBefore a b rest
    else c :: dropBefore a b rest

/-- The lower-case form of an ASCII letter; any other character is kept. -/
def lowerAscii (t : Text) : Text :=
  t.map Char.toLower

/-- Whether a text is one of several. -/
def isOneOf (ts : List Text) (t : Text) : Bool :=
  ts.any (· = t)

/-- Whether a code point lies in one of a list of closed ranges. -/
def inRanges (ranges : List (Nat × Nat)) (c : Char) : Bool :=
  ranges.any fun r => r.1 ≤ c.toNat && c.toNat ≤ r.2

/-- The decimal digits of a natural number. -/
def ofNat (n : Nat) : Text :=
  Nat.toDigits 10 n

/-- The decimal digits of an integer, behind a minus sign if it is negative. -/
def ofInt : Int → Text
  | .ofNat n => ofNat n
  | .negSucc n => '-' :: ofNat (n + 1)

end Text
end Playable
