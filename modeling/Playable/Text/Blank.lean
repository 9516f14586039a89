import Playable.Text.Basic

/-!
# Blank characters

Which characters count as white space. Two sets occur in this library: the
blanks of running text, which include the four information separators, and the
smaller set of characters with the `White_Space` property, which is used where
numbers of records are read.
-/

namespace Playable.Text

/-- The blank characters outside ASCII. -/
def wideBlanks : List (Nat × Nat) :=
  [(133, 133), (160, 160), (5760, 5760), (8192, 8202), (8232, 8233), (8239, 8239),
    (8287, 8287), (12288, 12288)]

/-- A blank of running text: tabulators, line ends, the information separators,
the space, and the wide spaces of other scripts. -/
def isBlank (c : Char) : Bool :=
  (9 ≤ c.toNat && c.toNat ≤ 13) || (28 ≤ c.toNat && c.toNat ≤ 32) ||
    (128 ≤ c.toNat && inRanges wideBlanks c)

/-- A character with the `White_Space` property: a blank that is no information
separator. -/
def isWhiteSpace (c : Char) : Bool :=
  isBlank c && !(28 ≤ c.toNat && c.toNat ≤ 31)

/-- Drop the blanks at both ends. -/
def strip (t : Text) : Text :=
  trim isBlank t

end Playable.Text
