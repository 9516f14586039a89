import Playable.Pattern.Basic

/-!
# Searching with patterns

A search tries the places of a text from left to right and takes the preferred
match at the first place that has one. Searching for all matches goes on behind
each match, or one character further when the match is empty. A match is given by
the place where it ends, which carries what the labelled parts matched and the
text that follows.
-/

namespace Playable.Pattern

/-- The preferred match at a place. -/
def matchAt? (p : Pattern) (c : Cursor) : Option Cursor :=
  (p.run c).head?

/-- Whether a pattern can match a whole text. -/
def matchesAll (p : Pattern) (t : Text) : Bool :=
  (p.run (Cursor.start t)).any (·.rest.isEmpty)

/-- The leftmost match from a place on. -/
def findFrom? (p : Pattern) (pos : Nat) (before : Option Char) : Text → Option Cursor
  | [] => p.matchAt? ⟨pos, before, [], []⟩
  | c :: rest =>
    match p.matchAt? ⟨pos, before, c :: rest, []⟩ with
    | some m => some m
    | none => findFrom? p (pos + 1) (some c) rest

/-- The leftmost match in a text. -/
def find? (p : Pattern) (t : Text) : Option Cursor :=
  findFrom? p 0 none t

/-- The matches from a place on that start at position `resume` or later and do
not overlap. -/
def findAllFrom (p : Pattern) (resume pos : Nat) (before : Option Char) : Text → List Cursor
  | [] => if pos < resume then [] else (p.matchAt? ⟨pos, before, [], []⟩).toList
  | c :: rest =>
    if pos < resume then findAllFrom p resume (pos + 1) (some c) rest
    else match p.matchAt? ⟨pos, before, c :: rest, []⟩ with
      | some m => m :: findAllFrom p (max m.pos (pos + 1)) (pos + 1) (some c) rest
      | none => findAllFrom p resume (pos + 1) (some c) rest

/-- All matches in a text that do not overlap, from left to right. -/
def findAll (p : Pattern) (t : Text) : List Cursor :=
  findAllFrom p 0 0 none t

end Playable.Pattern
