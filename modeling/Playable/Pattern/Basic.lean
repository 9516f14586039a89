import Playable.Text.Blank
import Playable.Text.Word

/-!
# Patterns

Patterns describe how a piece of text may look, and are values that can be built
and reasoned about. Reading a pattern at a place of a text gives every way to
match it there, the preferred one first: a repetition prefers to take more, a
choice prefers its left side, an optional part prefers to be present. The first
way is the match.
-/

namespace Playable

/-- What a labelled part of a pattern matched. -/
structure Capture where
  /-- The text from where the part begins. -/
  origin : Text
  /-- How many characters it took. -/
  length : Nat

/-- The matched text. -/
def Capture.text (m : Capture) : Text :=
  m.origin.take m.length

/-- A place in a text on the way through a match. -/
structure Cursor where
  /-- The number of characters in front of this place. -/
  pos : Nat
  /-- The character right in front of this place. -/
  before : Option Char
  /-- The text behind this place. -/
  rest : Text
  /-- What the labelled parts matched so far, the latest first. -/
  captures : List (String × Capture)

namespace Cursor

/-- The place at the start of a text. -/
def start (t : Text) : Cursor :=
  ⟨0, none, t, []⟩

/-- What a labelled part matched, if it took part in the match. -/
def capture? (c : Cursor) (name : String) : Option Text :=
  (c.captures.lookup name).map Capture.text

/-- What a labelled part matched; empty if it took no part. -/
def capture (c : Cursor) (name : String) : Text :=
  (c.capture? name).getD []

end Cursor

/-- A description of how a piece of text may look. -/
inductive Pattern where
  /-- Exactly this text. -/
  | text (t : Text)
  /-- One character of a class. -/
  | one (p : Char → Bool)
  /-- Any number of characters of a class. -/
  | many (p : Char → Bool)
  /-- One part and then another. -/
  | seq (first second : Pattern)
  /-- One part, or else another. -/
  | either (left right : Pattern)
  /-- A part that may be missing. -/
  | optional (part : Pattern)
  /-- A part whose match is remembered under a name. -/
  | label (name : String) (part : Pattern)
  /-- What the part of this name matched, once more. -/
  | same (name : String)
  /-- Nothing, at the edge of a word. -/
  | wordEdge
  /-- Nothing, where the character in front is not of a class. -/
  | notAfter (p : Char → Bool)
  /-- Nothing, where the next character is of a class. -/
  | ahead (p : Char → Bool)

namespace Pattern

instance : Append Pattern := ⟨seq⟩

/-- The places reached by taking characters of a class one after the other from
here, the farthest first, in front of places already found. -/
def reach (p : Char → Bool) (captures : List (String × Capture)) (pos : Nat)
    (before : Option Char) (found : List Cursor) : Text → List Cursor
  | [] => ⟨pos, before, [], captures⟩ :: found
  | c :: rest =>
    let here := ⟨pos, before, c :: rest, captures⟩ :: found
    if p c then reach p captures (pos + 1) (some c) here rest else here

/-- Move over a given text, if it stands here. -/
def takeText (t : Text) (c : Cursor) : Option Cursor :=
  if t.isPrefixOf c.rest then
    some ⟨c.pos + t.length, t.getLast?.or c.before, c.rest.drop t.length, c.captures⟩
  else none

/-- Whether an optional character is a word character. -/
def wordAt (c : Option Char) : Bool :=
  c.any Text.isWord

/-- All ways to match a pattern at a place, the preferred one first. -/
def run : Pattern → Cursor → List Cursor
  | text t, c => (takeText t c).toList
  | one p, c =>
    match c.rest with
    | [] => []
    | x :: rest => if p x then [⟨c.pos + 1, some x, rest, c.captures⟩] else []
  | many p, c => reach p c.captures c.pos c.before [] c.rest
  | seq first second, c => (first.run c).flatMap second.run
  | either left right, c => left.run c ++ right.run c
  | optional part, c => part.run c ++ [c]
  | label name part, c => (part.run c).map fun e =>
      { e with captures := (name, ⟨c.rest, e.pos - c.pos⟩) :: e.captures }
  | same name, c =>
    match c.capture? name with
    | none => []
    | some t => (takeText t c).toList
  | wordEdge, c => if wordAt c.before = wordAt c.rest.head? then [] else [c]
  | notAfter p, c => if c.before.any p then [] else [c]
  | ahead p, c => if c.rest.head?.any p then [c] else []

/-- Exactly the characters of a string. -/
def lit (s : String) : Pattern :=
  text s.toList

/-- One character or more of a class. -/
def some1 (p : Char → Bool) : Pattern :=
  one p ++ many p

/-- Any number of blanks. -/
def blanks : Pattern :=
  many Text.isBlank

/-- One of the characters of a string. -/
def anyOf (s : String) : Pattern :=
  one (s.toList.contains ·)

/-- Any number of characters other than those of a string. -/
def manyBut (s : String) : Pattern :=
  many (!s.toList.contains ·)

/-- One character or more other than those of a string. -/
def someBut (s : String) : Pattern :=
  some1 (!s.toList.contains ·)

end Pattern
end Playable
