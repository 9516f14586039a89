import Playable.Pattern.Search
import Playable.Text.Quoted

/-!
# Video ids

A video id has eleven characters. It is given bare, or inside one of the usual
kinds of URL, where it follows a parameter name or a path element.
-/

namespace Playable.Page

open Pattern

/-- A character of a video id. -/
def isIdChar (c : Char) : Bool :=
  c.isAlphanum || c = '_' || c = '-'

/-- The number of characters of a video id. -/
def idLength : Nat :=
  11

/-- Whether a text is a video id, perhaps with a line end behind it. -/
def isBareId (t : Text) : Bool :=
  let (id, rest) := t.splitAt idLength
  id.length = idLength && id.all isIdChar && (rest = [] || rest = ['\n'])

/-- A given number of characters of a class. -/
def times (n : Nat) (p : Char → Bool) : Pattern :=
  match n with
  | 0 => lit ""
  | n + 1 => one p ++ times n p

/-- A video id behind one of the given texts. -/
def idBehind (marks : List String) : Pattern :=
  let mark := marks.foldr (fun m more => either (lit m) more) (one fun _ => false)
  mark ++ label "id" (times idLength isIdChar)

/-- The places where a URL holds a video id: behind a parameter name, or else behind
a path element. -/
def idShapes : List Pattern :=
  [idBehind ["v=", "vi="], idBehind ["youtu.be/", "/embed/", "/shorts/", "/live/", "/v/"]]

/-- Why no video id is read. -/
inductive VideoIdError where
  /-- A URL holds none. -/
  | notFound (url : Text)
  /-- A text that should be one is none. -/
  | notAnId (t : Text)
  deriving DecidableEq, Repr

/-- The wording for a missing video id. -/
def VideoIdError.message : VideoIdError → Text
  | notFound url => "Could not find a video id in ".toList ++ url
  | notAnId t => Text.quoted t ++ " is not a valid video id".toList

/-- The video id in a URL, or a bare video id. -/
def videoIdOf (url : Text) : Except VideoIdError Text :=
  let url := Text.strip url
  if isBareId url then .ok url
  else match idShapes.findSome? (·.find? url) with
    | some m => .ok (m.capture "id")
    | none => .error (.notFound url)

/-- A text that is expected to be a video id. -/
def checkVideoId (t : Text) : Except VideoIdError Text :=
  if isBareId t then .ok t else .error (.notAnId t)

end Playable.Page
