import Playable.Pattern.Search
import Playable.Settings
import Playable.Url.Join

/-!
# The player script of a page

A watch page refers to the script of its player, as the value of one of two keys
or as a bare path. The path of the script names the player version.
-/

namespace Playable.Page

open Pattern

/-- A character of a path element. -/
def isElementChar (c : Char) : Bool :=
  Text.isWord c || c = '-'

/-- A quoted value behind a quoted key. -/
def keyedValue (key : String) : Pattern :=
  lit "\"" ++ lit key ++ lit "\"" ++ blanks ++ lit ":" ++ blanks ++ lit "\""
    ++ label "url" (someBut "\"") ++ lit "\""

/-- The places where a page refers to its player script. -/
def scriptShapes : List Pattern :=
  [keyedValue "jsUrl", keyedValue "PLAYER_JS_URL",
    label "url" (lit "/s/player/" ++ some1 isElementChar ++ lit "/"
      ++ some1 (fun c => isElementChar c || c = '.' || c = '/') ++ lit "/base.js")]

/-- The URL of the player script that a page refers to, if it does. Slashes may be
escaped. -/
def scriptUrl? (page : Text) : Except Url.UrlError (Option Text) :=
  match scriptShapes.findSome? (·.find? page) with
  | none => .ok none
  | some m =>
    (Url.join Settings.origin (Text.dropBefore '\\' '/' (m.capture "url"))).map some

/-- The player version in the URL of a script; the whole URL if it names none. -/
def playerId (url : Text) : Text :=
  match (lit "/s/player/" ++ label "id" (some1 isElementChar) ++ lit "/").find? url with
  | some m => m.capture "id"
  | none => url

end Playable.Page
