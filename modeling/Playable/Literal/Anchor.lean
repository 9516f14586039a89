import Playable.Literal.Scan
import Playable.Pattern.Search

/-!
# Literals behind an anchor

Pages embed their data behind known anchors. The anchors are tried in order, and
for each of them its matches from left to right; the first match with a literal
right behind it wins.
-/

namespace Playable.Literal

/-- The literal behind the first match of an anchor that has one. -/
def readBehind? (anchors : List Pattern) (t : Text) : Option Text :=
  anchors.findSome? fun anchor => (anchor.findAll t).findSome? fun m => read? m.rest

/-- The anchors of the player response embedded in a watch page. -/
def playerResponseAnchors : List Pattern :=
  [Pattern.lit "window[" ++ Pattern.anyOf "'\"" ++ Pattern.lit "ytInitialPlayerResponse"
      ++ Pattern.anyOf "'\"" ++ Pattern.lit "]" ++ Pattern.blanks ++ Pattern.lit "="
      ++ Pattern.blanks,
    Pattern.lit "ytInitialPlayerResponse" ++ Pattern.blanks ++ Pattern.lit "="
      ++ Pattern.blanks]

/-- The player response embedded in a watch page, as text. -/
def playerResponse? (page : Text) : Option Text :=
  readBehind? playerResponseAnchors page

end Playable.Literal
