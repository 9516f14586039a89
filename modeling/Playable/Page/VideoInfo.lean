import Playable.Json.Reader
import Playable.Literal.Anchor
import Playable.Record.Response

/-!
# The data of a watch page

A watch page embeds a player response, and older pages also a legacy list of
formats as a quoted text.
-/

namespace Playable.Page

open Pattern Record

/-- What a watch page says about its video. -/
structure VideoInfo where
  /-- The embedded player response. -/
  response : PlayerResponse
  /-- The legacy list of formats. -/
  legacyList : Option RawText
  deriving DecidableEq, Repr

/-- What a watch page says about its video, as a value. -/
def VideoInfo.toValue (info : VideoInfo) : Json.Value :=
  objectValue [("player_response", info.response.toValue),
    ("adaptive_fmts_raw", rawValue info.legacyList)]

/-- Why a watch page cannot be used. -/
inductive PageError where
  /-- The page embeds no literal. -/
  | noData
  /-- The literal is no player response. -/
  | unusable (videoId : Text)
  deriving DecidableEq, Repr

/-- The wording for a page that cannot be used. -/
def PageError.message : PageError → Text
  | noData => "No embedded data found".toList
  | unusable videoId =>
    "Embedded player response of ".toList ++ videoId ++ " is not usable".toList

/-- The legacy list, as it stands in a page. -/
def legacyShape : Pattern :=
  lit "\"adaptive_fmts\"" ++ blanks ++ lit ":" ++ blanks ++ lit "\""
    ++ label "list" (manyBut "\"") ++ lit "\""

/-- The legacy list of formats of a page, if it has one that can be read. -/
def legacyList? (page : Text) : Option RawText := do
  let m ← legacyShape.find? page
  (Json.parse? ('"' :: m.capture "list" ++ ['"'])).bind Json.Value.raw?

/-- The data of the watch page of a video. -/
def readVideoInfo (videoId page : Text) : Except PageError VideoInfo :=
  match Literal.playerResponse? page with
  | none => .error .noData
  | some literal =>
    match (Json.parse? literal).map PlayerResponse.read with
    | some (.valid response) => .ok ⟨response, legacyList? page⟩
    | _ => .error (.unusable videoId)

end Playable.Page
