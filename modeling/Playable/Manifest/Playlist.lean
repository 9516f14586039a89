import Playable.Pattern.Search
import Playable.Register
import Playable.Text.Lines
import Playable.Url.Join

/-!
# Master playlists

A master playlist lists the variants of a stream. A variant takes two lines: one
with attributes, and one with the place of the variant, which may be relative to
the place of the playlist. All other lines are passed over.
-/

namespace Playable.Manifest

open Pattern

/-- A variant: its attributes and its place, by name. -/
abbrev Variant := Register Text

/-- How a line with the attributes of a variant starts. -/
def variantTag : Text :=
  "#EXT-X-STREAM-INF".toList

/-- One attribute: a name in capitals, and a value in quotes or up to the next
comma. -/
def attributeShape : Pattern :=
  label "name" (some1 fun c => c.isUpper || c = '-') ++ lit "="
    ++ either (lit "\"" ++ label "quoted" (manyBut "\"") ++ lit "\"")
        (label "plain" (someBut ","))

/-- The name of an attribute in lower case, with underscores for dashes. -/
def attributeName (name : Text) : Text :=
  (Text.lowerAscii name).map fun c => if c = '-' then '_' else c

/-- The attributes in the text behind the colon of a variant line. -/
def attributes (t : Text) : List (Text × Text) :=
  (attributeShape.findAll t).map fun m =>
    let quoted := m.capture "quoted"
    (attributeName (m.capture "name"), if quoted = [] then m.capture "plain" else quoted)

/-- The attributes of a variant line, beside the line itself. -/
def readAttributes? (line : Text) : Option Variant :=
  (Text.after? (variantTag ++ [':']) line).map fun rest =>
    Register.ofPairs (("raw_stream_inf".toList, line) :: attributes rest)

/-- The place of a variant, relative to the place of the playlist if that is
known. -/
def place (base : Option Text) (uri : Text) : Except Url.UrlError Text :=
  match base with
  | none => .ok uri
  | some base => Url.join base uri

/-- The variants in a list of lines. A variant line counts only if the next line
holds a place. -/
def variantsOf (base : Option Text) : List Text → Except Url.UrlError (List Variant)
  | [] => .ok []
  | [_] => .ok []
  | line :: next :: more =>
    match readAttributes? line with
    | none => variantsOf base (next :: more)
    | some variant =>
      if next = [] ∨ next.head? = some '#' then variantsOf base (next :: more)
      else do
        let url ← place base next
        let rest ← variantsOf base (next :: more)
        return Register.set variant "url".toList url :: rest

/-- The variants of a playlist in order. -/
def variants (playlist : Text) (base : Option Text) : Except Url.UrlError (List Variant) :=
  variantsOf base ((Text.lines (Text.strip playlist)).map Text.strip)

end Playable.Manifest
