import Playable.Record.Format

/-!
# Player responses

A watch page embeds a player response: what the video is, and the records of the
formats it comes in. A malformed format record is dropped on its own and does not
spoil the response.
-/

namespace Playable.Record

open Json (Value Fields)

/-- The formats that a video comes in. -/
structure StreamingData where
  /-- Formats that hold picture and sound. -/
  formats : List Format
  /-- Formats that hold one of the two. -/
  adaptiveFormats : List Format
  /-- Where the manifest of further streams is fetched from. -/
  hlsManifestUrl : Option Text
  deriving DecidableEq, Repr

/-- Read a list of format records and drop those that do not fit. -/
def formatList : Reader (List Format)
  | .list values => .valid (values.filterMap fun v => (Format.read v).toOption)
  | _ => .invalid [[]]

/-- Read the formats of a video. -/
def StreamingData.read : Reader StreamingData :=
  object fun fields => StreamingData.mk
    <$> withDefault fields ["formats"] formatList []
    <*> withDefault fields ["adaptiveFormats", "adaptive_formats"] formatList []
    <*> optional fields ["hlsManifestUrl", "hls_manifest_url"] text

/-- The formats of a video as a value. -/
def StreamingData.toValue (d : StreamingData) : Value :=
  objectValue [("formats", .list (d.formats.map Format.toValue)),
    ("adaptive_formats", .list (d.adaptiveFormats.map Format.toValue)),
    ("hls_manifest_url", textValue d.hlsManifestUrl)]

/-- What a video is. -/
structure VideoDetails where
  /-- The id of the video. -/
  videoId : Text
  /-- Its title. -/
  title : Text
  /-- Who made it. -/
  author : Option Text
  /-- Its length in seconds. -/
  lengthSeconds : Option Int
  /-- Whether it is being broadcast. -/
  isLive : Bool
  deriving DecidableEq, Repr

/-- Read what a video is. -/
def VideoDetails.read : Reader VideoDetails :=
  object fun fields => VideoDetails.mk
    <$> required fields ["videoId", "video_id"] text
    <*> withDefault fields ["title"] text []
    <*> optional fields ["author"] text
    <*> optional fields ["lengthSeconds", "length_seconds"] integer
    <*> withDefault fields ["isLiveContent", "is_live_content"] truth false

/-- What a video is, as a value. -/
def VideoDetails.toValue (d : VideoDetails) : Value :=
  objectValue [("video_id", .text d.videoId), ("title", .text d.title),
    ("author", textValue d.author), ("length_seconds", integerValue d.lengthSeconds),
    ("is_live_content", .bool d.isLive)]

/-- The data embedded in a watch page. -/
structure PlayerResponse where
  /-- What the video is. -/
  videoDetails : VideoDetails
  /-- The formats it comes in. -/
  streamingData : Option StreamingData
  deriving DecidableEq, Repr

/-- Read a player response. -/
def PlayerResponse.read : Reader PlayerResponse :=
  object fun fields => PlayerResponse.mk
    <$> required fields ["videoDetails", "video_details"] VideoDetails.read
    <*> optional fields ["streamingData", "streaming_data"] StreamingData.read

/-- A player response as a value. -/
def PlayerResponse.toValue (r : PlayerResponse) : Value :=
  objectValue [("video_details", r.videoDetails.toValue),
    ("streaming_data", (r.streamingData.map StreamingData.toValue).getD .null)]

end Playable.Record
