import Playable.Record.Format

/-!
# Playable streams

A stream is a URL that can be played at once, with what is known about it. The
frame rate is a number of the binary format, because manifests give fractions.
-/

namespace Playable.Record

/-- A stream that can be played. -/
structure Stream where
  /-- The number of the encoding. -/
  itag : Int
  /-- Where it is fetched from. -/
  url : Text
  /-- The quality. -/
  quality : Option Text
  /-- The media type. -/
  mimeType : Option Text
  /-- The width of the picture. -/
  width : Option Int
  /-- The height of the picture. -/
  height : Option Int
  /-- Bits per second. -/
  bitrate : Option Int
  /-- Frames per second. -/
  fps : Option Binary64
  /-- Whether the stream comes from a manifest. -/
  isHls : Bool
  deriving DecidableEq, Repr

/-- Read a stream. -/
def Stream.read : Reader Stream :=
  object fun fields => Stream.mk
    <$> required fields ["itag"] integer
    <*> required fields ["url"] text
    <*> optional fields ["quality"] text
    <*> optional fields ["mime_type"] text
    <*> optional fields ["width"] integer
    <*> optional fields ["height"] integer
    <*> optional fields ["bitrate"] integer
    <*> optional fields ["fps"] decimal
    <*> withDefault fields ["is_hls"] truth false

/-- A stream as a value. -/
def Stream.toValue (s : Stream) : Json.Value :=
  objectValue [("itag", .int s.itag), ("url", .text s.url), ("quality", textValue s.quality),
    ("mime_type", textValue s.mimeType), ("width", integerValue s.width),
    ("height", integerValue s.height), ("bitrate", integerValue s.bitrate),
    ("fps", (s.fps.map Json.Value.float).getD .null), ("is_hls", .bool s.isHls)]

/-- The stream of a format whose place is known. A frame rate that is too large for
the binary format does not fit. -/
def Stream.ofFormat (format : Format) (url : Text) : Validated Stream :=
  (fun fps => ⟨format.itag, url, format.quality, format.mimeType, format.width, format.height,
    format.bitrate, fps, false⟩) <$>
      match format.fps with
      | none => Validated.valid none
      | some i => ((Validated.ofOption (Binary64.ofInt? i)).map some).within "fps".toList

/-- A video that has been resolved. -/
structure Video where
  /-- The id of the video. -/
  videoId : Text
  /-- Its title. -/
  title : Text
  /-- Whether it is being broadcast. -/
  isLive : Bool
  /-- Its streams. -/
  streams : List Stream
  deriving DecidableEq, Repr

/-- A video as a value. -/
def Video.toValue (v : Video) : Json.Value :=
  objectValue [("video_id", .text v.videoId), ("title", .text v.title),
    ("is_live", .bool v.isLive), ("streams", .list (v.streams.map Stream.toValue))]

end Playable.Record
