import Playable.Record.Validation
import Playable.Url.Form

/-!
# Format records

A format record describes one encoding of a video and where to fetch it. The place
comes in one of several spellings, which are all folded into one: a URL on its own
with perhaps a scrambled signature beside it, or the same three parts as an object
or as an encoded query under one of two names.
-/

namespace Playable.Record

open Json (Value Fields)

/-- Where a format is fetched from. -/
structure SignatureCipher where
  /-- The delivery URL. -/
  url : Text
  /-- The signature that is still scrambled. -/
  scrambled : Option RawText
  /-- The name of the query parameter that carries the valid signature. -/
  parameter : RawText
  deriving DecidableEq, Repr

/-- The name of the signature parameter if a record gives none. -/
def defaultParameter : Text :=
  "sig".toList

/-- Read where a format is fetched from. -/
def SignatureCipher.read : Reader SignatureCipher :=
  object fun fields => SignatureCipher.mk
    <$> required fields ["url"] text
    <*> optional fields ["s"] rawText
    <*> withDefault fields ["sp"] rawText defaultParameter.raw

/-- A place as a value. -/
def SignatureCipher.toValue (c : SignatureCipher) : Value :=
  objectValue [("url", .text c.url), ("s", rawValue c.scrambled), ("sp", .ofRaw c.parameter)]

/-- One encoding of a video. -/
structure Format where
  /-- The number of the encoding. -/
  itag : Int
  /-- Where it is fetched from. -/
  cipher : Option SignatureCipher
  /-- The media type. -/
  mimeType : Option Text
  /-- The quality. -/
  quality : Option Text
  /-- The quality as it is shown. -/
  qualityLabel : Option Text
  /-- The width of the picture. -/
  width : Option Int
  /-- The height of the picture. -/
  height : Option Int
  /-- Bits per second. -/
  bitrate : Option Int
  /-- Frames per second. -/
  fps : Option Int
  /-- The length in octets. -/
  contentLength : Option Int
  /-- The duration in milliseconds. -/
  approxDurationMs : Option Int
  /-- The quality of the sound. -/
  audioQuality : Option Text
  deriving DecidableEq, Repr

/-- Whether a value says something: absent, false, zero and empty values do not. -/
def isPresent : Value → Bool
  | .null => false
  | .bool b => b
  | .int i => i ≠ 0
  | .float x => x.magnitudeBits ≠ 0
  | .text t => t ≠ []
  | .broken _ => true
  | .list values => !values.isEmpty
  | .object fields => !fields.isEmpty

/-- The names under which a place may come as a whole. The later one is looked at
only if the earlier one says nothing. -/
def wholeCipher (fields : Fields) : Value :=
  let first := (Register.get? fields "signatureCipher".toList).getD .null
  if isPresent first then first else (Register.get? fields "cipher".toList).getD .null

/-- The object that an encoded query spells; of several fields of one name the last one
counts. -/
def queryValue (query : RawText) : Value :=
  .object (Register.ofPairs ((Url.rawFields query).map fun f => (f.1.toText, .ofRaw f.2)))

/-- The place of a record as a value: given whole, as an object or as an encoded
query, or else put together from the URL and the parts beside it. -/
def foldedCipher? (fields : Fields) : Option Value :=
  match wholeCipher fields with
  | .text query => some (queryValue query.raw)
  | .broken query => some (queryValue query.codePoints)
  | .null =>
    (Register.get? fields "url".toList).map fun url =>
      let parameter := (Register.get? fields "sp".toList).getD .null
      .object [("url".toList, url),
        ("s".toList, (Register.get? fields "s".toList).getD .null),
        ("sp".toList, if isPresent parameter then parameter else .text defaultParameter)]
  | whole => some whole

/-- The fields of a record with its place folded into one field. A record that has
that field already is left alone. -/
def foldCipher (fields : Fields) : Fields :=
  let name := "signature_cipher".toList
  if Register.has fields name then fields
  else match foldedCipher? fields with
    | some v => Register.set fields name v
    | none => fields

/-- Read a format record. -/
def Format.read : Reader Format :=
  object fun fields =>
    let fields := foldCipher fields
    Format.mk
      <$> required fields ["itag"] integer
      <*> optional fields ["signature_cipher"] SignatureCipher.read
      <*> optional fields ["mimeType", "mime_type", "type"] text
      <*> optional fields ["quality"] text
      <*> optional fields ["qualityLabel", "quality_label"] text
      <*> optional fields ["width"] integer
      <*> optional fields ["height"] integer
      <*> optional fields ["bitrate"] integer
      <*> optional fields ["fps"] integer
      <*> optional fields ["contentLength", "content_length"] integer
      <*> optional fields ["approxDurationMs", "approx_duration_ms"] integer
      <*> optional fields ["audioQuality", "audio_quality"] text

/-- A format as a value. -/
def Format.toValue (f : Format) : Value :=
  objectValue [("itag", .int f.itag),
    ("signature_cipher", (f.cipher.map SignatureCipher.toValue).getD .null),
    ("mime_type", textValue f.mimeType), ("quality", textValue f.quality),
    ("quality_label", textValue f.qualityLabel), ("width", integerValue f.width),
    ("height", integerValue f.height), ("bitrate", integerValue f.bitrate),
    ("fps", integerValue f.fps), ("content_length", integerValue f.contentLength),
    ("approx_duration_ms", integerValue f.approxDurationMs),
    ("audio_quality", textValue f.audioQuality)]

/-- The format record that an encoded query spells. -/
def Format.ofQuery (query : RawText) : Validated Format :=
  Format.read (queryValue query)

end Playable.Record
