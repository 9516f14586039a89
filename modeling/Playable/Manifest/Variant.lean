import Playable.Manifest.Playlist
import Playable.Manifest.Quality
import Playable.Number.Integer
import Playable.Record.Stream
import Playable.Text.Lowercase

/-!
# Streams of a playlist

A variant of a playlist becomes a stream once its numbers are read. A variant with
a number that cannot be read is left out and does not disturb the others.
-/

namespace Playable.Manifest

open Pattern Record

/-- Why a variant becomes no stream. -/
inductive VariantError where
  /-- The place of the variant holds no number of an encoding. -/
  | noItag (url : Text)
  /-- A number is no acceptable integer. -/
  | integer (f : Number.IntegerFault)
  /-- A number is not in decimal notation. -/
  | decimal (t : Text)
  /-- The resolution is one number alone. -/
  | oneDimension
  /-- The resolution has more than two numbers. -/
  | moreDimensions
  deriving DecidableEq, Repr

/-- The wording for a variant that becomes no stream. -/
def VariantError.message : VariantError → Text
  | noItag url => "No itag in variant URI ".toList ++ url
  | integer f => f.message
  | decimal t => Number.decimalMessage t
  | oneDimension => "not enough values to unpack (expected 2, got 1)".toList
  | moreDimensions => "too many values to unpack (expected 2)".toList

/-- The number of the encoding inside the place of a variant. -/
def itagShape : Pattern :=
  lit "/itag/" ++ label "itag" (some1 Text.isDecimalDigit) ++ lit "/"

/-- Read an integer of a variant. -/
def readInteger (t : Text) : Except VariantError Int :=
  match Number.integer t with
  | .ok i => .ok i
  | .error f => .error (.integer f)

/-- Read a number of the binary format. -/
def readDecimal (t : Text) : Except VariantError Binary64 :=
  match Number.decimal? t with
  | some x => .ok x
  | none => .error (.decimal t)

/-- Read width and height with the letter x between them. The numbers are read from
left to right, and a third one is read before it is found to be one too many. -/
def readResolution (t : Text) : Except VariantError (Int × Int) :=
  match Text.split 'x' (Text.lower t) with
  | [] => .error .oneDimension
  | [width] => do
    let _ ← readInteger width
    .error .oneDimension
  | [width, height] => do
    return (← readInteger width, ← readInteger height)
  | width :: height :: third :: _ => do
    let _ ← readInteger width
    let _ ← readInteger height
    let _ ← readInteger third
    .error .moreDimensions

/-- Read a number if it is given. -/
def readOptional {α : Type} (read : Text → Except VariantError α) :
    Option Text → Except VariantError (Option α)
  | none => .ok none
  | some t => do return some (← read t)

/-- The media type, with the codecs if they are given. -/
def mimeType (codecs : Option Text) : Text :=
  match codecs with
  | none | some [] => "video/mp4".toList
  | some codecs => "video/mp4; codecs=\"".toList ++ codecs ++ ['"']

/-- The stream of a variant. -/
def streamOf (variant : Variant) : Except VariantError Stream := do
  let value (name : String) := Register.get? variant name.toList
  let url := (value "url").getD []
  match itagShape.find? url with
  | none => .error (.noItag url)
  | some m =>
    let resolution ← readOptional readResolution (value "resolution")
    let itag ← readInteger (m.capture "itag")
    let bitrate ← readOptional readInteger (value "bandwidth")
    let fps ← readOptional readDecimal (value "frame_rate")
    return {
      itag, url
      quality := some ((resolution.map fun r => qualityLabel r.2).getD defaultQuality)
      mimeType := some (mimeType (value "codecs"))
      width := resolution.map (·.1)
      height := resolution.map (·.2)
      bitrate, fps
      isHls := true }

/-- The streams of a playlist in order, without the variants that become none. -/
def streams (playlist : Text) (base : Option Text) : Except Url.UrlError (List Stream) := do
  return (← variants playlist base).filterMap fun v => (streamOf v).toOption

end Playable.Manifest
