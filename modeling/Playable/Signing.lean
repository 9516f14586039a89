import Playable.Cipher.Plan
import Playable.Record.Response
import Playable.Record.Stream
import Playable.Url.Form

/-!
# Signing of delivery URLs

A format is delivered only under a URL that carries a valid signature. A URL that
carries one already is left as it is. Otherwise the scrambled signature beside the
URL is run through the plan of the player version and appended as a parameter. A
format without a way to a signature is left out. It disturbs the others only if its
number is too long to be named in the reason, and so does a signature that cannot be
encoded.
-/

namespace Playable.Signing

open Cipher Record

/-- The names of parameters that carry a signature. -/
def signatureNames : List Text :=
  ["signature".toList, "sig".toList, "lsig".toList]

/-- Whether a URL carries a signature. -/
def hasSignature (url : Text) : Except Url.UrlError Bool := do
  let parts ← Url.split url
  return (Url.formFields true parts.query).any (Text.isOneOf signatureNames ·.1)

/-- What separates a new parameter from a URL. -/
def separator (url query : Text) : Text :=
  if query ≠ [] then ['&'] else if url.getLast? = some '?' then [] else ['?']

/-- Why a parameter is not appended to a URL. -/
inductive AppendError where
  /-- The URL is refused. -/
  | url (e : Url.UrlError)
  /-- The name or the value cannot be encoded. -/
  | encoding (e : EncodingError)
  deriving DecidableEq, Repr

/-- Append a parameter to the query of a URL. The URL is looked at first, then the name
and then the value. -/
def appendParameter (url : Text) (name value : RawText) : Except AppendError Text := do
  let parts ← (Url.split url).mapError .url
  let name ← name.characters.mapError .encoding
  let value ← value.characters.mapError .encoding
  return url ++ separator url parts.query ++ Url.formField name value

/-- Why a format has no way to a signature. -/
inductive MissingSignature where
  /-- The record does not say where the format is fetched from. -/
  | noPlace (itag : Int)
  /-- Neither the URL nor the record holds a signature. -/
  | noSignature (itag : Int)
  /-- A signature has to be unscrambled, but there is no plan. -/
  | noEngine (itag : Int)
  deriving DecidableEq, Repr

/-- The number of the format. -/
def MissingSignature.itag : MissingSignature → Int
  | noPlace itag => itag
  | noSignature itag => itag
  | noEngine itag => itag

/-- The wording for a format without a way to a signature. -/
def MissingSignature.message : MissingSignature → Text
  | noPlace itag =>
    "Format ".toList ++ Text.ofInt itag ++ " has neither a url nor a signature cipher".toList
  | noSignature itag =>
    "Format ".toList ++ Text.ofInt itag ++ " contains no signature (s), nor does its url".toList
  | noEngine itag =>
    "Format ".toList ++ Text.ofInt itag
      ++ " needs a signature but no cipher is available".toList

/-- What stops the delivery of a whole list of formats. -/
inductive Obstacle where
  /-- A URL is refused. -/
  | url (e : Url.UrlError)
  /-- A signature, or the name of its parameter, cannot be encoded. -/
  | encoding (e : EncodingError)
  /-- A format has no way to a signature, and its number is too long to be named. -/
  | number
  /-- The plan names an operation that the catalog does not hold. -/
  | operation (e : UnknownOperation)
  /-- A format does not fit the form of a stream. -/
  | record (paths : List Path)
  deriving DecidableEq, Repr

/-- Why a format is not signed. -/
inductive SigningError where
  /-- The format is left out. -/
  | missing (m : MissingSignature)
  /-- The whole list is given up. -/
  | obstacle (o : Obstacle)
  deriving DecidableEq, Repr

/-- A parameter that is not appended to a URL stops the delivery. -/
def AppendError.obstacle : AppendError → Obstacle
  | url e => .url e
  | encoding e => .encoding e

/-- A format without a way to a signature is left out, if its number can be named in the
reason. -/
def leaveOut (m : MissingSignature) : SigningError :=
  if Number.isWritable m.itag then .missing m else .obstacle .number

/-- A format under a URL that carries a signature. -/
def signFormat (engine : Option Engine) (format : Format) : Except SigningError Format := do
  match format.cipher with
  | none => .error (leaveOut (.noPlace format.itag))
  | some cipher =>
    if ← (hasSignature cipher.url).mapError (.obstacle ∘ .url) then return format
    match cipher.scrambled, engine with
    | none, _ => .error (leaveOut (.noSignature format.itag))
    | some _, none => .error (leaveOut (.noEngine format.itag))
    | some scrambled, some engine =>
      let signature ← (engine.decrypt scrambled).mapError (.obstacle ∘ .operation)
      let url ← (appendParameter cipher.url cipher.parameter signature).mapError
        (.obstacle ∘ AppendError.obstacle)
      return { format with cipher := some { cipher with url, scrambled := none } }

/-- A signed format, or nothing for one that is left out. -/
def signOrDrop (engine : Option Engine) (format : Format) : Except Obstacle (Option Format) :=
  match signFormat engine format with
  | .ok signed => .ok (some signed)
  | .error (.missing _) => .ok none
  | .error (.obstacle o) => .error o

/-- The signed formats of a list, in order, without those that are left out. -/
def signFormats (engine : Option Engine) (formats : List Format) :
    Except Obstacle (List Format) := do
  let signed ← formats.mapM (signOrDrop engine)
  return signed.filterMap id

/-- The stream of a signed format. -/
def streamOf (format : Format) : Except Obstacle Stream :=
  match Stream.ofFormat format ((format.cipher.map (·.url)).getD []) with
  | .valid stream => .ok stream
  | .invalid paths => .error (.record paths)

/-- The streams of a list of formats. -/
def streamsOf (engine : Option Engine) (formats : List Format) :
    Except Obstacle (List Stream) := do
  let signed ← signFormats engine formats
  signed.mapM streamOf

/-- The format that a piece of a legacy list spells, if it spells one. -/
def legacyFormat? (piece : RawText) : Option Format :=
  let query := Text.trim (CodePoint.isChar Text.isBlank) piece
  if query = [] then none else (Format.ofQuery query).toOption

/-- The formats of a list of encoded queries with commas between them. A query that
spells no format record is skipped. -/
def legacyFormats (list : RawText) : List Format :=
  (Text.split (.char ',') list).filterMap legacyFormat?

/-- Data of a video to which formats have been added. -/
structure Addition where
  /-- The data with the formats. -/
  data : StreamingData
  /-- How many formats have been added. -/
  added : Nat
  deriving DecidableEq, Repr

/-- Add the format of one piece behind the others; a piece that spells none is
skipped. -/
def Addition.add (addition : Addition) (piece : RawText) : Addition :=
  match legacyFormat? piece with
  | none => addition
  | some format =>
    let data := addition.data
    ⟨{ data with formats := data.formats ++ [format] }, addition.added + 1⟩

/-- Add the formats of a legacy list behind the known ones, piece by piece. -/
def applyLegacy (data : StreamingData) (list : RawText) : Addition :=
  (Text.split (.char ',') list).foldl Addition.add ⟨data, 0⟩

/-- The data with the formats of a legacy list. -/
def addLegacy (data : StreamingData) (list : RawText) : StreamingData :=
  (applyLegacy data list).data

end Playable.Signing
