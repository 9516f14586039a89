import Playable.Text.Raw
import Playable.Url.Split

/-!
# Form encoding

Names and values as they stand in the query of a URL. A plus sign stands for a
space, and a percent sign with two hexadecimal digits stands for one octet.
-/

namespace Playable.Url

/-- The octets of an ASCII text in which percent signs are resolved. -/
def octets : Text → List Nat
  | [] => []
  | '%' :: a :: b :: rest =>
    match Text.hexValue? a, Text.hexValue? b with
    | some x, some y => (x * 16 + y) :: octets rest
    | _, _ => '%'.toNat :: octets (a :: b :: rest)
  | c :: rest => c.toNat :: octets rest

/-- Resolve percent signs. Octets are read as text within each run of ASCII
characters; the run read so far is given in reverse. -/
def percentDecodeFrom (run : Text) : Text → Text
  | [] => Text.ofUtf8 (octets run.reverse)
  | c :: rest =>
    if c.toNat < 128 then percentDecodeFrom (c :: run) rest
    else Text.ofUtf8 (octets run.reverse) ++ c :: percentDecodeFrom [] rest

/-- Resolve plus and percent signs. -/
def formDecode (t : Text) : Text :=
  percentDecodeFrom [] (t.map fun c => if c = '+' then ' ' else c)

/-- Resolve plus and percent signs in the pieces of a raw text between its halves; the
piece read so far is given in reverse. -/
def rawDecodeFrom (piece : Text) : RawText → RawText
  | [] => (formDecode piece.reverse).raw
  | .char c :: rest => rawDecodeFrom (c :: piece) rest
  | .half n :: rest => (formDecode piece.reverse).raw ++ .half n :: rawDecodeFrom [] rest

/-- The name and value of one field, where `equals` stands between them. A field without
it has a blank value; fields with blank values are dropped unless they are asked for. -/
def fieldOf {α : Type} [DecidableEq α] (decode : List α → List α) (equals : α)
    (keepBlank : Bool) (field : List α) : Option (List α × List α) :=
  if field = [] then none
  else
    let (name, value) := Text.cutFirst equals field
    let value := value.getD []
    if keepBlank || !value.isEmpty then some (decode name, decode value) else none

/-- The names and values in a query, in order. -/
def formFields (keepBlank : Bool) (query : Text) : List (Text × Text) :=
  (Text.split '&' query).filterMap (fieldOf formDecode '=' keepBlank)

/-- The names and values in a raw query, in order, without those that are blank. -/
def rawFields (query : RawText) : List (RawText × RawText) :=
  (Text.split (.char '&') query).filterMap (fieldOf (rawDecodeFrom []) (.char '=') false)

/-- A character that form encoding keeps. -/
def isFormSafe (c : Char) : Bool :=
  c.isAlphanum || c = '_' || c = '.' || c = '-' || c = '~'

/-- One octet behind a percent sign. -/
def percentOctet (n : Nat) : Text :=
  '%' :: (Text.hexDigits 2 n).map Char.toUpper

/-- Encode a name or a value. -/
def formEncode (t : Text) : Text :=
  t.flatMap fun c =>
    if isFormSafe c then [c]
    else if c = ' ' then ['+']
    else (Text.utf8Char c).flatMap percentOctet

/-- One field as it stands in a query. -/
def formField (name value : Text) : Text :=
  formEncode name ++ '=' :: formEncode value

end Playable.Url
