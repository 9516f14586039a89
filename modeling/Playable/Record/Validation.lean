import Playable.Json.Value
import Playable.Number.Decimal
import Playable.Number.Integer
import Playable.Text.Order

/-!
# Validation of records

A record is read field by field, and every field that does not fit is reported,
not only the first. Readers are lenient where no meaning is lost: an integer may
come as a text or as a number without a fraction.
-/

namespace Playable.Record

open Json (Value Fields)

/-- The way from a record to one of its parts. -/
abbrev Path := List Text

/-- A value, or the paths of all parts that do not fit. -/
inductive Validated (α : Type) where
  /-- Everything fits. -/
  | valid (value : α)
  /-- The paths of the parts that do not fit. -/
  | invalid (paths : List Path)

namespace Validated

/-- Apply a function to a valid value. -/
def map {α β : Type} (f : α → β) : Validated α → Validated β
  | valid a => valid (f a)
  | invalid paths => invalid paths

/-- Apply a validated function to a validated value, collecting all paths. -/
def apply {α β : Type} (f : Validated (α → β)) (a : Validated α) : Validated β :=
  match f, a with
  | valid f, valid a => valid (f a)
  | valid _, invalid paths => invalid paths
  | invalid paths, valid _ => invalid paths
  | invalid paths, invalid more => invalid (paths ++ more)

instance : Functor Validated := ⟨fun f a => map f a, fun b a => map (fun _ => b) a⟩
instance : Seq Validated := ⟨fun f a => apply f (a ())⟩

/-- Put a name in front of every path. -/
def within {α : Type} (name : Text) : Validated α → Validated α
  | valid a => valid a
  | invalid paths => invalid (paths.map (name :: ·))

/-- A value that may be missing, where the whole is refused if it is. -/
def ofOption {α : Type} : Option α → Validated α
  | some a => valid a
  | none => invalid [[]]

/-- The valid value, if there is one. -/
def toOption {α : Type} : Validated α → Option α
  | valid a => some a
  | invalid _ => none

end Validated

/-- A reader of one kind of value. -/
abbrev Reader (α : Type) := Value → Validated α

/-- The paths as texts, with a point between names, in order. -/
def pathNames (paths : List Path) : List Text :=
  Text.sorted (paths.map (Text.join ['.']))

/-- The value of the first of several names that is present. -/
def firstField? (fields : Fields) (names : List String) : Option Value :=
  names.findSome? fun name => Register.get? fields name.toList

/-- Read a field that must be present. The first of its names is the one that is
reported. -/
def required {α : Type} (fields : Fields) (names : List String) (read : Reader α) :
    Validated α :=
  let name := (names.head?.getD "").toList
  match firstField? fields names with
  | some v => (read v).within name
  | none => .invalid [[name]]

/-- Read a field that has a value of its own when it is missing. -/
def withDefault {α : Type} (fields : Fields) (names : List String) (read : Reader α)
    (value : α) : Validated α :=
  let name := (names.head?.getD "").toList
  match firstField? fields names with
  | some v => (read v).within name
  | none => .valid value

/-- A reader that also takes the absent value. -/
def nullable {α : Type} (read : Reader α) : Reader (Option α)
  | .null => .valid none
  | v => (read v).map some

/-- Read a field that may be missing or absent. -/
def optional {α : Type} (fields : Fields) (names : List String) (read : Reader α) :
    Validated (Option α) :=
  withDefault fields names (nullable read) none

/-- Read an object by its fields. -/
def object {α : Type} (read : Fields → Validated α) : Reader α
  | .object fields => read fields
  | _ => .invalid [[]]

/-- Read a text. The replacement character stands for half of a surrogate pair. -/
def text : Reader Text
  | .text t => .valid t
  | .broken t => .valid t.codePoints.toText
  | _ => .invalid [[]]

/-- Read a raw text. -/
def rawText : Reader RawText :=
  fun v => .ofOption v.raw?

/-- The whole digits of a record's integer without the zeros in front, nor underscores
between them. The last character stays, so that something is left to be read. -/
def withoutZeros (whole : Text) : Text :=
  match whole.dropWhile fun c => c = '0' || c = '_' with
  | [] => whole.drop (whole.length - 1)
  | kept => kept

/-- The integer that a text of a record spells: ASCII digits with single
underscores between them, perhaps a sign, and perhaps a point with zeros behind
it. Zeros in front of the digits are not counted, and may have more underscores
between them. -/
def integerOfText? (t : Text) : Option Int :=
  let (negative, body) := Number.sign (Text.trim Text.isWhiteSpace t)
  let (whole, zeros) := Text.cutFirst '.' body
  let groups := Text.split '_' (withoutZeros whole)
  if whole.head?.any Char.isDigit
      && groups.all (fun g => !g.isEmpty && g.all Char.isDigit)
      && zeros.all (fun z => !z.isEmpty && z.all (· = '0')) then
    (Number.ofDigits negative groups.flatten).toOption
  else none

/-- The integer that a number of the binary format is, within sixty-four bits. -/
def integerOfFloat? (x : Binary64) : Option Int :=
  match x.toInt? with
  | some i => if i.natAbs < Binary64.signBit then some i else none
  | none => none

/-- Read an integer. -/
def integer : Reader Int
  | .int i => .valid i
  | .bool b => .valid (if b then 1 else 0)
  | .float x => .ofOption (integerOfFloat? x)
  | .text t => .ofOption (integerOfText? t)
  | _ => .invalid [[]]

/-- The words for truth values, in lower case. -/
def truthWords : List (Text × Bool) :=
  (["1", "t", "true", "y", "yes", "on"].map fun w => (w.toList, true))
    ++ ["0", "f", "false", "n", "no", "off"].map fun w => (w.toList, false)

/-- The truth value of one or zero. -/
def truthOfInt? (i : Int) : Option Bool :=
  if i = 0 then some false else if i = 1 then some true else none

/-- Read a truth value. -/
def truth : Reader Bool
  | .bool b => .valid b
  | .int i => .ofOption (truthOfInt? i)
  | .float x => .ofOption (x.toInt?.bind truthOfInt?)
  | .text t => .ofOption (Register.get? truthWords (Text.lowerAscii t))
  | _ => .invalid [[]]

/-- The binary number that a text of a record spells. Single underscores may stand
inside a text without blanks around it. -/
def decimalOfText? (t : Text) : Option Binary64 :=
  match Number.plainDecimal? (Text.trim Text.isWhiteSpace t) with
  | some x => some x
  | none =>
    let groups := Text.split '_' t
    if groups.any List.isEmpty then none else Number.plainDecimal? groups.flatten

/-- Read a number of the binary format. -/
def decimal : Reader Binary64
  | .float x => .valid x
  | .int i => .ofOption (Binary64.ofInt? i)
  | .bool b => .ofOption (Binary64.ofInt? (if b then 1 else 0))
  | .text t => .ofOption (decimalOfText? t)
  | _ => .invalid [[]]

/-- An optional text as a value. -/
def textValue (t : Option Text) : Value :=
  (t.map Value.text).getD .null

/-- An optional raw text as a value. -/
def rawValue (t : Option RawText) : Value :=
  (t.map Value.ofRaw).getD .null

/-- An optional integer as a value. -/
def integerValue (i : Option Int) : Value :=
  (i.map Value.int).getD .null

/-- An object with the given fields. -/
def objectValue (fields : List (String × Value)) : Value :=
  .object (fields.map fun f => (f.1.toList, f.2))

end Playable.Record
