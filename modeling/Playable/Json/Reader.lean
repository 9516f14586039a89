import Playable.Json.Value
import Playable.Text.Digit
import Playable.Number.Decimal
import Playable.Number.Integer

/-!
# Reading structured values

The reader takes the usual notation, and also the three words for infinities and
for no number. Where a name occurs twice in an object, the last value counts and
stands at the first place. Raw control characters inside strings, and integers of
more than 4300 digits, are refused. A string may spell half of a surrogate pair on its
own; in the name of a field the replacement character stands for it.
-/

namespace Playable.Json

/-- The blanks between tokens. -/
def isGap (c : Char) : Bool :=
  c = ' ' || c = '\t' || c = '\n' || c = '\r'

/-- Drop the blanks in front of a token. -/
def skipGap (t : Text) : Text :=
  t.dropWhile isGap

/-- The number that four hexadecimal digits spell. -/
def hex4? (a b c d : Char) : Option Nat := do
  let a ← Text.hexValue? a
  let b ← Text.hexValue? b
  let c ← Text.hexValue? c
  let d ← Text.hexValue? d
  return ((a * 16 + b) * 16 + c) * 16 + d

/-- The character that a short escape stands for. -/
def shortEscape? (c : Char) : Option Char :=
  if c = '"' ∨ c = '\\' ∨ c = '/' then some c
  else if c = 'b' then some '\x08'
  else if c = 'f' then some '\x0c'
  else if c = 'n' then some '\n'
  else if c = 'r' then some '\r'
  else if c = 't' then some '\t'
  else none

/-- Whether a number is the first half of a surrogate pair. -/
def isHighSurrogate (n : Nat) : Bool :=
  0xD800 ≤ n && n ≤ 0xDBFF

/-- Whether a number is the second half of a surrogate pair. -/
def isLowSurrogate (n : Nat) : Bool :=
  0xDC00 ≤ n && n ≤ 0xDFFF

/-- The character of a surrogate pair. -/
def ofSurrogates (high low : Nat) : Char :=
  Char.ofNat (0x10000 + (high - 0xD800) * 0x400 + (low - 0xDC00))

/-- The code point of a lone escape: a character, or half of a surrogate pair. -/
def ofEscape (n : Nat) : CodePoint :=
  if n.isValidChar then .char (Char.ofNat n) else .half (Fin.ofNat 0x800 (n - 0xD800))

/-- The rest of a string behind its opening quote, and the text behind the closing
quote. The code points read so far are given in reverse. -/
def stringFrom (read : RawText) : Text → Option (RawText × Text)
  | [] => none
  | '"' :: rest => some (read.reverse, rest)
  | '\\' :: 'u' :: a :: b :: c :: d :: '\\' :: 'u' :: a' :: b' :: c' :: d' :: rest =>
    match hex4? a b c d with
    | none => none
    | some n =>
      match hex4? a' b' c' d' with
      | none => none
      | some m =>
        if isHighSurrogate n && isLowSurrogate m then
          stringFrom (.char (ofSurrogates n m) :: read) rest
        else stringFrom (ofEscape n :: read) ('\\' :: 'u' :: a' :: b' :: c' :: d' :: rest)
  | '\\' :: 'u' :: a :: b :: c :: d :: rest =>
    match hex4? a b c d with
    | none => none
    | some n => stringFrom (ofEscape n :: read) rest
  | '\\' :: c :: rest =>
    match shortEscape? c with
    | none => none
    | some e => stringFrom (.char e :: read) rest
  | c :: rest => if c.toNat < 32 ∨ c = '\\' then none else stringFrom (.char c :: read) rest

/-- The digits of a fraction, if a point and at least one digit come next. -/
def fraction (t : Text) : Text × Text :=
  let (digits, rest) := Number.fraction t
  if digits.isEmpty then ([], t) else (digits, rest)

/-- A number without its sign. -/
def unsigned (negative : Bool) (t : Text) : Option (Value × Text) :=
  let whole := match t with
    | '0' :: _ => ['0']
    | _ => t.takeWhile Char.isDigit
  if whole.isEmpty then none
  else
    let (digits, rest) := fraction (t.drop whole.length)
    let (power, rest) := Number.exponent rest
    if digits.isEmpty ∧ power.isNone then
      match Number.ofDigits negative whole with
      | .ok i => some (.int i, rest)
      | .error _ => none
    else some (.float (Number.nearest negative whole digits (power.getD 0)), rest)

/-- The words that stand for values. -/
def words : List (Text × Value) :=
  [("null".toList, .null), ("true".toList, .bool true), ("false".toList, .bool false),
    ("NaN".toList, .float Binary64.nan), ("Infinity".toList, .float (Binary64.infinity false)),
    ("-Infinity".toList, .float (Binary64.infinity true))]

/-- A value that has no parts, and the text behind it. -/
def scalar (t : Text) : Option (Value × Text) :=
  match words.find? fun w => w.1.isPrefixOf t with
  | some w => some (w.2, t.drop w.1.length)
  | none =>
    match t with
    | '"' :: rest => (stringFrom [] rest).map fun (s, rest) => (.ofRaw s, rest)
    | '-' :: rest => unsigned true rest
    | _ => unsigned false t

mutual

/-- A value and the text behind it, where at most `fuel` nested steps are taken. -/
def valueFrom (fuel : Nat) (t : Text) : Option (Value × Text) :=
  match fuel with
  | 0 => none
  | fuel + 1 =>
    match t with
    | '[' :: rest =>
      match skipGap rest with
      | ']' :: rest => some (.list [], rest)
      | rest => (itemsFrom fuel [] rest).map fun (items, rest) => (.list items, rest)
    | '{' :: rest =>
      match skipGap rest with
      | '}' :: rest => some (.object [], rest)
      | rest => (fieldsFrom fuel [] rest).map fun (fields, rest) => (.object fields, rest)
    | _ => scalar t

/-- The items of a list up to its closing bracket; those read so far are given in
reverse. -/
def itemsFrom (fuel : Nat) (read : List Value) (t : Text) : Option (List Value × Text) :=
  match fuel with
  | 0 => none
  | fuel + 1 =>
    match valueFrom fuel t with
    | none => none
    | some (value, rest) =>
      match skipGap rest with
      | ']' :: rest => some ((value :: read).reverse, rest)
      | ',' :: rest => itemsFrom fuel (value :: read) (skipGap rest)
      | _ => none

/-- The fields of an object up to its closing brace; those read so far are
given. -/
def fieldsFrom (fuel : Nat) (read : Fields) (t : Text) : Option (Fields × Text) :=
  match fuel with
  | 0 => none
  | fuel + 1 =>
    match t with
    | '"' :: rest =>
      match stringFrom [] rest with
      | none => none
      | some (name, rest) =>
        match skipGap rest with
        | ':' :: rest =>
          match valueFrom fuel (skipGap rest) with
          | none => none
          | some (value, rest) =>
            let read := Register.set read name.toText value
            match skipGap rest with
            | '}' :: rest => some (read, rest)
            | ',' :: rest => fieldsFrom fuel read (skipGap rest)
            | _ => none
        | _ => none
    | _ => none

end

/-- The value that a whole text spells. A step of the reader takes at least one
character, so the length of the text bounds the steps. -/
def parse? (t : Text) : Option Value :=
  match valueFrom (2 * t.length + 2) (skipGap t) with
  | some (value, rest) => if (skipGap rest).isEmpty then some value else none
  | none => none

end Playable.Json
