import Playable.Text.Blank
import Playable.Text.Digit
import Playable.Text.Quoted
import Playable.Number.Decimal

/-!
# Integers as text

Reading an integer from a free-standing text: blanks around it, a sign, digits of
any script, and single underscores between digits are allowed. There is a limit
on the number of digits, and it is noticed before anything behind the digits. The
same limit holds where an integer is put into words.
-/

namespace Playable.Number

/-- The greatest number of digits that an integer may be written with. -/
def maxDigits : Nat :=
  4300

/-- Why a text is not read as an integer. -/
inductive IntegerFault where
  /-- The text spells no integer. -/
  | malformed (t : Text)
  /-- The text has more digits than allowed. -/
  | tooLong (digits : Nat)
  deriving DecidableEq, Repr

/-- The wording of a failure to read an integer; a long text is shown in part. -/
def IntegerFault.message : IntegerFault → Text
  | malformed t =>
    "invalid literal for int() with base 10: ".toList ++ (Text.quoted t).take 200
  | tooLong digits =>
    "Exceeds the limit (4300 digits) for integer string conversion: value has ".toList
      ++ Text.ofNat digits
      ++ " digits; use sys.set_int_max_str_digits() to increase the limit".toList

/-- Whether an integer has no more digits than may be written. -/
def isWritable (i : Int) : Bool :=
  (Text.ofNat i.natAbs).length ≤ maxDigits

/-- The wording for an integer that has more digits than may be written. -/
def unwritableMessage : Text :=
  ("Exceeds the limit (4300 digits) for integer string conversion; ".toList
    ++ "use sys.set_int_max_str_digits() to increase the limit".toList)

/-- The value of a sequence of digits of any script. -/
def decimalValue (digits : Text) : Nat :=
  digits.foldl (fun n c => n * 10 + (Text.digitValue? c).getD 0) 0

/-- The integer with a sign and the given digits. -/
def ofDigits (negative : Bool) (digits : Text) : Except IntegerFault Int :=
  if maxDigits < digits.length then .error (.tooLong digits.length)
  else
    let size : Int := decimalValue digits
    .ok (if negative then -size else size)

/-- The integer that a free-standing text spells. -/
def integer (t : Text) : Except IntegerFault Int :=
  let (negative, body) := sign (Text.trim Text.isWhiteSpace t)
  let grouped := body.takeWhile fun c => Text.isDecimalDigit c || c = '_'
  let groups := Text.split '_' grouped
  if groups.any List.isEmpty then .error (.malformed t)
  else do
    let i ← ofDigits negative groups.flatten
    if grouped.length < body.length then .error (.malformed t) else .ok i

end Playable.Number
