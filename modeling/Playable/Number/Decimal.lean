import Playable.Text.Blank
import Playable.Text.Digit
import Playable.Text.Quoted
import Playable.Number.Binary64

/-!
# Decimal notation

Reading numbers in decimal notation. The parts of a number (a run of digits, an
exponent) are shared by all readers. A free-standing number may have blanks
around it and digits of any script, and single underscores may group its digits.
-/

namespace Playable.Number

/-- The value of a sequence of ASCII digits. -/
def digitsValue (digits : Text) : Nat :=
  digits.foldl (fun n c => n * 10 + (c.toNat - 48)) 0

/-- A sign, if one comes first: whether it is a minus, and the rest. -/
def sign : Text → Bool × Text
  | '-' :: rest => (true, rest)
  | '+' :: rest => (false, rest)
  | rest => (false, rest)

/-- The exponent, if a mark, perhaps a sign, and at least one digit come next. -/
def exponent (t : Text) : Option Int × Text :=
  match t with
  | [] => (none, t)
  | mark :: rest =>
    let signed := sign rest
    let digits := signed.2.takeWhile Char.isDigit
    if (mark = 'e' ∨ mark = 'E') ∧ digits ≠ [] then
      let size : Int := digitsValue digits
      (some (if signed.1 then -size else size), signed.2.dropWhile Char.isDigit)
    else (none, t)

/-- The binary number nearest to a number given by its whole digits, the digits of
its fraction and its exponent. Zeros in front say nothing about its size. -/
def nearest (negative : Bool) (whole fraction : Text) (power : Int) : Binary64 :=
  let digits := (whole ++ fraction).dropWhile (· = '0')
  Binary64.ofDecimal negative (digitsValue digits) digits.length (power - fraction.length)

/-- The digits of a fraction, if a point comes next. -/
def fraction : Text → Text × Text
  | '.' :: rest => (rest.takeWhile Char.isDigit, rest.dropWhile Char.isDigit)
  | rest => ([], rest)

/-- The binary number that a whole text spells with ASCII digits: a sign, and then
the word for infinity, the word for no number, or digits with perhaps a point and
an exponent. -/
def plainDecimal? (t : Text) : Option Binary64 :=
  let (negative, body) := sign t
  let word := Text.lowerAscii body
  if word = "inf".toList ∨ word = "infinity".toList then some (Binary64.infinity negative)
  else if word = "nan".toList then some Binary64.nan
  else
    let whole := body.takeWhile Char.isDigit
    let (part, rest) := fraction (body.dropWhile Char.isDigit)
    let (power, rest) := exponent rest
    if (whole.isEmpty ∧ part.isEmpty) ∨ rest ≠ [] then none
    else some (nearest negative whole part (power.getD 0))

/-- Drop the underscores that stand between two digits; `none` if one stands
elsewhere. -/
def ungroup (before : Option Char) : Text → Option Text
  | [] => some []
  | c :: rest =>
    if c = '_' then
      if before.any Char.isDigit && rest.head?.any Char.isDigit then ungroup none rest else none
    else (ungroup (some c) rest).map (c :: ·)

/-- A digit of any script as an ASCII digit; any other character is kept. -/
def plainDigit (c : Char) : Char :=
  match Text.digitValue? c with
  | some n => Nat.digitChar n
  | none => c

/-- The binary number that a free-standing text spells. -/
def decimal? (t : Text) : Option Binary64 :=
  (ungroup none ((Text.trim Text.isWhiteSpace t).map plainDigit)).bind plainDecimal?

/-- The wording for a text that spells no number. -/
def decimalMessage (t : Text) : Text :=
  "could not convert string to float: ".toList ++ Text.quoted t

end Playable.Number
