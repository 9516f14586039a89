import Playable.Number.Decimal

/-!
# Shortest decimal notation

A number of the binary format is written with the fewest digits that read back as
the same number. On each decimal grid the two points around the number are tried,
the nearer one first, from one digit upwards; seventeen digits are always enough.
-/

namespace Playable.Number

/-- A number as digits and the power of ten of the last one. -/
structure Scientific where
  /-- The digits as one number. -/
  digits : Nat
  /-- The power of ten of the last digit. -/
  exponent : Int
  deriving DecidableEq, Repr

/-- The size of a finite number of the binary format as a quotient. -/
def sizeQuotient (x : Binary64) : Nat × Nat :=
  (x.mantissa * Nat.pow 2 x.exponent.toNat, Nat.pow 2 (-x.exponent).toNat)

/-- The number of decimal digits. -/
def digitCount (n : Nat) : Nat :=
  (Nat.toDigits 10 n).length

/-- The power of ten above a quotient: the least `k` such that it is less than ten to
the power `k`. Below one, the first grid on which the quotient reaches a unit is
looked for. -/
def powerAbove (num den : Nat) : Int :=
  if den ≤ num then digitCount (num / den)
  else match (List.range 400).find? fun k => den ≤ num * Nat.pow 10 (k + 1) with
    | some k => -(k : Int)
    | none => 0

/-- Whether digits read back as the size of a number. -/
def readsBack (x : Binary64) (s : Scientific) : Bool :=
  (Binary64.ofDecimal false s.digits (digitCount s.digits) s.exponent).bits.toNat
    = x.magnitudeBits

/-- The two points around a quotient on the decimal grid of an exponent, the nearer
one first; of two equally near ones the even one comes first. -/
def gridPoints (num den : Nat) (exponent : Int) : List Scientific :=
  let n := num * Nat.pow 10 (-exponent).toNat
  let d := den * Nat.pow 10 exponent.toNat
  let below : Scientific := ⟨n / d, exponent⟩
  let above : Scientific := ⟨n / d + 1, exponent⟩
  if 2 * (n % d) < d ∨ (2 * (n % d) = d ∧ n / d % 2 = 0) then [below, above]
  else [above, below]

/-- The shortest digits that read back as the size of a finite number. -/
def shortest (x : Binary64) : Scientific :=
  let (num, den) := sizeQuotient x
  let power := powerAbove num den
  let candidates := (List.range 17).flatMap fun (n : Nat) =>
    gridPoints num den (power - (n + 1))
  ((candidates.find? (readsBack x)).getD ⟨num / den, 0⟩)

/-- Digits with a point in them: positional in the middle of the range, and else with
one digit in front of the point and an exponent of at least two digits. -/
def Scientific.toText (s : Scientific) : Text :=
  let digits := Text.ofNat s.digits
  let digits := (digits.reverse.dropWhile (· = '0')).reverse
  let place : Int := digitCount s.digits + s.exponent
  if digits = [] then "0.0".toList
  else if -4 < place ∧ place ≤ 16 then
    let place' := place.toNat
    if place ≤ 0 then
      "0.".toList ++ List.replicate (-place).toNat '0' ++ digits
    else if digits.length ≤ place' then
      digits ++ List.replicate (place' - digits.length) '0' ++ ".0".toList
    else digits.take place' ++ '.' :: digits.drop place'
  else
    let power := place - 1
    let size := Text.ofNat power.natAbs
    let size := if size.length < 2 then '0' :: size else size
    let point := if digits.length = 1 then [] else ['.']
    digits.take 1 ++ point ++ digits.drop 1 ++ 'e' :: (if power < 0 then '-' else '+') :: size

/-- A number of the binary format in shortest notation; infinities and no number are
words. -/
def decimalText (x : Binary64) : Text :=
  if x.isNaN then "NaN".toList
  else
    let sign := if x.isNegative then ['-'] else []
    if x.isFinite then sign ++ (shortest x).toText else sign ++ "Infinity".toList

end Playable.Number
