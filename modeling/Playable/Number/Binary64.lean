/-!
# Binary floating-point numbers

The numbers of the 64-bit binary format, kept as their bits. Conversions are
exact: a quotient of natural numbers is rounded to the nearest number of the
format, a tie to the even one, and too large a quotient becomes infinite.
-/

namespace Playable

/-- A number of the 64-bit binary format, given by its bits. -/
structure Binary64 where
  /-- Sign, eleven bits of exponent and fifty-two bits of fraction. -/
  bits : UInt64
  deriving DecidableEq, Repr

namespace Binary64

/-- Half a unit or more above `q` rounds up, but exactly half goes to the even
neighbour; the quotient is `q` and a remainder over `den`. -/
def roundEven (q remainder den : Nat) : Nat :=
  if den < 2 * remainder ∨ (2 * remainder = den ∧ q % 2 = 1) then q + 1 else q

/-- The number of fractions of one exponent: two to the power fifty-two. -/
def fractions : Nat :=
  0x10000000000000

/-- The value of the sign bit: two to the power sixty-three. -/
def signBit : Nat :=
  0x8000000000000000

/-- The bits of positive infinity. -/
def infinityBits : Nat :=
  0x7FF * fractions

/-- The bits of the positive number nearest to `num / den`. The binary exponent
of the last place is chosen so that the rounded quotient has fifty-three bits,
but never below the exponent of the smallest numbers. -/
def quotientBits (num den : Nat) : Nat :=
  if num = 0 ∨ den = 0 then 0
  else
    let guess : Int := (num.log2 : Int) - den.log2 - 52
    let scaled (e : Int) : Nat × Nat := 
      (num * Nat.pow 2 (-e).toNat, den * Nat.pow 2 e.toNat)
    let (n, d) := scaled guess
    let exponent := max (if n < d * fractions then guess - 1 else guess) (-1074)
    let (n, d) := scaled exponent
    min ((exponent + 1074).toNat * fractions + roundEven (n / d) (n % d) d) infinityBits

/-- The number with a sign and the given bits below the sign. -/
def ofMagnitude (negative : Bool) (bits : Nat) : Binary64 :=
  ⟨UInt64.ofNat (bits + if negative then signBit else 0)⟩

/-- The number nearest to plus or minus `num / den`. -/
def ofQuotient (negative : Bool) (num den : Nat) : Binary64 :=
  ofMagnitude negative (quotientBits num den)

/-- The number nearest to plus or minus `digits` times a power of ten, where
`digits` has `count` decimal digits. Beyond the range of the format the power
itself need not be computed. -/
def ofDecimal (negative : Bool) (digits count : Nat) (exponent : Int) : Binary64 :=
  if digits = 0 then ofMagnitude negative 0
  else if 400 < exponent + count then ofMagnitude negative infinityBits
  else if exponent + count < -400 then ofMagnitude negative 0
  else ofQuotient negative (digits * Nat.pow 10 exponent.toNat)
    (Nat.pow 10 (-exponent).toNat)

/-- Positive or negative infinity. -/
def infinity (negative : Bool) : Binary64 :=
  ofMagnitude negative infinityBits

/-- The quiet number that is no number. -/
def nan : Binary64 :=
  ⟨0x7FF8000000000000⟩

/-- The bits below the sign. -/
def magnitudeBits (x : Binary64) : Nat :=
  x.bits.toNat % signBit

/-- Whether the sign bit is set. -/
def isNegative (x : Binary64) : Bool :=
  signBit ≤ x.bits.toNat

/-- Whether this is no number. -/
def isNaN (x : Binary64) : Bool :=
  infinityBits < x.magnitudeBits

/-- Whether this is a finite number. -/
def isFinite (x : Binary64) : Bool :=
  x.magnitudeBits < infinityBits

/-- The number nearest to an integer, unless it is too large. -/
def ofInt? (i : Int) : Option Binary64 :=
  let x := ofQuotient (i < 0) i.natAbs 1
  if x.isFinite then some x else none

/-- The digits of a finite number in binary, as one number. -/
def mantissa (x : Binary64) : Nat :=
  let fraction := x.magnitudeBits % fractions
  if x.magnitudeBits < fractions then fraction else fractions + fraction

/-- The power of two of the last binary digit. -/
def exponent (x : Binary64) : Int :=
  (max (x.magnitudeBits / fractions) 1 : Nat) - 1075

/-- The integer that a finite number is, if it is one. -/
def toInt? (x : Binary64) : Option Int :=
  if !x.isFinite then none
  else
    let scale : Nat := Nat.pow 2 (-x.exponent).toNat
    if x.mantissa % scale = 0 then
      let size : Nat := x.mantissa / scale * Nat.pow 2 x.exponent.toNat
      some (if x.isNegative then -(size : Int) else size)
    else none

end Binary64
end Playable
