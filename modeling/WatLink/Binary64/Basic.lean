/-!
# Double-precision numbers

A double-precision number is its 64-bit pattern: a sign bit above a 63-bit
magnitude.  Magnitudes order numbers of one sign; those above the magnitude of
infinity are not numbers.  A finite number is an integer significand times a
power of two.
-/

namespace WatLink

/-- A binary floating-point number in the 64-bit interchange format. -/
structure Binary64 where
  bits : BitVec 64
  deriving DecidableEq, Repr, Inhabited

namespace Binary64

/-- Whether the sign bit is set. -/
def isNegative (number : Binary64) : Bool :=
  number.bits.msb

/-- The bit pattern below the sign. -/
def magnitude (number : Binary64) : Nat :=
  number.bits.toNat % Nat.pow 2 63

/-- The number with the given sign and magnitude. -/
def ofMagnitude (negative : Bool) (magnitude : Nat) : Binary64 :=
  ⟨BitVec.ofNat 64 ((if negative then Nat.pow 2 63 else 0) + magnitude % Nat.pow 2 63)⟩

/-- The magnitude of infinity. -/
def infiniteMagnitude : Nat := 2047 * Nat.pow 2 52

/-- Zero with a sign. -/
def signedZero (negative : Bool) : Binary64 :=
  ofMagnitude negative 0

/-- Infinity with a sign. -/
def infinity (negative : Bool) : Binary64 :=
  ofMagnitude negative infiniteMagnitude

/-- The quiet not-a-number without a payload. -/
def notANumber (negative : Bool) : Binary64 :=
  ofMagnitude negative (infiniteMagnitude + Nat.pow 2 51)

/-- Whether a pattern is not a number. -/
def isNaN (number : Binary64) : Bool :=
  decide (infiniteMagnitude < number.magnitude)

/-- Whether a number is infinite. -/
def isInfinite (number : Binary64) : Bool :=
  number.magnitude == infiniteMagnitude

/-- Whether a number is finite. -/
def isFinite (number : Binary64) : Bool :=
  decide (number.magnitude < infiniteMagnitude)

/-- Whether a number is a zero of either sign. -/
def isZero (number : Binary64) : Bool :=
  number.magnitude == 0

/-- The integer significand of a finite number. -/
def significand (number : Binary64) : Nat :=
  if number.magnitude < Nat.pow 2 52 then number.magnitude
  else number.magnitude % Nat.pow 2 52 + Nat.pow 2 52

/-- The exponent of the unit in which the significand of a finite number
counts. -/
def exponent (number : Binary64) : Int :=
  if number.magnitude < Nat.pow 2 52 then -1074
  else ((number.magnitude / Nat.pow 2 52 : Nat) : Int) - 1075

/-- The finite number with the given sign, significand and exponent.  The
significand has 53 bits, or the exponent is the least one. -/
def ofParts (negative : Bool) (significand : Nat) (exponent : Int) : Binary64 :=
  if significand < Nat.pow 2 52 then ofMagnitude negative significand
  else ofMagnitude negative ((exponent + 1075).toNat * Nat.pow 2 52 + (significand - Nat.pow 2 52))

/-- An integer that orders the numbers that are not NaN as their values; both
zeros have the same one. -/
def orderKey (number : Binary64) : Int :=
  if number.isNegative then -(number.magnitude : Int) else number.magnitude

/-- Numeric equality: the zeros are equal and a NaN differs from itself. -/
def eq (first second : Binary64) : Bool :=
  !first.isNaN && !second.isNaN && first.orderKey == second.orderKey

/-- Numeric strict order; a NaN is not ordered. -/
def lt (first second : Binary64) : Bool :=
  !first.isNaN && !second.isNaN && decide (first.orderKey < second.orderKey)

/-- Numeric order; a NaN is not ordered. -/
def le (first second : Binary64) : Bool :=
  !first.isNaN && !second.isNaN && decide (first.orderKey ≤ second.orderKey)

/-- The number with its sign bit flipped. -/
def neg (number : Binary64) : Binary64 :=
  ofMagnitude (!number.isNegative) number.magnitude

/-- The number with its sign bit cleared. -/
def abs (number : Binary64) : Binary64 :=
  ofMagnitude false number.magnitude

/-- The first number with the sign bit of the second. -/
def copySign (number sign : Binary64) : Binary64 :=
  ofMagnitude sign.isNegative number.magnitude

end Binary64

end WatLink
