import WatLink.Binary64.Rounding

/-!
# Arithmetic on double-precision numbers

Each operation computes its exact result and rounds it once.  An operand that
is not a number is handed on, the first one of two, with its sign; an invalid
operation such as the difference of two infinities yields the default NaN,
whose sign bit is set.
-/

namespace WatLink

namespace Binary64

/-- A NaN with its quiet bit set. -/
def quiet (number : Binary64) : Binary64 :=
  ⟨number.bits ||| BitVec.ofNat 64 (Nat.pow 2 51)⟩

/-- What an operation yields that has no result among the numbers. -/
def invalid : Binary64 := notANumber true

/-- The signed significand of a finite number in units of a power of two whose
exponent is at most that of the number. -/
def signedUnits (number : Binary64) (exponent : Int) : Int :=
  let units : Int := number.significand * Int.pow 2 (number.exponent - exponent).toNat
  if number.isNegative then -units else units

/-- The sum of two numbers. -/
def add (first second : Binary64) : Binary64 :=
  if first.isNaN then first.quiet
  else if second.isNaN then second.quiet
  else if first.isInfinite then
    if second.isInfinite && first.isNegative != second.isNegative then invalid else first
  else if second.isInfinite then second
  else
    let exponent := min first.exponent second.exponent
    let sum := first.signedUnits exponent + second.signedUnits exponent
    if sum = 0 then signedZero (first.isNegative && second.isNegative)
    else ofScaled (decide (sum < 0)) sum.natAbs exponent

/-- The difference of two numbers. -/
def sub (first second : Binary64) : Binary64 :=
  if second.isNaN then (if first.isNaN then first.quiet else second.quiet)
  else add first second.neg

/-- The product of two numbers. -/
def mul (first second : Binary64) : Binary64 :=
  let negative := first.isNegative != second.isNegative
  if first.isNaN then first.quiet
  else if second.isNaN then second.quiet
  else if first.isInfinite || second.isInfinite then
    if first.isZero || second.isZero then invalid else infinity negative
  else
    ofScaled negative (first.significand * second.significand)
      (first.exponent + second.exponent)

/-- The quotient of two numbers. -/
def div (first second : Binary64) : Binary64 :=
  let negative := first.isNegative != second.isNegative
  if first.isNaN then first.quiet
  else if second.isNaN then second.quiet
  else if first.isInfinite then
    if second.isInfinite then invalid else infinity negative
  else if second.isInfinite then signedZero negative
  else if second.isZero then
    if first.isZero then invalid else infinity negative
  else
    let (numerator, denominator) :=
      divideByPowerOfTwo first.significand second.significand
        (second.exponent - first.exponent)
    ofQuotient negative numerator denominator

/-- Extend the root of a square, given to all but its `bitCount` lowest bits,
bit by bit to the greatest natural number whose square is at most `number`. -/
def extendRoot (number : Nat) : (bitCount : Nat) → (root : Nat) → Nat
  | 0, root => root
  | bitCount + 1, root =>
      let candidate := root + Nat.pow 2 bitCount
      extendRoot number bitCount (if candidate * candidate ≤ number then candidate else root)

/-- The greatest natural number whose square is at most a number. -/
def floorRoot (number : Nat) : Nat :=
  extendRoot number (number.log2 / 2 + 1) 0

/-- The square root of a number that is not negative.  The significand is
scaled so that its integer root has two bits more than a double holds; a lost
remainder is kept as one more bit below these, which rounds alike. -/
def sqrt (number : Binary64) : Binary64 :=
  if number.isNaN then number.quiet
  else if number.isZero then number
  else if number.isNegative then invalid
  else if number.isInfinite then number
  else
    let shift : Nat := if (number.exponent - 110) % 2 = 0 then 110 else 111
    let scaled := number.significand * Nat.pow 2 shift
    let exponent := (number.exponent - shift) / 2
    let root := floorRoot scaled
    if root * root = scaled then ofScaled false root exponent
    else ofScaled false (2 * root + 1) (exponent - 1)

/-- The integer part of a finite number's magnitude. -/
def truncatedMagnitude (number : Binary64) : Nat :=
  number.quotient.1 / number.quotient.2

/-- Whether a finite number has a fractional part. -/
def hasFraction (number : Binary64) : Bool :=
  number.quotient.1 % number.quotient.2 != 0

/-- A finite number rounded toward zero. -/
def truncInt (number : Binary64) : Int :=
  if number.isNegative then -(number.truncatedMagnitude : Int) else number.truncatedMagnitude

/-- A finite number rounded downward. -/
def floorInt (number : Binary64) : Int :=
  if number.isNegative && number.hasFraction then number.truncInt - 1 else number.truncInt

/-- A finite number rounded upward. -/
def ceilInt (number : Binary64) : Int :=
  if !number.isNegative && number.hasFraction then number.truncInt + 1 else number.truncInt

/-- A finite number rounded to the nearest integer, the even one of two. -/
def nearestInt (number : Binary64) : Int :=
  let rounded : Int := roundQuotient number.quotient.1 number.quotient.2
  if number.isNegative then -rounded else rounded

/-- Round a number to an integer, keeping its sign and what is not finite. -/
def roundWith (toInt : Binary64 → Int) (number : Binary64) : Binary64 :=
  if number.isFinite then copySign (ofInt (toInt number)) number else number

end Binary64

end WatLink
