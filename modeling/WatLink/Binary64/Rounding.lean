import WatLink.Binary64.Basic

/-!
# Rounding to binary floating point

All conversions go through one function: the value nearest to an exact
quotient of natural numbers in a binary format, ties going to the even
significand.  Decimal and hexadecimal text, integers, single precision and the
arithmetic operations only differ in the quotient they hand to it.
-/

namespace WatLink

/-- The nearest natural number to a quotient, the even one of two. -/
def roundQuotient (numerator denominator : Nat) : Nat :=
  let quotient := numerator / denominator
  let remainder := numerator % denominator
  if 2 * remainder < denominator then quotient
  else if denominator < 2 * remainder then quotient + 1
  else if quotient % 2 = 0 then quotient
  else quotient + 1

/-- A quotient divided by a power of two, as numerator and denominator. -/
def divideByPowerOfTwo (numerator denominator : Nat) (exponent : Int) : Nat × Nat :=
  if exponent < 0 then (numerator * Nat.pow 2 (-exponent).toNat, denominator)
  else (numerator, denominator * Nat.pow 2 exponent.toNat)

/-- The greatest integer exponent whose power of two is at most a positive
quotient. -/
def floorLog2 (numerator denominator : Nat) : Int :=
  let estimate : Int := (numerator.log2 : Int) - denominator.log2
  let (numerator', denominator') := divideByPowerOfTwo numerator denominator estimate
  if denominator' ≤ numerator' then estimate else estimate - 1

/-- A binary format: the bits of a significand, and the least and greatest
exponent of the unit in which it counts. -/
structure BinaryFormat where
  precision : Nat
  minExponent : Int
  maxExponent : Int
  deriving DecidableEq, Repr

/-- The 64-bit format. -/
def doubleFormat : BinaryFormat := ⟨53, -1074, 971⟩

/-- The 32-bit format. -/
def singleFormat : BinaryFormat := ⟨24, -149, 104⟩

/-- The significand and exponent of the value nearest to a quotient, or `none`
when that lies beyond the greatest finite value. -/
def BinaryFormat.nearest (format : BinaryFormat) (numerator denominator : Nat) :
    Option (Nat × Int) :=
  if numerator = 0 then some (0, format.minExponent)
  else
    let exponent :=
      max format.minExponent (floorLog2 numerator denominator - (format.precision - 1))
    let (numerator', denominator') := divideByPowerOfTwo numerator denominator exponent
    let significand := roundQuotient numerator' denominator'
    let (significand, exponent) :=
      if significand = Nat.pow 2 format.precision then
        (Nat.pow 2 (format.precision - 1), exponent + 1)
      else (significand, exponent)
    if format.maxExponent < exponent then none else some (significand, exponent)

namespace Binary64

/-- The magnitude of a finite number as an exact quotient. -/
def quotient (number : Binary64) : Nat × Nat :=
  divideByPowerOfTwo number.significand 1 (-number.exponent)

/-- The number nearest to a quotient, with the given sign, or `none` on
overflow. -/
def ofQuotient? (negative : Bool) (numerator denominator : Nat) : Option Binary64 :=
  (doubleFormat.nearest numerator denominator).map fun (significand, exponent) =>
    ofParts negative significand exponent

/-- The number nearest to a quotient, with the given sign; overflow gives
infinity. -/
def ofQuotient (negative : Bool) (numerator denominator : Nat) : Binary64 :=
  (ofQuotient? negative numerator denominator).getD (infinity negative)

/-- The number nearest to an integer, or `none` on overflow. -/
def ofInt? (integer : Int) : Option Binary64 :=
  ofQuotient? (decide (integer < 0)) integer.natAbs 1

/-- The number nearest to an integer; overflow gives infinity. -/
def ofInt (integer : Int) : Binary64 :=
  (ofInt? integer).getD (infinity (decide (integer < 0)))

/-- The number nearest to a natural number times a power of two. -/
def ofScaled (negative : Bool) (significand : Nat) (exponent : Int) : Binary64 :=
  let (numerator, denominator) := divideByPowerOfTwo significand 1 (-exponent)
  ofQuotient negative numerator denominator

/-- The number rounded to single precision.  A finite number beyond the
greatest single-precision value becomes infinite. -/
def toSingle (number : Binary64) : Binary64 :=
  if number.isFinite then
    let (numerator, denominator) := number.quotient
    match singleFormat.nearest numerator denominator with
    | none => infinity number.isNegative
    | some (significand, exponent) => ofScaled number.isNegative significand exponent
  else number

end Binary64

end WatLink
