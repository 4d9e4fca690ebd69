import WatLink.Binary64.Rounding

/-!
# Decimal approximations

A decimal is a natural number times a power of ten.  This module relates
decimals and double-precision numbers: the number nearest to a decimal, the
decimal of a given digit count nearest to a number, and the shortest decimal
that reads back as a number.  All comparisons are exact.
-/

namespace WatLink

/-- The value `digits * 10 ^ exponent`. -/
structure Decimal where
  digits : Nat
  exponent : Int
  deriving DecidableEq, Repr

/-- The number of decimal digits of a natural number; zero has one. -/
def decimalLength (number : Nat) : Nat :=
  (Nat.toDigits 10 number).length

/-- A quotient divided by a power of ten, as numerator and denominator. -/
def divideByPowerOfTen (numerator denominator : Nat) (exponent : Int) : Nat × Nat :=
  if exponent < 0 then (numerator * Nat.pow 10 (-exponent).toNat, denominator)
  else (numerator, denominator * Nat.pow 10 exponent.toNat)

/-- The greatest integer exponent whose power of ten is at most a positive
quotient. -/
def floorLog10 (numerator denominator : Nat) : Int :=
  if denominator ≤ numerator then decimalLength (numerator / denominator) - 1
  else
    let length := decimalLength (denominator / numerator)
    if denominator ≤ numerator * Nat.pow 10 (length - 1) then 1 - (length : Int) else -(length : Int)

namespace Decimal

/-- Decimals beyond this power of ten overflow every format, and decimals below
its inverse round to zero. -/
def decisiveExponent : Int := 400

/-- The double-precision significand and exponent nearest to a decimal, or
`none` on overflow. -/
def nearest (decimal : Decimal) : Option (Nat × Int) :=
  let length := decimalLength decimal.digits + decimal.exponent
  if decimal.digits = 0 ∨ length < -decisiveExponent then
    some (0, doubleFormat.minExponent)
  else if decisiveExponent < length then none
  else
    let (numerator, denominator) :=
      divideByPowerOfTen decimal.digits 1 (-decimal.exponent)
    doubleFormat.nearest numerator denominator

/-- The number nearest to a decimal, with the given sign; overflow gives
infinity. -/
def toBinary64 (negative : Bool) (decimal : Decimal) : Binary64 :=
  match decimal.nearest with
  | none => .infinity negative
  | some (significand, exponent) => .ofParts negative significand exponent

end Decimal

namespace Binary64

/-- Whether a decimal reads back as the magnitude of a number. -/
def readsBack (number : Binary64) (decimal : Decimal) : Bool :=
  decimal.toBinary64 number.isNegative == number

/-- The decimal with at most `count` significant digits that is nearest to a
finite number, the even one of two. -/
def significantDecimal (number : Binary64) (count : Nat) : Decimal :=
  if number.isZero then ⟨0, 0⟩
  else
    let (numerator, denominator) := number.quotient
    let exponent := floorLog10 numerator denominator - count + 1
    let (numerator', denominator') := divideByPowerOfTen numerator denominator exponent
    ⟨roundQuotient numerator' denominator', exponent⟩

/-- A decimal with at most `count` significant digits that reads back as a
finite nonzero number: of its two neighbours with that many digits, the one
that does, and the nearer one if both do. -/
def decimalOfLength? (number : Binary64) (count : Nat) : Option Decimal :=
  let (numerator, denominator) := number.quotient
  let exponent := floorLog10 numerator denominator - count + 1
  let (numerator', denominator') := divideByPowerOfTen numerator denominator exponent
  let below : Decimal := ⟨numerator' / denominator', exponent⟩
  let above : Decimal := ⟨below.digits + 1, exponent⟩
  let nearer : Decimal := ⟨roundQuotient numerator' denominator', exponent⟩
  if number.readsBack nearer then some nearer
  else if number.readsBack below then some below
  else if number.readsBack above then some above
  else none

/-- Seventeen significant digits tell any two double-precision numbers
apart. -/
def sufficientDigits : Nat := 17

/-- The decimal with the fewest digits that reads back as a finite number. -/
def shortestDecimal (number : Binary64) : Decimal :=
  if number.isZero then ⟨0, 0⟩
  else
    ((List.range sufficientDigits).findSome? fun index =>
        number.decimalOfLength? (index + 1)).getD
      (number.significantDecimal sufficientDigits)

end Binary64

end WatLink
