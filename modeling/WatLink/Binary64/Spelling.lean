import WatLink.Binary64.Decimal

/-!
# Spelling double-precision numbers

Decimal digits are laid out positionally for moderate exponents and with an
explicit exponent otherwise.  A double-precision constant is spelled by the
shortest decimal that reads back; a single-precision constant by the fewest
significant digits whose value, rounded to single precision, is the constant.
-/

namespace WatLink

/-- How decimal digits are laid out. -/
structure DecimalStyle where
  /-- Exponents from this one on are written explicitly. -/
  positionalLimit : Int
  /-- Whether an integral positional number keeps a fraction `.0`. -/
  keepsPoint : Bool
  deriving DecidableEq, Repr

namespace DecimalStyle

/-- Positional up to sixteen digits, always with a point. -/
def double : DecimalStyle := ⟨16, true⟩

/-- Positional up to the number of significant digits asked for. -/
def significant (count : Nat) : DecimalStyle := ⟨count, false⟩

/-- Decimal digits without the zeros at their end. -/
def withoutFinalZeros (digits : List Char) : List Char :=
  (digits.reverse.dropWhile (· == '0')).reverse

/-- An exponent mark: a sign and at least two digits. -/
def exponentMark (exponent : Int) : List Char :=
  let digits := Nat.toDigits 10 exponent.natAbs
  'e' :: (if exponent < 0 then '-' else '+') ::
    (List.replicate (2 - digits.length) '0' ++ digits)

/-- Lay out significant digits, the first of which counts powers of ten of the
given exponent. -/
def layout (style : DecimalStyle) (digits : List Char) (exponent : Int) : List Char :=
  if exponent < -4 ∨ style.positionalLimit ≤ exponent then
    match digits with
    | [] => []
    | first :: [] => first :: exponentMark exponent
    | first :: rest => first :: '.' :: (rest ++ exponentMark exponent)
  else if exponent < 0 then
    '0' :: '.' :: (List.replicate (-exponent - 1).toNat '0' ++ digits)
  else
    let whole := exponent.toNat + 1
    let integral := digits.take whole ++ List.replicate (whole - digits.length) '0'
    let fraction := digits.drop whole
    if fraction.isEmpty then (if style.keepsPoint then integral ++ ['.', '0'] else integral)
    else integral ++ '.' :: fraction

/-- The spelling of a decimal with a sign. -/
def spell (style : DecimalStyle) (negative : Bool) (decimal : Decimal) : String :=
  let sign := if negative then ['-'] else []
  let digits := Nat.toDigits 10 decimal.digits
  let characters :=
    if decimal.digits = 0 then style.layout ['0'] 0
    else
      style.layout (withoutFinalZeros digits) (decimal.exponent + digits.length - 1)
  String.ofList (sign ++ characters)

end DecimalStyle

/-- The two floating-point types of the text format. -/
inductive Precision where
  | single
  | double
  deriving DecidableEq, Repr

namespace Binary64

/-- The spelling of a finite number by its shortest decimal. -/
def spellShortest (number : Binary64) : String :=
  DecimalStyle.double.spell number.isNegative number.shortestDecimal

/-- Whether a decimal, read and rounded to single precision, equals a number. -/
def readsBackAsSingle (number : Binary64) (decimal : Decimal) : Bool :=
  (decimal.toBinary64 number.isNegative).toSingle.eq number

/-- The spelling of a finite number by the fewest significant digits that read
back in single precision, if there are any. -/
def spellSingle? (number : Binary64) : Option String :=
  (List.range sufficientDigits).findSome? fun index =>
    let decimal := number.significantDecimal (index + 1)
    if number.readsBackAsSingle decimal then
      some ((DecimalStyle.significant (index + 1)).spell number.isNegative decimal)
    else none

/-- The spelling of a number as a constant of a type. -/
def spell (precision : Precision) (number : Binary64) : String :=
  if number.isNaN then (if number.isNegative then "-nan" else "nan")
  else if number.isInfinite then (if number.isNegative then "-inf" else "inf")
  else
    match precision with
    | .double => number.spellShortest
    | .single => number.spellSingle?.getD number.spellShortest

end Binary64

end WatLink
