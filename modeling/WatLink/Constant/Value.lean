import WatLink.Binary64.Spelling
import WatLink.Numeral.Integer

/-!
# Constant values

Constants have one of four types.  Integers are words of 32 or 64 bits,
written as signed decimals.  Floating-point values of both precisions are held
as double-precision numbers; those of single precision are kept rounded.
-/

namespace WatLink

/-- The widths of integer constants. -/
inductive Width where
  | w32
  | w64
  deriving DecidableEq, Repr

/-- The number of bits of a width. -/
def Width.bits : Width → Nat
  | .w32 => 32
  | .w64 => 64

/-- The types of constants. -/
inductive ValueType where
  | int (width : Width)
  | float (precision : Precision)
  deriving DecidableEq, Repr

namespace ValueType

/-- The name of a type in the text format. -/
def name : ValueType → String
  | .int .w32 => "i32"
  | .int .w64 => "i64"
  | .float .single => "f32"
  | .float .double => "f64"

/-- The type with a name. -/
def ofName? (name : String) : Option ValueType :=
  [.int .w32, .int .w64, .float .single, .float .double].find? (·.name == name)

end ValueType

/-- A typed constant. -/
inductive Value where
  | int (width : Width) (word : BitVec width.bits)
  | float (precision : Precision) (number : Binary64)
  deriving DecidableEq, Repr

/-- The signed reading of an integer modulo a power of two. -/
def toSigned (bits : Nat) (number : Int) : Int :=
  (BitVec.ofInt bits number).toInt

namespace Value

/-- The type of a constant. -/
def type : Value → ValueType
  | .int width _ => .int width
  | .float precision _ => .float precision

/-- The literal of a constant. -/
def spell : Value → String
  | .int _ word => decimalNumeral word.toInt
  | .float precision number => number.spell precision

/-- The truth value of a comparison. -/
def ofBool (truth : Bool) : Value :=
  .int .w32 (if truth then 1 else 0)

end Value

/-- A number rounded to a precision. -/
def Precision.round : Precision → Binary64 → Binary64
  | .single, number => number.toSingle
  | .double, number => number

end WatLink
