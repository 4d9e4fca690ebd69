import WatLink.Binary64.Arithmetic
import WatLink.Constant.Value

/-!
# Operators of constant expressions

The numeric instructions that a constant expression may use, by their operand
types.  Integer arithmetic wraps around; shift and rotation counts are taken
modulo the width.  What would trap is a failure.
-/

namespace WatLink

/-- What makes an operation on integers trap. -/
inductive Trap where
  | divideByZero
  | overflow
  deriving DecidableEq, Repr

/-- Binary operators on integers of one width. -/
inductive IntBinary where
  | add | sub | mul | divS | divU | remS | remU | and | or | xor
  | shl | shrS | shrU | rotl | rotr
  deriving DecidableEq, Repr

/-- Unary operators on integers. -/
inductive IntUnary where
  | clz | ctz | popcnt
  deriving DecidableEq, Repr

/-- Comparisons of integers of one width. -/
inductive IntCompare where
  | eq | ne | ltS | ltU | gtS | gtU | leS | leU | geS | geU
  deriving DecidableEq, Repr

/-- Binary operators on floating-point numbers of one precision. -/
inductive FloatBinary where
  | add | sub | mul | div | min | max | copysign
  deriving DecidableEq, Repr

/-- Unary operators on floating-point numbers. -/
inductive FloatUnary where
  | neg | abs | sqrt | ceil | floor | trunc | nearest
  deriving DecidableEq, Repr

/-- Comparisons of floating-point numbers of one precision. -/
inductive FloatCompare where
  | eq | ne | lt | gt | le | ge
  deriving DecidableEq, Repr

namespace IntBinary

/-- The operators by their names. -/
def named : List (String × IntBinary) :=
  [("add", .add), ("sub", .sub), ("mul", .mul), ("div_s", .divS), ("div_u", .divU),
    ("rem_s", .remS), ("rem_u", .remU), ("and", .and), ("or", .or), ("xor", .xor),
    ("shl", .shl), ("shr_s", .shrS), ("shr_u", .shrU), ("rotl", .rotl), ("rotr", .rotr)]

/-- The operator with a name. -/
def ofName? (name : String) : Option IntBinary :=
  named.lookup name

/-- Apply an operator. -/
def apply {bits : Nat} (operator : IntBinary) (first second : BitVec bits) :
    Except Trap (BitVec bits) :=
  match operator with
  | .add => .ok (first + second)
  | .sub => .ok (first - second)
  | .mul => .ok (first * second)
  | .divS =>
      if second = 0 then .error .divideByZero
      else if first = BitVec.intMin bits ∧ second = BitVec.allOnes bits then .error .overflow
      else .ok (first.sdiv second)
  | .divU => if second = 0 then .error .divideByZero else .ok (first / second)
  | .remS => if second = 0 then .error .divideByZero else .ok (first.srem second)
  | .remU => if second = 0 then .error .divideByZero else .ok (first % second)
  | .and => .ok (first &&& second)
  | .or => .ok (first ||| second)
  | .xor => .ok (first ^^^ second)
  | .shl => .ok (first <<< (second.toNat % bits))
  | .shrS => .ok (first.sshiftRight (second.toNat % bits))
  | .shrU => .ok (first >>> (second.toNat % bits))
  | .rotl => .ok (first.rotateLeft (second.toNat % bits))
  | .rotr => .ok (first.rotateRight (second.toNat % bits))

end IntBinary

namespace IntUnary

/-- The operators by their names. -/
def named : List (String × IntUnary) :=
  [("clz", .clz), ("ctz", .ctz), ("popcnt", .popcnt)]

/-- The operator with a name. -/
def ofName? (name : String) : Option IntUnary :=
  named.lookup name

/-- Apply an operator. -/
def apply {bits : Nat} (operator : IntUnary) (word : BitVec bits) : BitVec bits :=
  match operator with
  | .clz => word.clz
  | .ctz => word.ctz
  | .popcnt => word.cpop

end IntUnary

namespace IntCompare

/-- The comparisons by their names. -/
def named : List (String × IntCompare) :=
  [("eq", .eq), ("ne", .ne), ("lt_s", .ltS), ("lt_u", .ltU), ("gt_s", .gtS), ("gt_u", .gtU),
    ("le_s", .leS), ("le_u", .leU), ("ge_s", .geS), ("ge_u", .geU)]

/-- The comparison with a name. -/
def ofName? (name : String) : Option IntCompare :=
  named.lookup name

/-- Whether a comparison holds. -/
def apply {bits : Nat} (comparison : IntCompare) (first second : BitVec bits) : Bool :=
  match comparison with
  | .eq => first == second
  | .ne => first != second
  | .ltS => first.slt second
  | .ltU => first.ult second
  | .gtS => second.slt first
  | .gtU => second.ult first
  | .leS => first.sle second
  | .leU => first.ule second
  | .geS => second.sle first
  | .geU => second.ule first

end IntCompare

namespace FloatBinary

/-- The operators by their names. -/
def named : List (String × FloatBinary) :=
  [("add", .add), ("sub", .sub), ("mul", .mul), ("div", .div), ("min", .min), ("max", .max),
    ("copysign", .copysign)]

/-- The operator with a name. -/
def ofName? (name : String) : Option FloatBinary :=
  named.lookup name

/-- Division, where a zero divisor makes a NaN without a sign of a zero or NaN
dividend and an infinity of anything else. -/
def divide (first second : Binary64) : Binary64 :=
  if second.isZero then
    if first.isZero || first.isNaN then .notANumber false
    else .infinity (first.isNegative != second.isNegative)
  else first.div second

/-- The lesser of two numbers; the negative zero is less than the positive
one, and a NaN makes a NaN. -/
def minimum (first second : Binary64) : Binary64 :=
  if first.isNaN || second.isNaN then .notANumber false
  else if first.isZero && second.isZero then (if first.isNegative then first else second)
  else if second.lt first then second else first

/-- The greater of two numbers; the positive zero is greater than the negative
one, and a NaN makes a NaN. -/
def maximum (first second : Binary64) : Binary64 :=
  if first.isNaN || second.isNaN then .notANumber false
  else if first.isZero && second.isZero then (if first.isNegative then second else first)
  else if first.lt second then second else first

/-- Apply an operator in double precision. -/
def apply : FloatBinary → Binary64 → Binary64 → Binary64
  | .add => .add
  | .sub => .sub
  | .mul => .mul
  | .div => divide
  | .min => minimum
  | .max => maximum
  | .copysign => .copySign

end FloatBinary

namespace FloatUnary

/-- The operators by their names. -/
def named : List (String × FloatUnary) :=
  [("neg", .neg), ("abs", .abs), ("sqrt", .sqrt), ("ceil", .ceil), ("floor", .floor),
    ("trunc", .trunc), ("nearest", .nearest)]

/-- The operator with a name. -/
def ofName? (name : String) : Option FloatUnary :=
  named.lookup name

/-- The square root; a NaN or negative number makes a NaN without a sign. -/
def squareRoot (number : Binary64) : Binary64 :=
  if number.isNaN || (number.isNegative && !number.isZero) then .notANumber false
  else number.sqrt

/-- Apply an operator in double precision. -/
def apply : FloatUnary → Binary64 → Binary64
  | .neg => .neg
  | .abs => .abs
  | .sqrt => squareRoot
  | .ceil => .roundWith Binary64.ceilInt
  | .floor => .roundWith Binary64.floorInt
  | .trunc => .roundWith Binary64.truncInt
  | .nearest => .roundWith Binary64.nearestInt

end FloatUnary

namespace FloatCompare

/-- The comparisons by their names. -/
def named : List (String × FloatCompare) :=
  [("eq", .eq), ("ne", .ne), ("lt", .lt), ("gt", .gt), ("le", .le), ("ge", .ge)]

/-- The comparison with a name. -/
def ofName? (name : String) : Option FloatCompare :=
  named.lookup name

/-- Whether a comparison holds. -/
def apply (comparison : FloatCompare) (first second : Binary64) : Bool :=
  match comparison with
  | .eq => first.eq second
  | .ne => !first.eq second
  | .lt => first.lt second
  | .gt => second.lt first
  | .le => first.le second
  | .ge => second.le first

end FloatCompare

/-- The instructions of an integer type, without its constants. -/
inductive IntOperator where
  /-- Keep the low bits of an integer, or extend it by zeros. -/
  | resize
  /-- Extend the low 32 bits of an integer by their sign. -/
  | extendSigned
  /-- Truncate a floating-point number. -/
  | truncate (signed : Bool)
  | testZero
  | unary (operator : IntUnary)
  | binary (operator : IntBinary)
  | compare (comparison : IntCompare)
  deriving DecidableEq, Repr

/-- The instruction of an integer type with a name.  Truncations are told by
the start of their name, and whether they are unsigned by its end. -/
def IntOperator.ofName? (name : String) : Option IntOperator :=
  if name = "wrap_i64" ∨ name = "extend_i32_u" then some .resize
  else if name = "extend_i32_s" then some .extendSigned
  else if "trunc_f".toList.isPrefixOf name.toList then
    some (.truncate (!"_u".toList.isSuffixOf name.toList))
  else if name = "eqz" then some .testZero
  else
    (IntUnary.ofName? name).map .unary <|> (IntBinary.ofName? name).map .binary <|>
      (IntCompare.ofName? name).map .compare

/-- The instructions of a floating-point type, without its constants. -/
inductive FloatOperator where
  /-- Convert an integer. -/
  | convert (signed : Bool)
  /-- Change the precision of a number. -/
  | changePrecision
  | unary (operator : FloatUnary)
  | binary (operator : FloatBinary)
  | compare (comparison : FloatCompare)
  deriving DecidableEq, Repr

/-- The instruction of a floating-point type with a name.  Conversions are told
by the start of their name, and whether they are unsigned by its end. -/
def FloatOperator.ofName? (name : String) : Option FloatOperator :=
  if "convert_i".toList.isPrefixOf name.toList then
    some (.convert (!"_u".toList.isSuffixOf name.toList))
  else if name = "promote_f32" ∨ name = "demote_f64" then some .changePrecision
  else
    (FloatUnary.ofName? name).map .unary <|> (FloatBinary.ofName? name).map .binary <|>
      (FloatCompare.ofName? name).map .compare

end WatLink
