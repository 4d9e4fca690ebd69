import WatLink.Binary64.Reading
import WatLink.Constant.Operator
import WatLink.Module.IndexSpace
import WatLink.Tree.Printer

/-!
# Evaluating constant expressions

A constant expression is a folded instruction over constants and the module's
globals.  The evaluator is a structural recursion over the expression that is
given a reader for globals; the reader evaluates the initializer of a global,
and keeps the globals whose evaluation is under way so that one that depends on
itself is refused.
-/

namespace WatLink

/-- Why a constant expression has no value. -/
inductive EvalError where
  /-- The expression is not a list with a tag. -/
  | notAnInstruction (expression : Tree)
  | constexprArity (tag : String)
  | unsupported (tag : String)
  | literalArity (tag : String)
  | invalidLiteral (type : ValueType) (text : String)
  | globalArity
  | unknownGlobal (reference : String)
  | noInitializer (reference : String)
  | selfDependent (reference : String)
  | unknownType (name : String)
  | typeMismatch (expected actual : ValueType) (expression : Tree)
  | operandCount (tag : String) (expected actual : Nat)
  | operandType (tag : String) (expected actual : ValueType)
  | integerExpected (tag : String) (actual : ValueType)
  | floatExpected (tag : String) (actual : ValueType)
  | invalidConversion (tag : String)
  | conversionOverflow (tag : String)
  | trap (trap : Trap)
  /-- The index of a global cannot be read. -/
  | globalNumeral (fault : NumeralFault)
  /-- A floating-point constant is too large. -/
  | tooLarge (fault : FloatFault)

namespace EvalError

/-- The wording of an error. -/
def message : EvalError → String
  | .notAnInstruction expression => "Expected an instruction, got " ++ expression.print
  | .constexprArity tag => tag ++ " expects exactly one expression"
  | .unsupported tag => "Unsupported instruction in constant expression: " ++ tag
  | .literalArity tag => tag ++ " expects one literal"
  | .invalidLiteral type text => s!"Invalid {type.name} literal " ++ Text.quoted text
  | .globalArity => "global.get expects one global reference"
  | .unknownGlobal reference => "Unknown global " ++ reference
  | .noInitializer reference => s!"Global {reference} has no constant initializer"
  | .selfDependent reference => s!"Global {reference} depends on itself"
  | .unknownType name => "Unknown constexpr type " ++ name
  | .typeMismatch expected actual expression =>
      s!"Expected a {expected.name} expression, got {actual.name}: " ++ expression.print
  | .operandCount tag expected actual =>
      s!"{tag} expects {expected} operand(s), got {actual}"
  | .operandType tag expected actual =>
      s!"{tag} expects {expected.name} operands, got {actual.name}"
  | .integerExpected tag actual =>
      s!"{tag} expects an integer operand, got {actual.name}"
  | .floatExpected tag actual => s!"{tag} expects a float operand, got {actual.name}"
  | .invalidConversion tag => tag ++ ": invalid conversion to integer"
  | .conversionOverflow tag => tag ++ ": integer overflow"
  | .trap .divideByZero => "integer divide by zero"
  | .trap .overflow => "integer overflow"
  | .globalNumeral fault => fault.message
  | .tooLarge fault => fault.message

end EvalError

/-- A global of a module, as far as constants go: its name and its
initializer. -/
structure Global where
  name : Option String
  initializer : Option Tree
  deriving DecidableEq

namespace Global

/-- Whether an item of a global declaration is its type. -/
def isType : Tree → Bool
  | .atom text => (ValueType.ofName? text).isSome
  | form => form.hasTag "mut"

/-- The initializer that follows a global's type: one folded instruction, or
the words of one. -/
def initializerOf : List Tree → Option Tree
  | [] => none
  | [.list items] => some (.list items)
  | items => if items.all (!·.isList) then some (.list items) else none

/-- The initializer of a global declaration. -/
def initializer? (form : Tree) : Option Tree :=
  match form.items.tail.dropWhile (!isType ·) with
  | [] => none
  | _ :: rest => initializerOf rest

/-- The global that a declaration makes.  Imported globals have no
initializer. -/
def ofDeclaration (declaration : Declaration) : Global :=
  ⟨declaration.form.identifier?,
    if declaration.imported then none else initializer? declaration.form⟩

end Global

/-- The globals of a module in index order. -/
def Module.globals (module : Tree) : List Global :=
  (Module.indexSpace module "global").map Global.ofDeclaration

namespace Constant

/-- Read a literal of a type. -/
def literal (type : ValueType) (text : String) : Except EvalError Value :=
  match type with
  | .int width =>
      match parseInt text with
      | .ok number => .ok (.int width (BitVec.ofInt width.bits number))
      | .error _ => .error (.invalidLiteral type text)
  | .float precision =>
      if isIntLiteral text then
        match parseInt text with
        | .error _ => .error (.invalidLiteral type text)
        | .ok number =>
            match Binary64.ofInteger number with
            | .ok number => .ok (.float precision (precision.round number))
            | .error fault => .error (.tooLarge fault)
      else
        match Binary64.parse text with
        | .ok number => .ok (.float precision (precision.round number))
        | .error .hexadecimalTooLarge => .error (.tooLarge .hexadecimalTooLarge)
        | .error _ => .error (.invalidLiteral type text)

/-- The only operand of an instruction. -/
def oneOperand {α : Type} (tag : String) : List α → Except EvalError α
  | [operand] => .ok operand
  | operands => .error (.operandCount tag 1 operands.length)

/-- The two operands of an instruction. -/
def twoOperands {α : Type} (tag : String) : List α → Except EvalError (α × α)
  | [first, second] => .ok (first, second)
  | operands => .error (.operandCount tag 2 operands.length)

/-- Operands that all have to be integers of one width. -/
def integers (tag : String) (width : Width) :
    List Value → Except EvalError (List (BitVec width.bits))
  | [] => .ok []
  | value :: rest =>
      match value with
      | .int actual word =>
          if same : actual = width then (integers tag width rest).map (same ▸ word :: ·)
          else .error (.operandType tag (.int width) (.int actual))
      | .float precision _ => .error (.operandType tag (.int width) (.float precision))

/-- Operands that all have to be floating-point numbers of one precision. -/
def floats (tag : String) (precision : Precision) :
    List Value → Except EvalError (List Binary64)
  | [] => .ok []
  | .float actual number :: rest =>
      if actual = precision then (floats tag precision rest).map (number :: ·)
      else .error (.operandType tag (.float precision) (.float actual))
  | .int width _ :: _ => .error (.operandType tag (.float precision) (.int width))

/-- Truncate a number to an integer that fits a width. -/
def truncateTo (tag : String) (width : Width) (signed : Bool) (number : Binary64) :
    Except EvalError Value :=
  if number.isFinite then
    let integer := number.truncInt
    let lower : Int := if signed then -Int.pow 2 (width.bits - 1) else 0
    let upper : Int :=
      if signed then Int.pow 2 (width.bits - 1) - 1 else Int.pow 2 width.bits - 1
    if lower ≤ integer ∧ integer ≤ upper then .ok (.int width (BitVec.ofInt width.bits integer))
    else .error (.conversionOverflow tag)
  else .error (.invalidConversion tag)

/-- Apply an instruction of an integer type to its operands.  The types of the
operands are checked before the name of the instruction, conversions apart. -/
def applyInt (tag : String) (width : Width) (operator? : Option IntOperator)
    (operands : List Value) : Except EvalError Value :=
  match operator? with
  | some .resize => do
      match ← oneOperand tag operands with
      | .int _ word => .ok (.int width (word.setWidth width.bits))
      | operand => .error (.integerExpected tag operand.type)
  | some .extendSigned => do
      match ← oneOperand tag operands with
      | .int _ word => .ok (.int width ((word.setWidth 32).signExtend width.bits))
      | operand => .error (.integerExpected tag operand.type)
  | some (.truncate signed) => do
      match ← oneOperand tag operands with
      | .float _ number => truncateTo tag width signed number
      | operand => .error (.floatExpected tag operand.type)
  | some .testZero => do
      let word ← oneOperand tag (← integers tag width operands)
      .ok (.ofBool (word == 0))
  | some (.unary operator) => do
      let word ← oneOperand tag (← integers tag width operands)
      .ok (.int width (operator.apply word))
  | some (.binary operator) => do
      let (first, second) ← twoOperands tag (← integers tag width operands)
      match operator.apply first second with
      | .ok word => .ok (.int width word)
      | .error trap => .error (.trap trap)
  | some (.compare comparison) => do
      let (first, second) ← twoOperands tag (← integers tag width operands)
      .ok (.ofBool (comparison.apply first second))
  | none => do
      let _ ← integers tag width operands
      .error (.unsupported tag)

/-- The number that a change of precision starts from.  An integer counts as
its unsigned value. -/
def numberOf : Value → Binary64
  | .int _ word => .ofInt word.toNat
  | .float _ number => number

/-- Apply an instruction of a floating-point type to its operands.  Results are
computed in double precision and then rounded to the precision of the type. -/
def applyFloat (tag : String) (precision : Precision) (operator? : Option FloatOperator)
    (operands : List Value) : Except EvalError Value :=
  match operator? with
  | some (.convert signed) => do
      match ← oneOperand tag operands with
      | .int _ word =>
          let number : Int := if signed then word.toInt else word.toNat
          .ok (.float precision (precision.round (.ofInt number)))
      | operand => .error (.integerExpected tag operand.type)
  | some .changePrecision => do
      let operand ← oneOperand tag operands
      .ok (.float precision (precision.round (numberOf operand)))
  | some (.unary operator) => do
      let number ← oneOperand tag (← floats tag precision operands)
      .ok (.float precision (precision.round (operator.apply number)))
  | some (.binary operator) => do
      let (first, second) ← twoOperands tag (← floats tag precision operands)
      .ok (.float precision (precision.round (operator.apply first second)))
  | some (.compare comparison) => do
      let (first, second) ← twoOperands tag (← floats tag precision operands)
      .ok (.ofBool (comparison.apply first second))
  | none => do
      let _ ← floats tag precision operands
      .error (.unsupported tag)

/-- Apply the instruction of a type with a name to its operands. -/
def applyInstruction (tag : String) (type : ValueType) (name : String)
    (operands : List Value) : Except EvalError Value :=
  match type with
  | .int width => applyInt tag width (IntOperator.ofName? name) operands
  | .float precision => applyFloat tag precision (FloatOperator.ofName? name) operands

/-- The ending of the tags that ask for evaluation. -/
def constexprEnding : List Char := ".constexpr".toList

/-- The type name in front of `.constexpr`, for a tag that ends so. -/
def constexprType? (tag : String) : Option String :=
  let characters := tag.toList
  if constexprEnding.isSuffixOf characters then
    some (String.ofList (characters.take (characters.length - constexprEnding.length)))
  else none

/-- The type and instruction name of a tag: what stands before and behind its
first point. -/
def instruction? (tag : String) : Option (ValueType × String) :=
  let characters := tag.toList
  let name := (characters.dropWhile (· != '.')).tail
  match ValueType.ofName? (String.ofList (characters.takeWhile (· != '.'))) with
  | some type => if name.isEmpty then none else some (type, String.ofList name)
  | none => none

/-- Hold a value to a type. -/
def expectType (type : ValueType) (expression : Tree) (value : Value) :
    Except EvalError Value :=
  if value.type = type then .ok value
  else .error (.typeMismatch type value.type expression)

mutual

/-- The value of an expression, given what global references evaluate to. -/
def eval (readGlobal : String → Except EvalError Value) : Tree → Except EvalError Value
  | .atom text => .error (.notAnInstruction (.atom text))
  | .list [] => .error (.notAnInstruction (.list []))
  | .list (.list items :: rest) => .error (.notAnInstruction (.list (.list items :: rest)))
  | .list (.atom tag :: arguments) =>
      if tag = "global.get" then
        match arguments with
        | [.atom reference] => readGlobal reference
        | _ => .error .globalArity
      else
        match constexprType? tag with
        | some name =>
            match arguments with
            | [argument] =>
                match ValueType.ofName? name with
                | none => .error (.unknownType name)
                | some type => eval readGlobal argument >>= expectType type argument
            | _ => .error (.constexprArity tag)
        | none =>
            match instruction? tag with
            | none => .error (.unsupported tag)
            | some (type, name) =>
                if name = "const" then
                  match arguments with
                  | [.atom text] => literal type text
                  | _ => .error (.literalArity tag)
                else evalAll readGlobal arguments >>= applyInstruction tag type name

/-- The values of several expressions, from left to right. -/
def evalAll (readGlobal : String → Except EvalError Value) :
    List Tree → Except EvalError (List Value)
  | [] => .ok []
  | expression :: rest =>
      match eval readGlobal expression with
      | .error error => .error error
      | .ok value => (evalAll readGlobal rest).map (value :: ·)

end

/-- The index of the global that a reference names. -/
def globalIndex (globals : List Global) (reference : String) : Except EvalError Nat :=
  if isIdentifier reference then
    match globals.findIdx? (·.name == some reference) with
    | some index => .ok index
    | none => .error (.unknownGlobal reference)
  else if isIntLiteral reference then
    match parseInt reference with
    | .error fault => .error (.globalNumeral fault)
    | .ok index =>
        if 0 ≤ index ∧ index < globals.length then .ok index.toNat
        else .error (.unknownGlobal reference)
  else .error (.unknownGlobal reference)

/-- The value of a global, while the globals with the active indices are being
evaluated.  Active indices are distinct, so as many nested readings as there
are globals suffice. -/
def evalGlobal (globals : List Global) :
    (depth : Nat) → (active : List Nat) → String → Except EvalError Value
  | depth, active, reference =>
      match globalIndex globals reference with
      | .error error => .error error
      | .ok index =>
          match globals[index]?.bind (·.initializer) with
          | none => .error (.noInitializer reference)
          | some initializer =>
              if active.contains index then .error (.selfDependent reference)
              else
                match depth with
                | 0 => .error (.selfDependent reference)
                | depth + 1 => eval (evalGlobal globals depth (index :: active)) initializer

/-- The value of an expression over some globals. -/
def evaluate (globals : List Global) (expression : Tree) : Except EvalError Value :=
  eval (evalGlobal globals globals.length []) expression

/-- The value of an expression that has to have the type with a name. -/
def evaluateAs (globals : List Global) (typeName : String) (expression : Tree) :
    Except EvalError Value :=
  match ValueType.ofName? typeName with
  | none => .error (.unknownType typeName)
  | some type => evaluate globals expression >>= expectType type expression

end Constant

end WatLink
