import Mathlib
import WatLink.Proofs.EvaluatorRequests
import WatLink.Proofs.IntegerLiterals
import WatLink.Proofs.WordArithmetic

/-!
# Well-typed integer expressions

The integer expressions that a constant may be written as, as a family indexed
by their width, so that an expression that is not well typed cannot be built.
An expression has a tree, which is what the evaluator reads, and a meaning in
the integer arithmetic of WebAssembly.

The evaluator is related to the meaning in two steps.  It computes a word for
each expression, by the operators on words, and this word is the number that
the expression means.
-/

namespace WatLink

/-! ## Instructions -/

/-- The name of an operator in the text format. -/
def IntBinary.name : IntBinary → String
  | .add => "add"
  | .sub => "sub"
  | .mul => "mul"
  | .divS => "div_s"
  | .divU => "div_u"
  | .remS => "rem_s"
  | .remU => "rem_u"
  | .and => "and"
  | .or => "or"
  | .xor => "xor"
  | .shl => "shl"
  | .shrS => "shr_s"
  | .shrU => "shr_u"
  | .rotl => "rotl"
  | .rotr => "rotr"

/-- The name of an operator in the text format. -/
def IntUnary.name : IntUnary → String
  | .clz => "clz"
  | .ctz => "ctz"
  | .popcnt => "popcnt"

/-- The name of a comparison in the text format. -/
def IntCompare.name : IntCompare → String
  | .eq => "eq"
  | .ne => "ne"
  | .ltS => "lt_s"
  | .ltU => "lt_u"
  | .gtS => "gt_s"
  | .gtU => "gt_u"
  | .leS => "le_s"
  | .leU => "le_u"
  | .geS => "ge_s"
  | .geU => "ge_u"

/-- The name of an extension to 64 bits. -/
def extensionName (signed : Bool) : String :=
  if signed then "extend_i32_s" else "extend_i32_u"

/-- An instruction of an integer type on its operands. -/
def folded (width : Width) (name : String) (operands : List Tree) : Tree :=
  .form ((ValueType.int width).instruction name) operands

/-- A literal of an integer constant. -/
structure ConstantLiteral where
  text : String
  literal : IntLiteral
  isText : literal.IsText text
  short : literal.radix = .decimal → literal.digits.length ≤ digitLimit

/-- Integer expressions of a width. -/
inductive IntExpression : Width → Type
  | const {width : Width} (literal : ConstantLiteral) : IntExpression width
  | unary {width : Width} (operator : IntUnary) (operand : IntExpression width) :
      IntExpression width
  | binary {width : Width} (operator : IntBinary) (first second : IntExpression width) :
      IntExpression width
  | testZero (operands : Width) (operand : IntExpression operands) : IntExpression .w32
  | compare (operands : Width) (comparison : IntCompare)
      (first second : IntExpression operands) : IntExpression .w32
  | wrap (operand : IntExpression .w64) : IntExpression .w32
  | extend (signed : Bool) (operand : IntExpression .w32) : IntExpression .w64
  | constexpr {width : Width} (operand : IntExpression width) : IntExpression width

namespace IntExpression

/-- The tree of an expression. -/
def tree {width : Width} : IntExpression width → Tree
  | .const literal => folded width "const" [.atom literal.text]
  | .unary operator operand => folded width operator.name [operand.tree]
  | .binary operator first second => folded width operator.name [first.tree, second.tree]
  | .testZero operands operand => folded operands "eqz" [operand.tree]
  | .compare operands comparison first second =>
      folded operands comparison.name [first.tree, second.tree]
  | .wrap operand => folded .w32 "wrap_i64" [operand.tree]
  | .extend signed operand => folded .w64 (extensionName signed) [operand.tree]
  | .constexpr operand => folded width "constexpr" [operand.tree]

/-- What an expression means: a number below two to its width, or a trap. -/
def denote {width : Width} : IntExpression width → Except Trap Nat
  | .const literal => .ok (residue width.bits literal.literal.value)
  | .unary operator operand => operand.denote.map (operator.result width.bits)
  | .binary operator first second => do
      let firstNumber ← first.denote
      let secondNumber ← second.denote
      operator.compute width.bits firstNumber secondNumber
  | .testZero _ operand => operand.denote.map fun number => if number = 0 then 1 else 0
  | .compare operands comparison first second => do
      let firstNumber ← first.denote
      let secondNumber ← second.denote
      .ok (if comparison.Holds operands.bits firstNumber secondNumber then 1 else 0)
  | .wrap operand => operand.denote.map (· % 2 ^ 32)
  | .extend true operand => operand.denote.map fun number => residue 64 (signedReading 32 number)
  | .extend false operand => operand.denote
  | .constexpr operand => operand.denote

/-- Whether an expression holds a division or remainder that is evaluated and
fails: its divisor is zero, or it is the signed quotient of the least number
and minus one. -/
def Faults {width : Width} : IntExpression width → Prop
  | .const _ => False
  | .unary _ operand => operand.Faults
  | .binary operator first second =>
      first.Faults ∨ second.Faults ∨
        ∃ dividend divisor, first.denote = .ok dividend ∧ second.denote = .ok divisor ∧
          operator.Fails width.bits dividend divisor
  | .testZero _ operand => operand.Faults
  | .compare _ _ first second => first.Faults ∨ second.Faults
  | .wrap operand => operand.Faults
  | .extend _ operand => operand.Faults
  | .constexpr operand => operand.Faults

/-- The word that an expression evaluates to, by the operators on words. -/
def word {width : Width} : IntExpression width → Except Trap (BitVec width.bits)
  | .const literal => .ok (BitVec.ofInt width.bits literal.literal.value)
  | .unary operator operand => operand.word.map operator.apply
  | .binary operator first second => do
      let firstWord ← first.word
      let secondWord ← second.word
      operator.apply firstWord secondWord
  | .testZero _ operand => operand.word.map fun word => if word == 0 then 1 else 0
  | .compare _ comparison first second => do
      let firstWord ← first.word
      let secondWord ← second.word
      .ok (if comparison.apply firstWord secondWord then 1 else 0)
  | .wrap operand => operand.word.map (·.setWidth 32)
  | .extend true operand => operand.word.map fun word => (word.setWidth 32).signExtend 64
  | .extend false operand => operand.word.map (·.setWidth 64)
  | .constexpr operand => operand.word

end IntExpression

/-! ## Evaluating an instruction -/

namespace Constant

/-- A name behind an integer type that names an operator. -/
structure IsOperation (width : Width) (name : String) (operator : IntOperator) : Prop extends
    IsTag ((ValueType.int width).instruction name) (.int width) name where
  notConst : name ≠ "const"
  named : IntOperator.ofName? name = some operator

theorem isOperation_unary (width : Width) (operator : IntUnary) :
    IsOperation width operator.name (.unary operator) := by
  cases width <;> cases operator <;> exact ⟨⟨rfl, rfl⟩, by decide, rfl⟩

theorem isOperation_binary (width : Width) (operator : IntBinary) :
    IsOperation width operator.name (.binary operator) := by
  cases width <;> cases operator <;> exact ⟨⟨rfl, rfl⟩, by decide, rfl⟩

theorem isOperation_compare (width : Width) (comparison : IntCompare) :
    IsOperation width comparison.name (.compare comparison) := by
  cases width <;> cases comparison <;> exact ⟨⟨rfl, rfl⟩, by decide, rfl⟩

theorem isOperation_testZero (width : Width) : IsOperation width "eqz" .testZero := by
  cases width <;> exact ⟨⟨rfl, rfl⟩, by decide, rfl⟩

theorem isOperation_wrap : IsOperation .w32 "wrap_i64" .resize :=
  ⟨⟨rfl, rfl⟩, by decide, rfl⟩

theorem isOperation_extend (signed : Bool) :
    IsOperation .w64 (extensionName signed) (if signed then .extendSigned else .resize) := by
  cases signed <;> exact ⟨⟨rfl, rfl⟩, by decide, rfl⟩

variable {width : Width} {readGlobal : String → Except EvalError Value}

theorem eval_folded {name : String} {operator : IntOperator}
    (isOperation : IsOperation width name operator) (operands : List Tree) :
    eval readGlobal (folded width name operands) =
      evalAll readGlobal operands >>=
        applyInt ((ValueType.int width).instruction name) width (some operator) := by
  rw [eval_eq_outcome, folded, request_operation isOperation.toIsTag isOperation.notConst]
  refine congrArg (evalAll readGlobal operands >>= ·) ?_
  funext values
  rw [applyInstruction, isOperation.named]

theorem eval_const (literal : ConstantLiteral) :
    eval readGlobal (folded width "const" [.atom literal.text]) =
      .ok (.int width (BitVec.ofInt width.bits literal.literal.value)) := by
  have reads := literal.isText.parseInt literal.short
  rw [eval_eq_outcome, folded, request_constant (isTag_const _)]
  simp only [Request.outcome, Constant.literal, reads]

theorem eval_constexpr (operand : Tree) :
    eval readGlobal (folded width "constexpr" [operand]) =
      eval readGlobal operand >>= expectType (.int width) operand := by
  rw [eval_eq_outcome, folded, request_constexpr (constexprType?_constexpr _)]
  rfl

/-- What a word or a trap is to the evaluator. -/
def outcome (width : Width) : Except Trap (BitVec width.bits) → Except EvalError Value
  | .ok word => .ok (.int width word)
  | .error trap => .error (.trap trap)

theorem integers_one (tag : String) (word : BitVec width.bits) :
    integers tag width [.int width word] = .ok [word] := by
  simp [integers, Except.map]

theorem integers_two (tag : String) (first second : BitVec width.bits) :
    integers tag width [.int width first, .int width second] = .ok [first, second] := by
  simp [integers, Except.map]

theorem applyInt_unary (tag : String) (operator : IntUnary) (word : BitVec width.bits) :
    applyInt tag width (some (.unary operator)) [.int width word] =
      .ok (.int width (operator.apply word)) := by
  rw [applyInt, integers_one]
  rfl

theorem applyInt_binary (tag : String) (operator : IntBinary) (first second : BitVec width.bits) :
    applyInt tag width (some (.binary operator)) [.int width first, .int width second] =
      outcome width (operator.apply first second) := by
  rw [applyInt, integers_two]
  rfl

theorem applyInt_testZero (tag : String) (word : BitVec width.bits) :
    applyInt tag width (some .testZero) [.int width word] = .ok (.ofBool (word == 0)) := by
  rw [applyInt, integers_one]
  rfl

theorem applyInt_compare (tag : String) (comparison : IntCompare)
    (first second : BitVec width.bits) :
    applyInt tag width (some (.compare comparison)) [.int width first, .int width second] =
      .ok (.ofBool (comparison.apply first second)) := by
  rw [applyInt, integers_two]
  rfl

theorem evalAll_one {tree : Tree} {result : Except EvalError Value}
    (evaluates : eval readGlobal tree = result) :
    evalAll readGlobal [tree] = result.map ([·]) := by
  rw [evalAll, evaluates]
  cases result <;> rfl

theorem evalAll_two {first second : Tree} {firstResult secondResult : Except EvalError Value}
    (evaluatesFirst : eval readGlobal first = firstResult)
    (evaluatesSecond : eval readGlobal second = secondResult) :
    evalAll readGlobal [first, second] =
      (do let firstValue ← firstResult; let secondValue ← secondResult
          .ok [firstValue, secondValue]) := by
  rw [evalAll, evaluatesFirst, evalAll_one evaluatesSecond]
  cases firstResult <;> cases secondResult <;> rfl

/-- The evaluator finds the word of an expression, or the trap. -/
theorem eval_tree (expression : IntExpression width) :
    eval readGlobal expression.tree = outcome width expression.word := by
  induction expression with
  | const literal => exact eval_const literal
  | unary operator operand ih =>
      rw [IntExpression.tree, eval_folded (isOperation_unary _ operator), evalAll_one ih,
        IntExpression.word]
      cases operand.word with
      | error trap => rfl
      | ok word => exact applyInt_unary _ operator word
  | binary operator first second ihFirst ihSecond =>
      rw [IntExpression.tree, eval_folded (isOperation_binary _ operator),
        evalAll_two ihFirst ihSecond, IntExpression.word]
      cases first.word with
      | error trap => rfl
      | ok firstWord =>
          cases second.word with
          | error trap => rfl
          | ok secondWord => exact applyInt_binary _ operator firstWord secondWord
  | testZero operands operand ih =>
      rw [IntExpression.tree, eval_folded (isOperation_testZero operands), evalAll_one ih,
        IntExpression.word]
      cases operand.word with
      | error trap => rfl
      | ok word => exact applyInt_testZero _ word
  | compare operands comparison first second ihFirst ihSecond =>
      rw [IntExpression.tree, eval_folded (isOperation_compare operands comparison),
        evalAll_two ihFirst ihSecond, IntExpression.word]
      cases first.word with
      | error trap => rfl
      | ok firstWord =>
          cases second.word with
          | error trap => rfl
          | ok secondWord => exact applyInt_compare _ comparison firstWord secondWord
  | wrap operand ih =>
      rw [IntExpression.tree, eval_folded isOperation_wrap, evalAll_one ih, IntExpression.word]
      cases operand.word <;> rfl
  | extend signed operand ih =>
      rw [IntExpression.tree, eval_folded (isOperation_extend signed), evalAll_one ih]
      cases signed <;> rw [IntExpression.word] <;> cases operand.word <;> rfl
  | constexpr operand ih =>
      rw [IntExpression.tree, eval_constexpr, ih, IntExpression.word]
      cases operand.word with
      | error trap => rfl
      | ok word => exact if_pos rfl

end Constant

/-! ## The number of a word -/

namespace IntExpression

theorem bits_pos (width : Width) : 0 < width.bits := by
  cases width <;> decide

theorem toNat_truth {truth : Bool} {holds : Prop} [Decidable holds]
    (same : truth = true ↔ holds) :
    (if truth then 1 else 0 : BitVec 32).toNat = if holds then 1 else 0 := by
  by_cases isTrue : holds
  · rw [if_pos isTrue, if_pos (same.mpr isTrue)]
    rfl
  · rw [if_neg isTrue, if_neg (same.not.mpr isTrue)]
    rfl

theorem toNat_signExtend (number : BitVec 32) :
    ((number.setWidth 32).signExtend 64).toNat = residue 64 (signedReading 32 number.toNat) := by
  rw [BitVec.setWidth_eq, BitVec.signExtend, BitVec.toNat_ofInt,
    signedReading_toNat number (by decide), residue]
  rfl

theorem toNat_zeroExtend (number : BitVec 32) : (number.setWidth 64).toNat = number.toNat := by
  rw [BitVec.toNat_setWidth]
  exact Nat.mod_eq_of_lt (by omega)

/-- The word of an expression is the number that it means. -/
theorem word_toNat {width : Width} (expression : IntExpression width) :
    expression.word.map BitVec.toNat = expression.denote := by
  induction expression with
  | const literal =>
      rw [word, denote, Except.map, BitVec.toNat_ofInt, residue]
      push_cast
      rfl
  | unary operator operand ih =>
      rw [word, denote, ← ih]
      cases operand.word with
      | error trap => rfl
      | ok number => exact congrArg Except.ok (operator.apply_toNat number (bits_pos _))
  | binary operator first second ihFirst ihSecond =>
      rw [word, denote, ← ihFirst, ← ihSecond]
      cases first.word with
      | error trap => rfl
      | ok firstWord =>
          cases second.word with
          | error trap => rfl
          | ok secondWord => exact operator.apply_toNat firstWord secondWord (bits_pos _)
  | testZero operands operand ih =>
      rw [word, denote, ← ih]
      cases operand.word with
      | error trap => rfl
      | ok number =>
          have zero : (number == 0) = true ↔ number.toNat = 0 :=
            beq_iff_eq.trans (eq_zero_iff_toNat number)
          exact congrArg Except.ok (toNat_truth zero)
  | compare operands comparison first second ihFirst ihSecond =>
      rw [word, denote, ← ihFirst, ← ihSecond]
      cases first.word with
      | error trap => rfl
      | ok firstWord =>
          cases second.word with
          | error trap => rfl
          | ok secondWord =>
              have compares := comparison.apply_eq_true_iff firstWord secondWord (bits_pos _)
              exact congrArg Except.ok (toNat_truth compares)
  | wrap operand ih =>
      rw [word, denote, ← ih]
      cases operand.word with
      | error trap => rfl
      | ok number => exact congrArg Except.ok (BitVec.toNat_setWidth 32 number)
  | extend signed operand ih =>
      cases signed with
      | true =>
          rw [word, denote, ← ih]
          cases operand.word with
          | error trap => rfl
          | ok number => exact congrArg Except.ok (toNat_signExtend number)
      | false =>
          rw [word, denote, ← ih]
          cases operand.word with
          | error trap => rfl
          | ok number => exact congrArg Except.ok (toNat_zeroExtend number)
  | constexpr operand ih => rw [word, denote, ih]

section Traps

variable {α β γ : Type}

theorem exists_map_eq_error {result : Except Trap α} {f : α → β} :
    (∃ trap, result.map f = .error trap) ↔ ∃ trap, result = .error trap := by
  cases result <;> simp [Except.map]

/-- A computation on two results traps where one of them or its own last step
does. -/
theorem exists_bind_eq_error {first : Except Trap α} {second : Except Trap β}
    {f : α → β → Except Trap γ} :
    (∃ trap, (do let a ← first; let b ← second; f a b) = .error trap) ↔
      (∃ trap, first = .error trap) ∨ (∃ trap, second = .error trap) ∨
        ∃ a b, first = .ok a ∧ second = .ok b ∧ ∃ trap, f a b = .error trap := by
  cases first <;> cases second <;> simp [bind, Except.bind]

end Traps

/-- The meaning of an expression is a trap exactly if a division in it fails. -/
theorem denote_eq_error_iff {width : Width} (expression : IntExpression width) :
    (∃ trap, expression.denote = .error trap) ↔ expression.Faults := by
  induction expression with
  | const literal => simp [denote, Faults]
  | unary operator operand ih => rw [denote, Faults, exists_map_eq_error, ih]
  | binary operator first second ihFirst ihSecond =>
      simp only [denote, Faults, exists_bind_eq_error, ihFirst, ihSecond,
        IntBinary.compute_eq_error_iff]
  | testZero operands operand ih => rw [denote, Faults, exists_map_eq_error, ih]
  | compare operands comparison first second ihFirst ihSecond =>
      simp [denote, Faults, exists_bind_eq_error, ihFirst, ihSecond]
  | wrap operand ih => rw [denote, Faults, exists_map_eq_error, ih]
  | extend signed operand ih =>
      cases signed with
      | true => rw [denote, Faults, exists_map_eq_error, ih]
      | false => rw [denote, Faults, ih]
  | constexpr operand ih => rw [denote, Faults, ih]

end IntExpression

/-- The evaluator gives well-typed integer expressions their WebAssembly
meaning: it returns the number that the expression means as a word of its type,
fails with the trap that the expression means, and fails exactly if some
division that is evaluated does.  Whatever integer it returns, of any
expression, is in the range of its type. -/
theorem Constant.evaluate_integerExpression (globals : List Global) {width : Width}
    (expression : IntExpression width) :
    (∀ value, evaluate globals expression.tree = .ok value ↔
      ∃ word : BitVec width.bits, value = .int width word ∧
        expression.denote = .ok word.toNat) ∧
    (∀ error, evaluate globals expression.tree = .error error ↔
      ∃ trap, error = .trap trap ∧ expression.denote = .error trap) ∧
    ((∃ error, evaluate globals expression.tree = .error error) ↔ expression.Faults) ∧
    ∀ (tree : Tree) (actual : Width) (word : BitVec actual.bits),
      evaluate globals tree = .ok (.int actual word) → word.toNat < 2 ^ actual.bits := by
  have evaluates : evaluate globals expression.tree = outcome width expression.word :=
    eval_tree expression
  have means := expression.word_toNat
  have faults := expression.denote_eq_error_iff
  rw [evaluates, ← faults, ← means]
  refine ⟨?_, ?_, ?_, fun _ _ word _ => word.isLt⟩
  · intro value
    cases expression.word with
    | error trap => simp [outcome, Except.map]
    | ok word =>
        constructor
        · rintro ⟨rfl⟩
          exact ⟨word, rfl, rfl⟩
        · rintro ⟨other, rfl, same⟩
          rw [BitVec.toNat_inj.mp (Except.ok.inj same)]
          rfl
  · intro error
    cases expression.word with
    | error trap =>
        constructor
        · rintro ⟨rfl⟩
          exact ⟨trap, rfl, rfl⟩
        · rintro ⟨other, rfl, same⟩
          rw [Except.error.inj same]
          rfl
    | ok word => simp [outcome, Except.map]
  · cases expression.word <;> simp [outcome, Except.map]

/-- The decimal literal of a number that is not too long to be read. -/
def ConstantLiteral.decimal (number : Int)
    (short : (decimalLiteral number).digits.length ≤ digitLimit) : ConstantLiteral :=
  ⟨decimalNumeral number, decimalLiteral number, isText_decimalNumeral number, fun _ => short⟩

/-- The least number divided by minus one, in a test for zero. -/
def overflowingQuotient : IntExpression .w32 :=
  .testZero .w64 (.extend true (.binary .divS (.const (.decimal (-2147483648) (by decide)))
    (.const (.decimal 4294967295 (by decide)))))

/-- A difference below zero, extended with its sign. -/
def extendedDifference : IntExpression .w64 :=
  .extend true (.binary .sub (.const (.decimal 0 (by decide))) (.const (.decimal 1 (by decide))))

theorem Constant.evaluate_quotient_and_difference :
    (∃ error, evaluate [] (.form "i64.eqz" [.form "i64.extend_i32_s" [.form "i32.div_s"
      [.form "i32.const" [.atom "-2147483648"], .form "i32.const" [.atom "4294967295"]]]]) =
        .error error) ∧
    evaluate [] (.form "i64.extend_i32_s" [.form "i32.sub"
      [.form "i32.const" [.atom "0"], .form "i32.const" [.atom "1"]]]) =
        .ok (.int .w64 (BitVec.ofNat 64 18446744073709551615)) ∧
    (BitVec.ofNat 64 18446744073709551615).toNat < 2 ^ 64 := by
  have overflows : overflowingQuotient.Faults :=
    .inr (.inr ⟨_, _, rfl, rfl, .inr ⟨rfl, by decide +kernel, by decide +kernel⟩⟩)
  have means : extendedDifference.denote = .ok 18446744073709551615 := by
    decide +kernel
  obtain ⟨returns, -, -, inRange⟩ := evaluate_integerExpression [] extendedDifference
  have difference := (returns _).mpr ⟨BitVec.ofNat 64 18446744073709551615, rfl, means⟩
  refine ⟨?_, difference, inRange _ .w64 _ difference⟩
  exact (evaluate_integerExpression [] overflowingQuotient).2.2.1.mpr overflows

end WatLink
