import WatLink.Proofs.FoldingOrder

/-!
# Signatures of instructions

The numeric instructions that exist, with the types of their operands and of their
results, and what the evaluator takes in their place.  Arithmetic and comparisons
are taken exactly as they exist.  A conversion is told by part of its name, and its
operand only has to be of a kind, so that more is taken than exists.
-/

namespace WatLink

/-- The types of the operands and of the result of an instruction. -/
structure Signature where
  operands : List ValueType
  result : ValueType
  deriving DecidableEq, Repr

namespace Constant

abbrev i32 : ValueType := .int .w32
abbrev i64 : ValueType := .int .w64
abbrev f32 : ValueType := .float .single
abbrev f64 : ValueType := .float .double

/-! ## Instructions that exist -/

def unaryNames : ValueType → List String
  | .int _ => ["clz", "ctz", "popcnt"]
  | .float _ => ["abs", "neg", "sqrt", "ceil", "floor", "trunc", "nearest"]

def binaryNames : ValueType → List String
  | .int _ => ["add", "sub", "mul", "div_s", "div_u", "rem_s", "rem_u", "and", "or", "xor",
      "shl", "shr_s", "shr_u", "rotl", "rotr"]
  | .float _ => ["add", "sub", "mul", "div", "min", "max", "copysign"]

def compareNames : ValueType → List String
  | .int _ => ["eq", "ne", "lt_s", "lt_u", "gt_s", "gt_u", "le_s", "le_u", "ge_s", "ge_u"]
  | .float _ => ["eq", "ne", "lt", "gt", "le", "ge"]

/-- The arithmetic and the comparisons of a type. -/
def arithmeticSignatures (type : ValueType) : List (String × Signature) :=
  (unaryNames type).map (fun name => (type.instruction name, ⟨[type], type⟩)) ++
    (binaryNames type).map (fun name => (type.instruction name, ⟨[type, type], type⟩)) ++
    (compareNames type).map (fun name => (type.instruction name, ⟨[type, type], i32⟩))

/-- The tests for zero and the conversions between types. -/
def conversionSignatures : List (String × Signature) :=
  [("i32.eqz", ⟨[i32], i32⟩), ("i64.eqz", ⟨[i64], i32⟩),
    ("i32.wrap_i64", ⟨[i64], i32⟩),
    ("i64.extend_i32_s", ⟨[i32], i64⟩), ("i64.extend_i32_u", ⟨[i32], i64⟩),
    ("i32.trunc_f32_s", ⟨[f32], i32⟩), ("i32.trunc_f32_u", ⟨[f32], i32⟩),
    ("i32.trunc_f64_s", ⟨[f64], i32⟩), ("i32.trunc_f64_u", ⟨[f64], i32⟩),
    ("i64.trunc_f32_s", ⟨[f32], i64⟩), ("i64.trunc_f32_u", ⟨[f32], i64⟩),
    ("i64.trunc_f64_s", ⟨[f64], i64⟩), ("i64.trunc_f64_u", ⟨[f64], i64⟩),
    ("f32.convert_i32_s", ⟨[i32], f32⟩), ("f32.convert_i32_u", ⟨[i32], f32⟩),
    ("f32.convert_i64_s", ⟨[i64], f32⟩), ("f32.convert_i64_u", ⟨[i64], f32⟩),
    ("f64.convert_i32_s", ⟨[i32], f64⟩), ("f64.convert_i32_u", ⟨[i32], f64⟩),
    ("f64.convert_i64_s", ⟨[i64], f64⟩), ("f64.convert_i64_u", ⟨[i64], f64⟩),
    ("f32.demote_f64", ⟨[f64], f32⟩), ("f64.promote_f32", ⟨[f32], f64⟩)]

/-- The instructions that exist. -/
def standardSignatures : List (String × Signature) :=
  [i32, i64, f32, f64].flatMap arithmeticSignatures ++ conversionSignatures

/-- Whether an instruction exists with a signature. -/
def Standard (tag : String) (signature : Signature) : Prop :=
  (tag, signature) ∈ standardSignatures

instance (tag : String) (signature : Signature) : Decidable (Standard tag signature) :=
  inferInstanceAs (Decidable ((tag, signature) ∈ standardSignatures))

/-- The conversions that the evaluator takes.  Truncations and conversions of
integers are told by the start of their name, and operands may have any width or
precision; a change of precision even takes an integer. -/
inductive Conversion : String → Signature → Prop
  | resize {target source : Width} {name : String} :
      name ∈ ["wrap_i64", "extend_i32_s", "extend_i32_u"] →
        Conversion ((ValueType.int target).instruction name) ⟨[.int source], .int target⟩
  | truncate {target : Width} {source : Precision} {rest : String} :
      constexprType? ((ValueType.int target).instruction ("trunc_f" ++ rest)) = none →
        Conversion ((ValueType.int target).instruction ("trunc_f" ++ rest))
          ⟨[.float source], .int target⟩
  | convert {target : Precision} {source : Width} {rest : String} :
      constexprType? ((ValueType.float target).instruction ("convert_i" ++ rest)) = none →
        Conversion ((ValueType.float target).instruction ("convert_i" ++ rest))
          ⟨[.int source], .float target⟩
  | changePrecision {target : Precision} {source : ValueType} {name : String} :
      name ∈ ["promote_f32", "demote_f64"] →
        Conversion ((ValueType.float target).instruction name) ⟨[source], .float target⟩

/-- A conversion that the evaluator takes although no instruction exists with its
name and operand. -/
structure Irregular (tag : String) (signature : Signature) : Prop where
  taken : Conversion tag signature
  missing : ¬ Standard tag signature

/-! ## Results -/

/-- The type of the results of an instruction, by its type and name. -/
def resultType (type : ValueType) (name : String) : ValueType :=
  if name ∈ "eqz" :: compareNames type then i32 else type

/-- A tag of an instruction other than a constant, whose results have a type. -/
def Computes (tag : String) (result : ValueType) : Prop :=
  ∃ type name, IsTag tag type name ∧ name ≠ "const" ∧ resultType type name = result

theorem standard_computes {tag : String} {signature : Signature}
    (standard : Standard tag signature) : Computes tag signature.result := by
  have all : ∀ entry ∈ standardSignatures, constexprType? entry.1 = none ∧
      ∃ split ∈ instruction? entry.1, split.2 ≠ "const" ∧
        resultType split.1 split.2 = entry.2.result := by
    decide +kernel
  obtain ⟨notConstexpr, ⟨type, name⟩, splits, notConst, result⟩ := all _ standard
  exact ⟨type, name, ⟨notConstexpr, splits⟩, notConst, result⟩

/-- The names that do not belong to a conversion. -/
def plainNames (type : ValueType) : List String :=
  "" :: "const" :: "eqz" :: compareNames type

theorem computes_instruction {type : ValueType} {name : String}
    (notConstexpr : constexprType? (type.instruction name) = none) (other : name ∉ plainNames type) :
    Computes (type.instruction name) type := by
  simp only [plainNames, List.mem_cons, not_or] at other
  obtain ⟨nonempty, notConst, notZero, notCompare⟩ := other
  refine ⟨type, name, ⟨notConstexpr, instruction?_instruction type nonempty⟩, notConst, ?_⟩
  rw [resultType, if_neg (by simp [notZero, notCompare])]

theorem append_not_mem {front : String} {names : List String}
    (different : ∀ name ∈ names, ¬ front.toList <+: name.toList) (rest : String) :
    front ++ rest ∉ names := by
  intro member
  refine different _ member ?_
  rw [String.toList_append]
  exact List.prefix_append _ _

theorem conversion_computes {tag : String} {signature : Signature}
    (conversion : Conversion tag signature) : Computes tag signature.result := by
  cases conversion with
  | @resize target source name named =>
      simp only [List.mem_cons, List.not_mem_nil, or_false] at named
      rcases named with rfl | rfl | rfl <;> cases target <;>
        exact computes_instruction rfl (by decide)
  | @truncate target source rest notConstexpr =>
      refine computes_instruction notConstexpr (append_not_mem ?_ rest)
      cases target <;> decide
  | @convert target source rest notConstexpr =>
      refine computes_instruction notConstexpr (append_not_mem ?_ rest)
      cases target <;> decide
  | @changePrecision target source name named =>
      simp only [List.mem_cons, List.not_mem_nil, or_false] at named
      rcases named with rfl | rfl <;> cases target <;>
        exact computes_instruction rfl (by decide)

/-! ## Operators and their operands -/

/-- The signatures that an operator of an integer type has. -/
inductive IntTakes (width : Width) : IntOperator → Signature → Prop
  | resize {source : Width} : IntTakes width .resize ⟨[.int source], .int width⟩
  | extendSigned {source : Width} : IntTakes width .extendSigned ⟨[.int source], .int width⟩
  | truncate {signed : Bool} {source : Precision} :
      IntTakes width (.truncate signed) ⟨[.float source], .int width⟩
  | testZero : IntTakes width .testZero ⟨[.int width], i32⟩
  | unary {operator : IntUnary} : IntTakes width (.unary operator) ⟨[.int width], .int width⟩
  | binary {operator : IntBinary} :
      IntTakes width (.binary operator) ⟨[.int width, .int width], .int width⟩
  | compare {comparison : IntCompare} :
      IntTakes width (.compare comparison) ⟨[.int width, .int width], i32⟩

/-- The signatures that an operator of a floating-point type has. -/
inductive FloatTakes (precision : Precision) : FloatOperator → Signature → Prop
  | convert {signed : Bool} {source : Width} :
      FloatTakes precision (.convert signed) ⟨[.int source], .float precision⟩
  | changePrecision {source : ValueType} :
      FloatTakes precision .changePrecision ⟨[source], .float precision⟩
  | unary {operator : FloatUnary} :
      FloatTakes precision (.unary operator) ⟨[.float precision], .float precision⟩
  | binary {operator : FloatBinary} :
      FloatTakes precision (.binary operator) ⟨[.float precision, .float precision], .float precision⟩
  | compare {comparison : FloatCompare} :
      FloatTakes precision (.compare comparison) ⟨[.float precision, .float precision], i32⟩

theorem oneOperand_eq_ok_iff {α : Type} {tag : String} {operands : List α} {operand : α} :
    oneOperand tag operands = .ok operand ↔ operands = [operand] := by
  unfold oneOperand
  split
  · simp
  · rename_i others
    simp only [reduceCtorEq, false_iff]
    rintro rfl
    exact others operand rfl

theorem twoOperands_eq_ok_iff {α : Type} {tag : String} {operands : List α} {first second : α} :
    twoOperands tag operands = .ok (first, second) ↔ operands = [first, second] := by
  unfold twoOperands
  split
  · simp
  · rename_i others
    simp only [reduceCtorEq, false_iff]
    rintro rfl
    exact others first second rfl

theorem types_of_integers {tag : String} {width : Width} {operands : List Value}
    {words : List (BitVec width.bits)} (checked : integers tag width operands = .ok words) :
    operands.map Value.type = words.map fun _ => .int width := by
  induction operands generalizing words with
  | nil =>
      cases checked
      rfl
  | cons operand rest ih =>
      cases operand with
      | float precision number => cases checked
      | int actual word =>
          rw [integers] at checked
          split at checked
          · rename_i same
            subst same
            obtain ⟨others, checkedRest, rfl⟩ := exceptMap_eq_ok_iff.mp checked
            simp [Value.type, ih checkedRest]
          · cases checked

theorem types_of_floats {tag : String} {precision : Precision} {operands : List Value}
    {numbers : List Binary64} (checked : floats tag precision operands = .ok numbers) :
    operands.map Value.type = numbers.map fun _ => .float precision := by
  induction operands generalizing numbers with
  | nil =>
      cases checked
      rfl
  | cons operand rest ih =>
      cases operand with
      | int width word => cases checked
      | float actual number =>
          rw [floats] at checked
          split at checked
          · rename_i same
            subst same
            obtain ⟨others, checkedRest, rfl⟩ := exceptMap_eq_ok_iff.mp checked
            simp [Value.type, ih checkedRest]
          · cases checked

theorem type_of_truncateTo {tag : String} {width : Width} {signed : Bool} {number : Binary64}
    {value : Value} (truncates : truncateTo tag width signed number = .ok value) :
    value.type = .int width := by
  unfold truncateTo at truncates
  split at truncates
  · dsimp only at truncates
    generalize (if signed then -Int.pow 2 (width.bits - 1) else 0) = lower at truncates
    generalize (if signed then Int.pow 2 (width.bits - 1) - 1 else Int.pow 2 width.bits - 1) =
      upper at truncates
    split at truncates
    · cases truncates
      rfl
    · cases truncates
  · cases truncates

section Applied

variable {β : Type} {tag : String} {operands : List Value} {value : Value} {result : β}

theorem one_of_bind {α : Type} {operands : List α} {next : α → Except EvalError β}
    (applies : (oneOperand tag operands >>= next) = .ok result) :
    ∃ operand, operands = [operand] ∧ next operand = .ok result := by
  obtain ⟨operand, isOperand, applies⟩ := exceptBind_eq_ok_iff.mp applies
  exact ⟨operand, oneOperand_eq_ok_iff.mp isOperand, applies⟩

theorem two_of_bind {α : Type} {operands : List α} {next : α × α → Except EvalError β}
    (applies : (twoOperands tag operands >>= next) = .ok result) :
    ∃ first second, operands = [first, second] ∧ next (first, second) = .ok result := by
  obtain ⟨⟨first, second⟩, areOperands, applies⟩ := exceptBind_eq_ok_iff.mp applies
  exact ⟨first, second, twoOperands_eq_ok_iff.mp areOperands, applies⟩

theorem types_of_bind_integers {width : Width} {next : List (BitVec width.bits) → Except EvalError β}
    (applies : (integers tag width operands >>= next) = .ok result) :
    ∃ words, operands.map Value.type = words.map (fun _ => .int width) ∧
      next words = .ok result := by
  obtain ⟨words, checked, applies⟩ := exceptBind_eq_ok_iff.mp applies
  exact ⟨words, types_of_integers checked, applies⟩

theorem types_of_bind_floats {precision : Precision} {next : List Binary64 → Except EvalError β}
    (applies : (floats tag precision operands >>= next) = .ok result) :
    ∃ numbers, operands.map Value.type = numbers.map (fun _ => .float precision) ∧
      next numbers = .ok result := by
  obtain ⟨numbers, checked, applies⟩ := exceptBind_eq_ok_iff.mp applies
  exact ⟨numbers, types_of_floats checked, applies⟩

/-- What an operator of an integer type is applied to. -/
theorem intTakes_of_applyInt {width : Width} {operator : IntOperator}
    (applies : applyInt tag width (some operator) operands = .ok value) :
    IntTakes width operator ⟨operands.map Value.type, value.type⟩ := by
  cases operator with
  | resize =>
      obtain ⟨operand, rfl, applies⟩ := one_of_bind applies
      cases operand with
      | int source word =>
          cases applies
          exact .resize
      | float precision number => cases applies
  | extendSigned =>
      obtain ⟨operand, rfl, applies⟩ := one_of_bind applies
      cases operand with
      | int source word =>
          cases applies
          exact .extendSigned
      | float precision number => cases applies
  | truncate signed =>
      obtain ⟨operand, rfl, applies⟩ := one_of_bind applies
      cases operand with
      | int source word => cases applies
      | float precision number =>
          rw [type_of_truncateTo applies]
          exact .truncate
  | testZero =>
      obtain ⟨words, types, applies⟩ := types_of_bind_integers applies
      obtain ⟨word, rfl, applies⟩ := one_of_bind applies
      cases applies
      rw [types]
      exact .testZero
  | unary operator =>
      obtain ⟨words, types, applies⟩ := types_of_bind_integers applies
      obtain ⟨word, rfl, applies⟩ := one_of_bind applies
      cases applies
      rw [types]
      exact .unary
  | binary operator =>
      obtain ⟨words, types, checked⟩ := types_of_bind_integers applies
      obtain ⟨first, second, rfl, computed⟩ := two_of_bind checked
      rw [types]
      dsimp only at computed
      split at computed
      · cases computed
        exact .binary
      · cases computed
  | compare comparison =>
      obtain ⟨words, types, applies⟩ := types_of_bind_integers applies
      obtain ⟨first, second, rfl, applies⟩ := two_of_bind applies
      cases applies
      rw [types]
      exact .compare

/-- What an operator of a floating-point type is applied to. -/
theorem floatTakes_of_applyFloat {precision : Precision} {operator : FloatOperator}
    (applies : applyFloat tag precision (some operator) operands = .ok value) :
    FloatTakes precision operator ⟨operands.map Value.type, value.type⟩ := by
  cases operator with
  | convert signed =>
      obtain ⟨operand, rfl, applies⟩ := one_of_bind applies
      cases operand with
      | int source word =>
          cases applies
          exact .convert
      | float precision number => cases applies
  | changePrecision =>
      obtain ⟨operand, rfl, applies⟩ := one_of_bind applies
      cases applies
      exact .changePrecision
  | unary operator =>
      obtain ⟨numbers, types, applies⟩ := types_of_bind_floats applies
      obtain ⟨number, rfl, applies⟩ := one_of_bind applies
      cases applies
      rw [types]
      exact .unary
  | binary operator =>
      obtain ⟨numbers, types, applies⟩ := types_of_bind_floats applies
      obtain ⟨first, second, rfl, applies⟩ := two_of_bind applies
      cases applies
      rw [types]
      exact .binary
  | compare comparison =>
      obtain ⟨numbers, types, applies⟩ := types_of_bind_floats applies
      obtain ⟨first, second, rfl, applies⟩ := two_of_bind applies
      cases applies
      rw [types]
      exact .compare

end Applied

/-! ## Names of operators -/

/-- A name that is found in a table of operators is one of the names there. -/
theorem mem_names_of_lookup {α : Type} {table : List (String × α)} {names : List String}
    {name : String} {operator : α} (listed : ∀ entry ∈ table, entry.1 ∈ names)
    (found : table.lookup name = some operator) : name ∈ names := by
  obtain ⟨front, rest, rfl, -⟩ := List.lookup_eq_some_iff.mp found
  exact listed (name, operator) (List.mem_append_right _ List.mem_cons_self)

theorem mem_allTypes (type : ValueType) : type ∈ [i32, i64, f32, f64] := by
  match type with
  | .int .w32 | .int .w64 | .float .single | .float .double => decide

theorem standard_of_arithmetic {type : ValueType} {tag : String} {signature : Signature}
    (member : (tag, signature) ∈ arithmeticSignatures type) : Standard tag signature :=
  List.mem_append_left _ (List.mem_flatMap.mpr ⟨type, mem_allTypes type, member⟩)

section Named

variable {type : ValueType} {name : String}

theorem standard_unary (named : name ∈ unaryNames type) :
    Standard (type.instruction name) ⟨[type], type⟩ :=
  standard_of_arithmetic (List.mem_append_left _ (List.mem_append_left _
    (List.mem_map.mpr ⟨name, named, rfl⟩)))

theorem standard_binary (named : name ∈ binaryNames type) :
    Standard (type.instruction name) ⟨[type, type], type⟩ :=
  standard_of_arithmetic (List.mem_append_left _ (List.mem_append_right _
    (List.mem_map.mpr ⟨name, named, rfl⟩)))

theorem standard_compare (named : name ∈ compareNames type) :
    Standard (type.instruction name) ⟨[type, type], i32⟩ :=
  standard_of_arithmetic (List.mem_append_right _ (List.mem_map.mpr ⟨name, named, rfl⟩))

end Named

theorem standard_testZero (width : Width) :
    Standard ((ValueType.int width).instruction "eqz") ⟨[.int width], i32⟩ := by
  cases width <;> decide +kernel

theorem eq_append_of_isPrefixOf {front name : String}
    (starts : front.toList.isPrefixOf name.toList = true) : ∃ rest, name = front ++ rest := by
  obtain ⟨rest, whole⟩ := List.isPrefixOf_iff_prefix.mp starts
  refine ⟨String.ofList rest, String.toList_injective ?_⟩
  rw [String.toList_append, String.toList_ofList, whole]

theorem signature_of_int {width : Width} {name : String} {operator : IntOperator}
    {signature : Signature}
    (notConstexpr : constexprType? ((ValueType.int width).instruction name) = none)
    (named : IntOperator.ofName? name = some operator) (takes : IntTakes width operator signature) :
    Standard ((ValueType.int width).instruction name) signature ∨
      Conversion ((ValueType.int width).instruction name) signature := by
  unfold IntOperator.ofName? at named
  split at named
  · rename_i resizes
    cases named
    cases takes
    exact .inr (.resize (by rcases resizes with rfl | rfl <;> simp))
  split at named
  · rename_i signExtends
    cases named
    cases takes
    exact .inr (.resize (by simp [signExtends]))
  split at named
  · rename_i starts
    cases named
    cases takes
    obtain ⟨rest, rfl⟩ := eq_append_of_isPrefixOf starts
    exact .inr (.truncate notConstexpr)
  split at named
  · rename_i isTest
    cases named
    cases takes
    subst isTest
    exact .inl (standard_testZero width)
  simp only [Option.orElse_eq_orElse, Option.orElse_eq_or, Option.or_eq_some_iff,
    Option.map_eq_some_iff] at named
  rcases named with ⟨operator, named, rfl⟩ | ⟨-, ⟨operator, named, rfl⟩ | ⟨-, comparison, named, rfl⟩⟩
  · cases takes
    exact .inl (standard_unary (mem_names_of_lookup (by cases width <;> decide) named))
  · cases takes
    exact .inl (standard_binary (mem_names_of_lookup (by cases width <;> decide) named))
  · cases takes
    exact .inl (standard_compare (mem_names_of_lookup (by cases width <;> decide) named))

theorem signature_of_float {precision : Precision} {name : String} {operator : FloatOperator}
    {signature : Signature}
    (notConstexpr : constexprType? ((ValueType.float precision).instruction name) = none)
    (named : FloatOperator.ofName? name = some operator)
    (takes : FloatTakes precision operator signature) :
    Standard ((ValueType.float precision).instruction name) signature ∨
      Conversion ((ValueType.float precision).instruction name) signature := by
  unfold FloatOperator.ofName? at named
  split at named
  · rename_i starts
    cases named
    cases takes
    obtain ⟨rest, rfl⟩ := eq_append_of_isPrefixOf starts
    exact .inr (.convert notConstexpr)
  split at named
  · rename_i changes
    cases named
    cases takes
    exact .inr (.changePrecision (by rcases changes with rfl | rfl <;> simp))
  simp only [Option.orElse_eq_orElse, Option.orElse_eq_or, Option.or_eq_some_iff,
    Option.map_eq_some_iff] at named
  rcases named with ⟨operator, named, rfl⟩ | ⟨-, ⟨operator, named, rfl⟩ | ⟨-, comparison, named, rfl⟩⟩
  · cases takes
    exact .inl (standard_unary (mem_names_of_lookup (by cases precision <;> decide) named))
  · cases takes
    exact .inl (standard_binary (mem_names_of_lookup (by cases precision <;> decide) named))
  · cases takes
    exact .inl (standard_compare (mem_names_of_lookup (by cases precision <;> decide) named))

/-- An instruction that has a value exists with the types of its operands and its
value, or is a conversion. -/
theorem signature_of_applyInstruction {tag name : String} {type : ValueType}
    {operands : List Value} {value : Value} (isTag : IsTag tag type name)
    (applies : applyInstruction tag type name operands = .ok value) :
    Standard tag ⟨operands.map Value.type, value.type⟩ ∨
      Conversion tag ⟨operands.map Value.type, value.type⟩ := by
  have notConstexpr := isTag.notConstexpr
  obtain rfl := isTag.eq_instruction
  cases type with
  | int width =>
      cases named : IntOperator.ofName? name with
      | none =>
          simp only [applyInstruction, named] at applies
          obtain ⟨words, -, refused⟩ := types_of_bind_integers applies
          cases refused
      | some operator =>
          simp only [applyInstruction, named] at applies
          exact signature_of_int notConstexpr named (intTakes_of_applyInt applies)
  | float precision =>
      cases named : FloatOperator.ofName? name with
      | none =>
          simp only [applyInstruction, named] at applies
          obtain ⟨numbers, -, refused⟩ := types_of_bind_floats applies
          cases refused
      | some operator =>
          simp only [applyInstruction, named] at applies
          exact signature_of_float notConstexpr named (floatTakes_of_applyFloat applies)

/-- The zero of a type. -/
def zero : ValueType → Value
  | .int width => .int width 0
  | .float precision => .float precision (.signedZero false)

theorem ofName?_truncate (rest : String) :
    ∃ signed, IntOperator.ofName? ("trunc_f" ++ rest) = some (.truncate signed) := by
  have others : "trunc_f" ++ rest ∉ ["wrap_i64", "extend_i32_u", "extend_i32_s"] :=
    append_not_mem (by decide) rest
  have starts : "trunc_f".toList.isPrefixOf ("trunc_f" ++ rest).toList = true := by
    rw [List.isPrefixOf_iff_prefix, String.toList_append]
    exact List.prefix_append _ _
  simp only [List.mem_cons, List.not_mem_nil, or_false, not_or] at others
  unfold IntOperator.ofName?
  rw [if_neg (by tauto), if_neg others.2.2, if_pos starts]
  exact ⟨_, rfl⟩

theorem ofName?_convert (rest : String) :
    ∃ signed, FloatOperator.ofName? ("convert_i" ++ rest) = some (.convert signed) := by
  have starts : "convert_i".toList.isPrefixOf ("convert_i" ++ rest).toList = true := by
    rw [List.isPrefixOf_iff_prefix, String.toList_append]
    exact List.prefix_append _ _
  unfold FloatOperator.ofName?
  rw [if_pos starts]
  exact ⟨_, rfl⟩

theorem truncateTo_zero (tag : String) (width : Width) (signed : Bool) :
    truncateTo tag width signed (.signedZero false) = .ok (.int width 0) := by
  have finite : (Binary64.signedZero false).isFinite = true := by decide +kernel
  have whole : (Binary64.signedZero false).truncInt = 0 := by decide +kernel
  unfold truncateTo
  rw [if_pos finite, whole]
  cases width <;> cases signed <;> rfl

/-- Every conversion that is taken has a value for zeros. -/
theorem exists_of_conversion {tag : String} {signature : Signature}
    (conversion : Conversion tag signature) :
    ∃ type name value, IsTag tag type name ∧ name ≠ "const" ∧
      applyInstruction tag type name (signature.operands.map zero) = .ok value ∧
        value.type = signature.result := by
  have computes := conversion_computes conversion
  have isTag : ∀ {type name}, name ≠ "" → Computes (ValueType.instruction type name) signature.result →
      IsTag (type.instruction name) type name ∧ name ≠ "const" := by
    rintro type name nonempty ⟨type', name', isTag, notConst, -⟩
    cases (instruction?_instruction type nonempty).symm.trans isTag.splits
    exact ⟨isTag, notConst⟩
  cases conversion with
  | @resize target source name named =>
      simp only [List.mem_cons, List.not_mem_nil, or_false] at named
      rcases named with rfl | rfl | rfl
      all_goals
        obtain ⟨isTag, notConst⟩ := isTag (by decide) computes
        exact ⟨_, _, _, isTag, notConst, rfl, rfl⟩
  | @truncate target source rest notConstexpr =>
      obtain ⟨isTag, notConst⟩ := isTag (by simp) computes
      obtain ⟨signed, named⟩ := ofName?_truncate rest
      refine ⟨_, _, .int target 0, isTag, notConst, ?_, rfl⟩
      simp only [applyInstruction, named]
      exact truncateTo_zero _ target signed
  | @convert target source rest notConstexpr =>
      obtain ⟨isTag, notConst⟩ := isTag (by simp) computes
      obtain ⟨signed, named⟩ := ofName?_convert rest
      have applies : ∃ value, applyInstruction ((ValueType.float target).instruction
          ("convert_i" ++ rest)) (.float target) ("convert_i" ++ rest) [zero (.int source)] =
            .ok value ∧ value.type = .float target := by
        simp only [applyInstruction, named]
        exact ⟨_, rfl, rfl⟩
      obtain ⟨value, applies, typed⟩ := applies
      exact ⟨_, _, value, isTag, notConst, applies, typed⟩
  | @changePrecision target source name named =>
      simp only [List.mem_cons, List.not_mem_nil, or_false] at named
      rcases named with rfl | rfl
      all_goals
        obtain ⟨isTag, notConst⟩ := isTag (by decide) computes
        exact ⟨_, _, _, isTag, notConst, rfl, rfl⟩

end Constant

end WatLink
