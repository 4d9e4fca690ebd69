import WatLink.Proofs.ConstantErrors
import WatLink.Proofs.InstructionSignatures

/-!
# Types of constant expressions

Typing rules for expressions over some signatures of instructions.  An expression
that has a value has the type of the value, if the conversions that the evaluator
takes are added to the instructions that exist.  It has that type with the
instructions that exist alone unless a conversion that does not exist is applied
somewhere in it, or in an initializer that it reads.
-/

namespace WatLink.Constant

/-- The types of expressions over some globals, given the signatures of
instructions. -/
inductive HasType (signatures : String → Signature → Prop) (globals : List Global) :
    Tree → ValueType → Prop
  | constant {type : ValueType} {text : String} {value : Value} : literal type text = .ok value →
      HasType signatures globals (.form (type.instruction "const") [.atom text]) type
  | global {reference : String} {index : Nat} {initializer : Tree} {type : ValueType} :
      globalIndex globals reference = .ok index →
        initializerAt? globals index = some initializer →
          HasType signatures globals initializer type →
            HasType signatures globals (.form "global.get" [.atom reference]) type
  | constexpr {argument : Tree} {type : ValueType} : HasType signatures globals argument type →
      HasType signatures globals (.form (type.instruction "constexpr") [argument]) type
  | instruction {tag : String} {arguments : List Tree} {signature : Signature} :
      signatures tag signature → arguments.length = signature.operands.length →
        (∀ argument type, (argument, type) ∈ arguments.zip signature.operands →
          HasType signatures globals argument type) →
            HasType signatures globals (.form tag arguments) signature.result

/-- The signatures that the evaluator takes. -/
def Taken (tag : String) (signature : Signature) : Prop :=
  Standard tag signature ∨ Irregular tag signature

/-- Expressions in which, or in an initializer of which, a conversion that does not
exist is applied to values of its operand types. -/
inductive UsesIrregular (globals : List Global) : Tree → Prop
  | here {tag : String} {arguments : List Tree} {values : List Value} {result : ValueType} :
      Irregular tag ⟨values.map Value.type, result⟩ →
        List.Forall₂ (Denotes globals) arguments values →
          UsesIrregular globals (.form tag arguments)
  | argument {tag : String} {arguments : List Tree} {argument : Tree} : argument ∈ arguments →
      UsesIrregular globals argument → UsesIrregular globals (.form tag arguments)
  | global {reference : String} {index : Nat} {initializer : Tree} :
      globalIndex globals reference = .ok index →
        initializerAt? globals index = some initializer → UsesIrregular globals initializer →
          UsesIrregular globals (.form "global.get" [.atom reference])

/-! ## Expressions with a value -/

theorem type_of_literal {type : ValueType} {text : String} {value : Value}
    (reads : literal type text = .ok value) : value.type = type := by
  unfold literal at reads
  cases type with
  | int width =>
      dsimp only at reads
      split at reads <;> cases reads
      rfl
  | float precision =>
      dsimp only at reads
      repeat' split at reads
      all_goals cases reads
      all_goals rfl

theorem taken_of_applyInstruction {tag name : String} {type : ValueType} {operands : List Value}
    {value : Value} (isTag : IsTag tag type name)
    (applies : applyInstruction tag type name operands = .ok value) :
    Taken tag ⟨operands.map Value.type, value.type⟩ := by
  by_cases standard : Standard tag ⟨operands.map Value.type, value.type⟩
  · exact .inl standard
  · rcases signature_of_applyInstruction isTag applies with isStandard | conversion
    · exact absurd isStandard standard
    · exact .inr ⟨conversion, standard⟩

section Typing

variable {signatures : String → Signature → Prop} {globals : List Global}

theorem HasType.of_operands {tag : String} {arguments : List Tree} {signature : Signature}
    (known : signatures tag signature)
    (typed : List.Forall₂ (HasType signatures globals) arguments signature.operands) :
    HasType signatures globals (.form tag arguments) signature.result := by
  obtain ⟨sameLength, each⟩ := List.forall₂_iff_zip.mp typed
  exact .instruction known sameLength fun _ _ => each

/-- What the type of an expression with a tag can come from. -/
theorem HasType.form_cases {tag : String} {arguments : List Tree} {type : ValueType}
    (typed : HasType signatures globals (.form tag arguments) type) :
    (tag = type.instruction "const" ∧ ∃ text, arguments = [.atom text]) ∨
      (tag = "global.get" ∧ ∃ reference index initializer, arguments = [.atom reference] ∧
        globalIndex globals reference = .ok index ∧
        initializerAt? globals index = some initializer ∧
        HasType signatures globals initializer type) ∨
      (tag = type.instruction "constexpr" ∧ ∃ argument, arguments = [argument] ∧
        HasType signatures globals argument type) ∨
      ∃ operands, signatures tag ⟨operands, type⟩ ∧
        List.Forall₂ (HasType signatures globals) arguments operands := by
  generalize shape : Tree.form tag arguments = expression at typed
  cases typed with
  | constant _ =>
      cases shape
      exact .inl ⟨rfl, _, rfl⟩
  | global found isInitializer inner =>
      cases shape
      exact .inr (.inl ⟨rfl, _, _, _, rfl, found, isInitializer, inner⟩)
  | constexpr inner =>
      cases shape
      exact .inr (.inr (.inl ⟨rfl, _, rfl, inner⟩))
  | @instruction tag arguments signature known sameLength each =>
      cases shape
      exact .inr (.inr (.inr ⟨signature.operands, known,
        List.forall₂_iff_zip.mpr ⟨sameLength, each _ _⟩⟩))

/-- An expression with a value has its type, over the signatures that are taken. -/
theorem Denotes.hasType {expression : Tree} {value : Value}
    (denotes : Denotes globals expression value) :
    HasType Taken globals expression value.type := by
  induction denotes with
  | constant isTag reads =>
      rw [isTag.eq_instruction, type_of_literal reads]
      exact .constant reads
  | global found isInitializer _ ih => exact .global found isInitializer ih
  | constexpr asks _ ih =>
      rw [tag_of_constexprType? asks]
      exact .constexpr ih
  | operation isTag notConst sameLength _ applies ih =>
      refine HasType.of_operands (taken_of_applyInstruction isTag applies) ?_
      exact List.forall₂_map_right_iff.mpr (List.forall₂_iff_zip.mpr ⟨sameLength, ih _ _⟩)

/-- The results of a tag have one type. -/
theorem Computes.unique {tag : String} {type type' : ValueType} (computes : Computes tag type)
    (computes' : Computes tag type') : type = type' := by
  obtain ⟨own, name, isTag, -, rfl⟩ := computes
  obtain ⟨own', name', isTag', -, rfl⟩ := computes'
  cases isTag.splits.symm.trans isTag'.splits
  rfl

theorem Taken.computes {tag : String} {signature : Signature} (taken : Taken tag signature) :
    Computes tag signature.result :=
  taken.elim standard_computes fun irregular => conversion_computes irregular.taken

/-- The value of an expression has every type that the expression has. -/
theorem HasType.type_eq {expression : Tree} {type : ValueType}
    (typed : HasType Standard globals expression type) {value : Value}
    (denotes : Denotes globals expression value) : value.type = type := by
  induction typed generalizing value with
  | @constant type text _ _ =>
      rw [denotes_iff_request, request_constant (isTag_const type)] at denotes
      exact type_of_literal denotes
  | global found isInitializer _ ih =>
      obtain ⟨index', initializer', resolves, inner⟩ := denotes_iff_request.mp denotes
      obtain ⟨found', isInitializer'⟩ := resolve_eq_ok_iff.mp resolves
      cases found.symm.trans found'
      cases isInitializer.symm.trans isInitializer'
      exact ih inner
  | @constexpr argument type _ _ =>
      rw [denotes_iff_request, request_constexpr (constexprType?_constexpr type)] at denotes
      exact denotes.2
  | instruction standard _ _ _ =>
      have computes := standard_computes standard
      obtain ⟨own, name, isTag, notConst, -⟩ := computes
      rw [denotes_iff_request, request_operation isTag notConst] at denotes
      obtain ⟨values, -, applies⟩ := denotes
      have computes' := (taken_of_applyInstruction isTag applies).computes
      exact computes'.unique (standard_computes standard)

theorem HasType.types_eq {arguments : List Tree} {operands : List ValueType} {values : List Value}
    (typed : List.Forall₂ (HasType Standard globals) arguments operands)
    (denote : List.Forall₂ (Denotes globals) arguments values) :
    values.map Value.type = operands := by
  induction typed generalizing values with
  | nil =>
      cases denote
      rfl
  | cons first _ ih =>
      cases denote with
      | cons denotes others => rw [List.map_cons, first.type_eq denotes, ih others]

/-- An expression that is well-typed as instructions exist uses no other
conversion. -/
theorem HasType.not_usesIrregular {expression : Tree} {type : ValueType}
    (typed : HasType Standard globals expression type) : ¬ UsesIrregular globals expression := by
  intro uses
  induction uses generalizing type with
  | here irregular denote =>
      obtain ⟨own, name, isTag, notConst, -⟩ := conversion_computes irregular.taken
      rcases typed.form_cases with ⟨rfl, -⟩ | ⟨rfl, -⟩ | ⟨rfl, -⟩ | ⟨operands, standard, arguments⟩
      · cases (isTag_const type).splits.symm.trans isTag.splits
        exact notConst rfl
      · exact isTag.ne_global rfl
      · cases (constexprType?_constexpr type).symm.trans isTag.notConstexpr
      · have sameResult := (standard_computes standard).unique (conversion_computes irregular.taken)
        dsimp only at sameResult
        refine irregular.missing ?_
        rw [HasType.types_eq arguments denote, ← sameResult]
        exact standard
  | argument member inner ih =>
      rcases typed.form_cases with ⟨-, text, rfl⟩ | ⟨-, reference, _, _, rfl, -⟩ |
        ⟨-, argument, rfl, typedArgument⟩ | ⟨operands, -, typedArguments⟩
      · cases List.mem_singleton.mp member
        cases inner
      · cases List.mem_singleton.mp member
        cases inner
      · cases List.mem_singleton.mp member
        exact ih typedArgument
      · obtain ⟨position, bound, rfl⟩ := List.mem_iff_getElem.mp member
        exact ih (typedArguments.get bound (typedArguments.length_eq ▸ bound))
  | global found isInitializer _ ih =>
      rcases typed.form_cases with ⟨isConst, -⟩ |
        ⟨-, _, _, _, ⟨⟩, found', isInitializer', inner⟩ | ⟨isConstexpr, -⟩ | ⟨operands, standard, -⟩
      · exact (isTag_const type).ne_global isConst.symm
      · cases found.symm.trans found'
        cases isInitializer.symm.trans isInitializer'
        exact ih inner
      · exact ne_global_of_constexprType? (constexprType?_constexpr type) isConstexpr.symm
      · obtain ⟨_, _, isTag, -⟩ := standard_computes standard
        exact isTag.ne_global rfl

/-- An expression with a value is well-typed as instructions exist if it uses no
other conversion. -/
theorem Denotes.standard {expression : Tree} {value : Value}
    (denotes : Denotes globals expression value) (regular : ¬ UsesIrregular globals expression) :
    HasType Standard globals expression value.type := by
  induction denotes with
  | constant isTag reads =>
      rw [isTag.eq_instruction, type_of_literal reads]
      exact .constant reads
  | global found isInitializer _ ih =>
      exact .global found isInitializer (ih fun uses => regular (.global found isInitializer uses))
  | constexpr asks _ ih =>
      rw [tag_of_constexprType? asks]
      exact .constexpr (ih fun uses => regular (.argument List.mem_cons_self uses))
  | @operation tag name type arguments values value isTag notConst sameLength denote applies ih =>
      rcases taken_of_applyInstruction isTag applies with standard | irregular
      · refine HasType.of_operands standard ?_
        refine List.forall₂_map_right_iff.mpr (List.forall₂_iff_zip.mpr ⟨sameLength, ?_⟩)
        intro argument operand member
        exact ih argument operand member fun uses =>
          regular (.argument (List.of_mem_zip member).1 uses)
      · exact absurd (.here irregular (List.forall₂_iff_zip.mpr ⟨sameLength, denote _ _⟩)) regular

/-- A constant zero of a type. -/
def zeroConstant (type : ValueType) : Tree :=
  .form (type.instruction "const") [.atom "0"]

theorem literal_zero (type : ValueType) : literal type "0" = .ok (zero type) := by
  match type with
  | .int .w32 | .int .w64 | .float .single | .float .double => rfl

theorem denotes_zeroConstant (type : ValueType) : Denotes globals (zeroConstant type) (zero type) :=
  .constant (isTag_const type) (literal_zero type)

/-- A conversion that does not exist has a value for constants of its operand
types. -/
theorem Irregular.exists_value {tag : String} {signature : Signature}
    (irregular : Irregular tag signature) :
    ∃ value, Denotes globals (.form tag (signature.operands.map zeroConstant)) value ∧
      value.type = signature.result ∧
      UsesIrregular globals (.form tag (signature.operands.map zeroConstant)) := by
  obtain ⟨type, name, value, isTag, notConst, applies, typed⟩ := exists_of_conversion irregular.taken
  have denote : List.Forall₂ (Denotes globals) (signature.operands.map zeroConstant)
      (signature.operands.map zero) := by
    rw [List.forall₂_map_left_iff, List.forall₂_map_right_iff, List.forall₂_same]
    exact fun type _ => denotes_zeroConstant type
  have types : (signature.operands.map zero).map Value.type = signature.operands := by
    rw [List.map_map]
    refine (List.map_congr_left fun type _ => ?_).trans (List.map_id _)
    cases type <;> rfl
  have irregular' : Irregular tag
      ⟨(signature.operands.map zero).map Value.type, signature.result⟩ := by
    rw [types]
    exact irregular
  refine ⟨value, ?_, typed, .here irregular' denote⟩
  rw [denotes_iff_request, request_operation isTag notConst]
  exact ⟨_, denote, applies⟩

end Typing

/-- Evaluating fails with an error of the linker, unless an atom of the expression or
of an initializer is oversized. -/
theorem own_or_oversized_of_evaluate {globals : List Global} {expression : Tree} {error : EvalError}
    (failed : evaluate globals expression = .error error) :
    error.family = .linker ∨ ∃ text, Oversized text ∧ (.atom text ∈ expression.subtrees ∨
      ∃ global ∈ globals, ∃ initializer ∈ global.initializer, .atom text ∈ initializer.subtrees) := by
  by_contra other
  obtain ⟨notOwn, moderate⟩ := not_or.mp other
  have obeys : ∀ tree : Tree, (∀ text, Oversized text → .atom text ∉ tree.subtrees) →
      tree.Obeys limitLaw := by
    intro tree absent part inside
    refine ⟨fun text isText oversized => absent text oversized ?_, fun _ _ => trivial⟩
    cases part with
    | atom other =>
        cases isText
        exact inside
    | list items => cases isText
  refine notOwn (ownErrors_evaluate ?_ (obeys _ ?_) error failed)
  · intro global member initializer isInitializer
    refine obeys _ fun text oversized inside => ?_
    exact moderate ⟨text, oversized, .inr ⟨global, member, initializer, isInitializer, inside⟩⟩
  · exact fun text oversized inside => moderate ⟨text, oversized, .inl inside⟩

/-- A value of an expression has the type of the expression, over the instructions
that exist and the conversions that are taken beside them; it has that type over the
former alone exactly if none of the latter is used.  Each of the latter is used by
some expression that has a value.  All other expressions fail. -/
theorem evaluate_respects_types (globals : List Global) (expression : Tree) :
    (∀ value, evaluate globals expression = .ok value →
      HasType Taken globals expression value.type ∧
        (HasType Standard globals expression value.type ↔ ¬ UsesIrregular globals expression)) ∧
      (∀ error, evaluate globals expression = .error error → error.family = .linker ∨
        ∃ text, Oversized text ∧ (.atom text ∈ expression.subtrees ∨
          ∃ global ∈ globals, ∃ initializer ∈ global.initializer,
            .atom text ∈ initializer.subtrees)) ∧
      ∀ tag signature, Irregular tag signature →
        ∃ value, evaluate globals (.form tag (signature.operands.map zeroConstant)) = .ok value ∧
          value.type = signature.result ∧
          ∀ type, ¬ HasType Standard globals (.form tag (signature.operands.map zeroConstant)) type := by
  refine ⟨fun value evaluates => ?_, fun _ => own_or_oversized_of_evaluate,
    fun tag signature irregular => ?_⟩
  · have denotes := evaluate_eq_ok_iff.mp evaluates
    exact ⟨denotes.hasType, HasType.not_usesIrregular, denotes.standard⟩
  · obtain ⟨value, denotes, typed, uses⟩ := @Irregular.exists_value globals tag signature irregular
    exact ⟨value, evaluate_eq_ok_iff.mpr denotes, typed, fun type hasType =>
      hasType.not_usesIrregular uses⟩

/-- A truncation that does not exist. -/
def oddTruncation : Tree :=
  .form "i32.trunc_foo" [.form "f64.const" [.atom "1.5"]]

theorem evaluate_oddTruncation :
    evaluate [] oddTruncation = .ok (.int .w32 1) ∧ HasType Taken [] oddTruncation i32 ∧
      Irregular "i32.trunc_foo" ⟨[f64], i32⟩ ∧ ¬ HasType Standard [] oddTruncation i32 := by
  have evaluates : evaluate [] oddTruncation = .ok (.int .w32 1) := rfl
  have reads : literal f64 "1.5" = .ok (.float .double (.ofScaled false 3 (-1))) := rfl
  have conversion : Conversion (i32.instruction ("trunc_f" ++ "oo")) ⟨[f64], i32⟩ := .truncate rfl
  have irregular : Irregular "i32.trunc_foo" ⟨[f64], i32⟩ := ⟨conversion, by decide +kernel⟩
  obtain ⟨typed, standard_iff⟩ := (evaluate_respects_types [] oddTruncation).1 _ evaluates
  refine ⟨evaluates, typed, irregular, fun standard => standard_iff.mp standard ?_⟩
  let number : Value := .float .double (.ofScaled false 3 (-1))
  have operand : Denotes [] (.form "f64.const" [.atom "1.5"]) number :=
    .constant (isTag_const f64) reads
  have atNumber : Irregular "i32.trunc_foo" ⟨[number].map Value.type, i32⟩ := irregular
  exact .here atNumber (.cons operand .nil)

end WatLink.Constant
