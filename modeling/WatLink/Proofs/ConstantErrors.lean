import WatLink.Proofs.NumberLimits
import WatLink.Proofs.PassFailures

/-!
# Errors of constant expressions

Errors are of the linker's own family or come from a conversion that it does not
guard.  Evaluating an expression over some globals fails with an error of the
linker, unless an atom of the expression or of an initializer is oversized.
-/

namespace WatLink

/-- The families of errors: those of the linker, those of conversions of values,
sizes and texts, and those of the system. -/
inductive ErrorFamily where
  | linker
  | value
  | overflow
  | decoding
  | system
  deriving DecidableEq, Repr

/-- The family of an error. -/
def EvalError.family : EvalError → ErrorFamily
  | .globalNumeral _ => .value
  | .tooLarge _ => .overflow
  | _ => .linker

/-- No atom is oversized. -/
def limitLaw : NodeLaw where
  atom text := ¬ Oversized text
  tag _ := True

theorem limitLaw_anyTag (text : String) : limitLaw.tag text :=
  trivial

theorem exists_of_isIntLiteral {text : String} (isLiteral : isIntLiteral text = true) :
    ∃ literal, IntLiteral.ofText? text = some literal :=
  Option.isSome_iff_exists.mp isLiteral

/-- Reading an integer literal fails only if it is oversized. -/
theorem oversized_of_parseInt {text : String} {fault : NumeralFault}
    (isLiteral : isIntLiteral text = true) (failed : parseInt text = .error fault) :
    Oversized text := by
  obtain ⟨literal, reads⟩ := exists_of_isIntLiteral isLiteral
  refine .digits reads ?_
  by_contra short
  simp [parseInt, reads, short] at failed

namespace Constant

/-- Whether a result is a value or an error of the linker. -/
def OwnErrors {α : Type} (result : Except EvalError α) : Prop :=
  ∀ error, result = .error error → error.family = .linker

namespace OwnErrors

variable {α β : Type}

theorem ok (value : α) : OwnErrors (.ok value) := nofun

theorem error {fault : EvalError} (isOwn : fault.family = .linker) :
    OwnErrors (.error fault : Except EvalError α) := by
  rintro _ ⟨⟩
  exact isOwn

theorem bind {first : Except EvalError α} {next : α → Except EvalError β}
    (ownFirst : OwnErrors first) (ownNext : ∀ value, OwnErrors (next value)) :
    OwnErrors (first >>= next) := by
  intro fault failed
  rcases exceptBind_eq_error_iff.mp failed with atFirst | ⟨value, -, atNext⟩
  · exact ownFirst fault atFirst
  · exact ownNext value fault atNext

theorem map {result : Except EvalError α} (own : OwnErrors result) (change : α → β) :
    OwnErrors (result.map change) :=
  fun fault failed => own fault (exceptMap_eq_error_iff.mp failed)

end OwnErrors

/-! ## Instructions -/

theorem ownErrors_oneOperand {α : Type} (tag : String) (operands : List α) :
    OwnErrors (oneOperand tag operands) := by
  unfold oneOperand
  split
  · exact .ok _
  · exact .error rfl

theorem ownErrors_twoOperands {α : Type} (tag : String) (operands : List α) :
    OwnErrors (twoOperands tag operands) := by
  unfold twoOperands
  split
  · exact .ok _
  · exact .error rfl

theorem ownErrors_integers (tag : String) (width : Width) (operands : List Value) :
    OwnErrors (integers tag width operands) := by
  induction operands with
  | nil => exact .ok _
  | cons operand rest ih =>
      cases operand with
      | float precision number => exact .error rfl
      | int actual word =>
          rw [integers]
          split
          · exact ih.map _
          · exact .error rfl

theorem ownErrors_floats (tag : String) (precision : Precision) (operands : List Value) :
    OwnErrors (floats tag precision operands) := by
  induction operands with
  | nil => exact .ok _
  | cons operand rest ih =>
      cases operand with
      | int width word => exact .error rfl
      | float actual number =>
          rw [floats]
          split
          · exact ih.map _
          · exact .error rfl

theorem ownErrors_truncateTo (tag : String) (width : Width) (signed : Bool) (number : Binary64) :
    OwnErrors (truncateTo tag width signed number) := by
  unfold truncateTo
  split
  · dsimp only
    generalize (if signed then -Int.pow 2 (width.bits - 1) else 0) = lower
    generalize (if signed then Int.pow 2 (width.bits - 1) - 1 else Int.pow 2 width.bits - 1) = upper
    split
    · exact .ok _
    · exact .error rfl
  · exact .error rfl

theorem ownErrors_applyInt (tag : String) (width : Width) (operator? : Option IntOperator)
    (operands : List Value) : OwnErrors (applyInt tag width operator? operands) := by
  have one := ownErrors_oneOperand tag operands
  have words := ownErrors_integers tag width operands
  unfold applyInt
  split
  · refine one.bind fun operand => ?_
    cases operand with
    | int actual word => exact .ok _
    | float precision number => exact .error rfl
  · refine one.bind fun operand => ?_
    cases operand with
    | int actual word => exact .ok _
    | float precision number => exact .error rfl
  · refine one.bind fun operand => ?_
    cases operand with
    | int actual word => exact .error rfl
    | float precision number => exact ownErrors_truncateTo _ _ _ _
  · exact words.bind fun _ => (ownErrors_oneOperand tag _).bind fun _ => .ok _
  · exact words.bind fun _ => (ownErrors_oneOperand tag _).bind fun _ => .ok _
  · refine words.bind fun _ => (ownErrors_twoOperands tag _).bind fun _ => ?_
    split
    split
    · exact .ok _
    · exact .error rfl
  · exact words.bind fun _ => (ownErrors_twoOperands tag _).bind fun _ => .ok _
  · exact words.bind fun _ => .error rfl

theorem ownErrors_applyFloat (tag : String) (precision : Precision)
    (operator? : Option FloatOperator) (operands : List Value) :
    OwnErrors (applyFloat tag precision operator? operands) := by
  have one := ownErrors_oneOperand tag operands
  have numbers := ownErrors_floats tag precision operands
  unfold applyFloat
  split
  · refine one.bind fun operand => ?_
    cases operand with
    | int actual word => exact .ok _
    | float precision number => exact .error rfl
  · exact one.bind fun _ => .ok _
  · exact numbers.bind fun _ => (ownErrors_oneOperand tag _).bind fun _ => .ok _
  · exact numbers.bind fun _ => (ownErrors_twoOperands tag _).bind fun _ => .ok _
  · exact numbers.bind fun _ => (ownErrors_twoOperands tag _).bind fun _ => .ok _
  · exact numbers.bind fun _ => .error rfl

theorem ownErrors_applyInstruction (tag : String) (type : ValueType) (name : String)
    (operands : List Value) : OwnErrors (applyInstruction tag type name operands) := by
  cases type with
  | int width => exact ownErrors_applyInt _ _ _ _
  | float precision => exact ownErrors_applyFloat _ _ _ _

theorem ownErrors_expectType (type : ValueType) (expression : Tree) (value : Value) :
    OwnErrors (expectType type expression value) := by
  unfold expectType
  split
  · exact .ok _
  · exact .error rfl

/-! ## Literals -/

/-- A literal that is not oversized has a value or is refused by the linker. -/
theorem ownErrors_literal {text : String} (moderate : ¬ Oversized text) (type : ValueType) :
    OwnErrors (literal type text) := by
  unfold literal
  cases type with
  | int width =>
      dsimp only
      split
      · exact .ok _
      · exact .error rfl
  | float precision =>
      dsimp only
      split
      · split
        · exact .error rfl
        · rename_i number reads
          obtain ⟨literal, isLiteral, -, rfl⟩ := exists_of_parseInt reads
          split
          · exact .ok _
          · rename_i fault tooLarge
            refine absurd (.integer isLiteral ?_) moderate
            unfold Binary64.ofInteger at tooLarge
            split at tooLarge
            · cases tooLarge
            · assumption
      · rename_i notInteger
        split
        · exact .ok _
        · rename_i tooLarge
          refine absurd (.hexadecimal ?_ tooLarge) moderate
          simpa [isIntLiteral] using notInteger
        · exact .error rfl

/-! ## Expressions -/

theorem ownErrors_evalAll {readGlobal : String → Except EvalError Value} {expressions : List Tree}
    (each : ∀ expression ∈ expressions, OwnErrors (eval readGlobal expression)) :
    OwnErrors (evalAll readGlobal expressions) := by
  induction expressions with
  | nil => exact .ok _
  | cons expression rest ih =>
      obtain ⟨first, others⟩ := List.forall_mem_cons.mp each
      rw [evalAll]
      split
      · rename_i failed
        exact .error (first _ failed)
      · exact (ih others).map _

theorem ownErrors_eval {readGlobal : String → Except EvalError Value}
    (ownGlobals : ∀ reference, ¬ Oversized reference → OwnErrors (readGlobal reference))
    {expression : Tree} (moderate : expression.Obeys limitLaw) :
    OwnErrors (eval readGlobal expression) := by
  induction expression with
  | atom text => exact .error rfl
  | list items ih =>
      have moderateItems := (Tree.obeys_list_iff limitLaw_anyTag).mp moderate
      match items with
      | [] => exact .error rfl
      | .list _ :: _ => exact .error rfl
      | .atom tag :: arguments =>
          have each : ∀ argument ∈ arguments, OwnErrors (eval readGlobal argument) :=
            fun argument member => ih argument (List.mem_cons_of_mem _ member)
              (moderateItems argument (List.mem_cons_of_mem _ member))
          rw [eval.eq_def]
          dsimp only
          split
          · split
            · exact ownGlobals _ (Tree.obeys_atom.mp (moderateItems _ (by simp)))
            · exact .error rfl
          · split
            · split
              · split
                · exact .error rfl
                · exact (each _ (by simp)).bind fun _ => ownErrors_expectType _ _ _
              · exact .error rfl
            · split
              · exact .error rfl
              · split
                · split
                  · exact ownErrors_literal (Tree.obeys_atom.mp (moderateItems _ (by simp))) _
                  · exact .error rfl
                · exact (ownErrors_evalAll each).bind fun _ => ownErrors_applyInstruction _ _ _ _

theorem ownErrors_globalIndex {reference : String} (moderate : ¬ Oversized reference)
    (globals : List Global) : OwnErrors (globalIndex globals reference) := by
  unfold globalIndex
  split
  · split
    · exact .ok _
    · exact .error rfl
  · split
    · rename_i isLiteral
      split
      · rename_i failed
        exact absurd (oversized_of_parseInt isLiteral failed) moderate
      · split
        · exact .ok _
        · exact .error rfl
    · exact .error rfl

/-- Whether no atom of the initializers of some globals is oversized. -/
def ModerateGlobals (globals : List Global) : Prop :=
  ∀ global ∈ globals, ∀ initializer ∈ global.initializer, initializer.Obeys limitLaw

theorem ownErrors_evalGlobal {globals : List Global} (moderate : ModerateGlobals globals)
    (depth : Nat) (active : List Nat) {reference : String}
    (moderateReference : ¬ Oversized reference) :
    OwnErrors (evalGlobal globals depth active reference) := by
  induction depth generalizing active reference with
  | zero =>
      rw [evalGlobal]
      split
      · rename_i failed
        exact .error (ownErrors_globalIndex moderateReference globals _ failed)
      · split
        · exact .error rfl
        · split
          · exact .error rfl
          · exact .error rfl
  | succ depth ih =>
      rw [evalGlobal]
      split
      · rename_i failed
        exact .error (ownErrors_globalIndex moderateReference globals _ failed)
      · split
        · exact .error rfl
        · rename_i index _ _ found
          obtain ⟨global, isGlobal, isInitializer⟩ := Option.bind_eq_some_iff.mp found
          split
          · exact .error rfl
          · refine ownErrors_eval (fun _ moderateOther => ih _ moderateOther) ?_
            exact moderate global (List.mem_of_getElem? isGlobal) _ isInitializer

/-- Evaluating an expression without oversized atoms fails only with errors of
the linker. -/
theorem ownErrors_evaluate {globals : List Global} (moderate : ModerateGlobals globals)
    {expression : Tree} (moderateExpression : expression.Obeys limitLaw) :
    OwnErrors (evaluate globals expression) :=
  ownErrors_eval (fun _ moderateReference =>
    ownErrors_evalGlobal moderate globals.length [] moderateReference) moderateExpression

/-! ## Globals -/

theorem obeys_initializerOf {items : List Tree} {initializer : Tree}
    (obeys : ∀ item ∈ items, item.Obeys limitLaw)
    (found : Global.initializerOf items = some initializer) : initializer.Obeys limitLaw := by
  unfold Global.initializerOf at found
  split at found
  · cases found
  · cases found
    exact obeys _ (by simp)
  · split at found
    · cases found
      exact (Tree.obeys_list_iff limitLaw_anyTag).mpr obeys
    · cases found

theorem obeys_initializer? {form initializer : Tree} (obeys : form.Obeys limitLaw)
    (found : Global.initializer? form = some initializer) : initializer.Obeys limitLaw := by
  unfold Global.initializer? at found
  split at found
  · cases found
  · rename_i first rest behind
    refine obeys_initializerOf (fun item member => ?_) found
    have inTail : item ∈ form.items.tail.dropWhile (!Global.isType ·) := by
      rw [behind]
      exact List.mem_cons_of_mem first member
    exact obeys.items item (List.mem_of_mem_tail ((List.dropWhile_sublist _).mem inTail))

theorem moderateGlobals_of_obeys {module : Tree} (obeys : module.Obeys limitLaw) :
    ModerateGlobals (Module.globals module) := by
  intro global member initializer isInitializer
  obtain ⟨declaration, inSpace, rfl⟩ := List.mem_map.mp member
  obtain ⟨item, inModule, declares⟩ := Module.exists_of_mem_indexSpace inSpace
  have obeysItem := obeys.items item inModule
  have found : Global.initializer? declaration.form = some initializer := by
    simp only [Global.ofDeclaration] at isInitializer
    split at isInitializer
    · cases isInitializer
    · exact isInitializer
  refine obeys_initializer? ?_ found
  rcases Module.declaration?_cases declares with ⟨rest, rfl, -, inRest⟩ | ⟨-, -, rfl⟩
  · exact obeysItem.items _ (List.mem_cons_of_mem _ (List.mem_of_find?_eq_some inRest))
  · exact obeysItem

theorem moderateGlobals_currentGlobals {before : List Global} {module : Tree}
    (moderateBefore : ModerateGlobals before) (obeys : module.Obeys limitLaw) :
    ModerateGlobals (currentGlobals before module) := by
  have moderateNow := moderateGlobals_of_obeys obeys
  intro global member
  rw [currentGlobals, ← List.map_uncurry_zip_eq_zipWith] at member
  obtain ⟨⟨old, now⟩, inPairs, rfl⟩ := List.mem_map.mp member
  obtain ⟨inBefore, inNow⟩ := List.of_mem_zip inPairs
  simp only [Function.uncurry, currentGlobal]
  split
  · exact moderateBefore old inBefore
  · exact moderateNow now inNow

/-- Folding a module without oversized atoms fails only with errors of the
linker. -/
theorem family_of_failsIn {module : Tree} (moderate : module.Obeys limitLaw) {error : EvalError}
    (fails : (foldReviser (Module.globals module)).FailsIn (foldingLaw module) module error) :
    error.family = .linker := by
  have moderateAtoms : ∀ tree : Tree, tree.Obeys (foldingLaw module) → tree.Obeys limitLaw := by
    intro tree obeys part member
    refine ⟨fun text isText => ?_, fun _ _ => trivial⟩
    rcases (obeys part member).1 text isText with inModule | inserts
    · exact (moderate _ inModule).1 text rfl
    · exact not_oversized_of_inserts inserts
  obtain ⟨whole, item, -, obeysItem, obeysWhole, decided⟩ := fails
  obtain ⟨name, -, folded⟩ := Option.map_eq_some_iff.mp decided
  have moderateNow := moderateGlobals_currentGlobals (moderateGlobals_of_obeys moderate)
    (moderateAtoms _ obeysWhole)
  exact ownErrors_evaluate moderateNow (moderateAtoms _ obeysItem) error
    (exceptMap_eq_error_iff.mp folded)

end Constant

end WatLink
