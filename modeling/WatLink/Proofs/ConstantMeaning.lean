import WatLink.Proofs.EvaluatorRequests
import WatLink.Proofs.PassFailures

/-!
# The meaning of constant expressions

What an expression over some globals evaluates to, as rules on its syntax.  A
reference to a global means what the initializer of the global means; the rules
know nothing of evaluations that are under way, and an expression that depends on
itself has no meaning because its derivation would never end.
-/

namespace WatLink

namespace Constant

/-- The initializer of the global with an index. -/
def initializerAt? (globals : List Global) (index : Nat) : Option Tree :=
  globals[index]?.bind (·.initializer)

/-- The values of expressions, without regard to evaluations under way. -/
inductive Denotes (globals : List Global) : Tree → Value → Prop
  | constant {tag text : String} {type : ValueType} {value : Value} :
      IsTag tag type "const" → literal type text = .ok value →
        Denotes globals (.form tag [.atom text]) value
  | global {reference : String} {index : Nat} {initializer : Tree} {value : Value} :
      globalIndex globals reference = .ok index →
        initializerAt? globals index = some initializer → Denotes globals initializer value →
          Denotes globals (.form "global.get" [.atom reference]) value
  | constexpr {tag : String} {argument : Tree} {value : Value} :
      constexprType? tag = some value.type.name → Denotes globals argument value →
        Denotes globals (.form tag [argument]) value
  | operation {tag name : String} {type : ValueType} {arguments : List Tree}
      {values : List Value} {value : Value} :
      IsTag tag type name → name ≠ "const" → arguments.length = values.length →
        (∀ argument operand, (argument, operand) ∈ arguments.zip values →
          Denotes globals argument operand) →
        applyInstruction tag type name values = .ok value →
          Denotes globals (.form tag arguments) value

/-! ## Requests and meanings -/

/-- The expressions that the evaluator does not refuse at once, with what it needs
for them. -/
inductive Asks : Tree → Request → Prop
  | refused {expression : Tree} {fault : EvalError} : Asks expression (.nothing (.error fault))
  | constant {tag text : String} {type : ValueType} : IsTag tag type "const" →
      Asks (.form tag [.atom text]) (.nothing (literal type text))
  | global {reference : String} : Asks (.form "global.get" [.atom reference]) (.global reference)
  | constexpr {tag : String} {type : ValueType} {argument : Tree} :
      constexprType? tag = some type.name → Asks (.form tag [argument]) (.typed type argument)
  | operation {tag name : String} {type : ValueType} {arguments : List Tree} :
      IsTag tag type name → name ≠ "const" →
        Asks (.form tag arguments) (.operands tag type name arguments)

theorem asks_request (expression : Tree) : Asks expression (request expression) := by
  match expression with
  | .atom text => exact .refused
  | .list [] => exact .refused
  | .list (.list items :: rest) => exact .refused
  | .list (.atom tag :: arguments) =>
      rw [request.eq_def]
      dsimp only
      split
      · rename_i isGlobal
        subst isGlobal
        split
        · exact .global
        · exact .refused
      · split
        · rename_i name isConstexpr
          split
          · split
            · exact .refused
            · rename_i type named
              exact .constexpr (name_of_ofName? named ▸ isConstexpr)
          · exact .refused
        · rename_i notConstexpr
          split
          · exact .refused
          · rename_i type name splits
            split
            · rename_i isConst
              subst isConst
              split
              · exact .constant ⟨notConstexpr, splits⟩
              · exact .refused
            · exact .operation ⟨notConstexpr, splits⟩ ‹_›

/-! ## Meanings by requests -/

/-- The initializer that a reference leads to, behind the index of its global. -/
def resolve (globals : List Global) (reference : String) : Except EvalError (Nat × Tree) :=
  match globalIndex globals reference with
  | .error fault => .error fault
  | .ok index =>
      match initializerAt? globals index with
      | none => .error (.noInitializer reference)
      | some initializer => .ok (index, initializer)

theorem resolve_eq_ok_iff {globals : List Global} {reference : String} {index : Nat}
    {initializer : Tree} :
    resolve globals reference = .ok (index, initializer) ↔
      globalIndex globals reference = .ok index ∧
        initializerAt? globals index = some initializer := by
  unfold resolve
  constructor
  · intro resolves
    split at resolves
    · cases resolves
    · split at resolves
      · cases resolves
      · cases resolves
        exact ⟨‹_›, ‹_›⟩
  · rintro ⟨found, isInitializer⟩
    simp only [found, isInitializer]

/-- Whether what the evaluator needs for an expression gives it a value. -/
def Request.Denotes (globals : List Global) (value : Value) : Request → Prop
  | .nothing outcome => outcome = .ok value
  | .global reference => ∃ index initializer,
      resolve globals reference = .ok (index, initializer) ∧
        Constant.Denotes globals initializer value
  | .typed type argument => Constant.Denotes globals argument value ∧ value.type = type
  | .operands tag type name arguments => ∃ values,
      List.Forall₂ (Constant.Denotes globals) arguments values ∧
        applyInstruction tag type name values = .ok value

theorem denotes_iff_request {globals : List Global} {expression : Tree} {value : Value} :
    Denotes globals expression value ↔ (request expression).Denotes globals value := by
  constructor
  · intro denotes
    cases denotes with
    | constant isTag reads =>
        rw [request_constant isTag]
        exact reads
    | global found isInitializer inner =>
        exact ⟨_, _, resolve_eq_ok_iff.mpr ⟨found, isInitializer⟩, inner⟩
    | constexpr isConstexpr inner =>
        rw [request_constexpr isConstexpr]
        exact ⟨inner, rfl⟩
    | operation isTag notConst sameLength inner applies =>
        rw [request_operation isTag notConst]
        exact ⟨_, List.forall₂_iff_zip.mpr ⟨sameLength, inner _ _⟩, applies⟩
  · have asks := asks_request expression
    generalize request expression = asked at asks
    intro denotes
    cases asks with
    | refused => cases denotes
    | constant isTag => exact .constant isTag denotes
    | global =>
        obtain ⟨index, initializer, resolves, inner⟩ := denotes
        obtain ⟨found, isInitializer⟩ := resolve_eq_ok_iff.mp resolves
        exact .global found isInitializer inner
    | constexpr isConstexpr =>
        obtain ⟨inner, rfl⟩ := denotes
        exact .constexpr isConstexpr inner
    | operation isTag notConst =>
        obtain ⟨values, inner, applies⟩ := denotes
        obtain ⟨sameLength, each⟩ := List.forall₂_iff_zip.mp inner
        exact .operation isTag notConst sameLength (fun _ _ => each) applies

theorem evalAll_eq_ok_iff {readGlobal : String → Except EvalError Value} {expressions : List Tree}
    {values : List Value} :
    evalAll readGlobal expressions = .ok values ↔
      List.Forall₂ (fun expression value => eval readGlobal expression = .ok value)
        expressions values := by
  induction expressions generalizing values with
  | nil => cases values <;> simp [evalAll]
  | cons expression rest ih =>
      rw [evalAll, List.forall₂_cons_left_iff]
      cases eval readGlobal expression with
      | error fault => simp
      | ok value =>
          simp only [exceptMap_eq_ok_iff, ih, Except.ok.injEq]
          constructor
          · rintro ⟨others, evaluatesRest, rfl⟩
            exact ⟨value, others, rfl, evaluatesRest, rfl⟩
          · rintro ⟨first, others, rfl, evaluatesRest, rfl⟩
            exact ⟨others, evaluatesRest, rfl⟩

theorem expectType_eq_ok_iff {type : ValueType} {expression : Tree} {value value' : Value} :
    expectType type expression value = .ok value' ↔ value = value' ∧ value.type = type := by
  unfold expectType
  split <;> simp [*]

/-- Expressions mean what the evaluator finds, if references mean what it reads. -/
theorem denotes_of_eval {globals : List Global} {readGlobal : String → Except EvalError Value}
    (references : ∀ reference value, readGlobal reference = .ok value →
      (Request.global reference).Denotes globals value)
    {expression : Tree} {value : Value} (evaluates : eval readGlobal expression = .ok value) :
    Denotes globals expression value := by
  induction expression generalizing value with
  | atom text => cases evaluates
  | list items ih =>
      rw [eval_eq_outcome] at evaluates
      rw [denotes_iff_request]
      have asks := asks_request (.list items)
      generalize request (.list items) = asked at asks evaluates
      cases asks with
      | refused => cases evaluates
      | constant isTag => exact evaluates
      | global => exact references _ _ evaluates
      | constexpr isConstexpr =>
          obtain ⟨inner, evaluatesInner, typed⟩ := exceptBind_eq_ok_iff.mp evaluates
          obtain ⟨rfl, isType⟩ := expectType_eq_ok_iff.mp typed
          exact ⟨ih _ (by simp) evaluatesInner, isType⟩
      | operation isTag notConst =>
          obtain ⟨values, evaluatesAll, applies⟩ := exceptBind_eq_ok_iff.mp evaluates
          refine ⟨values, ?_, applies⟩
          refine (List.forall₂_iff_zip.mpr ?_)
          obtain ⟨sameLength, each⟩ := List.forall₂_iff_zip.mp (evalAll_eq_ok_iff.mp evaluatesAll)
          refine ⟨sameLength, fun member => ih _ ?_ (each member)⟩
          exact List.mem_cons_of_mem _ (List.of_mem_zip member).1

end Constant

end WatLink
