import WatLink.Constant.Evaluation

/-!
# First steps of the evaluator

The tags of instructions, and what the evaluator does with an expression before it
evaluates anything else.  The evaluator is opened here and nowhere else: it finishes
at once, or it asks for a global or for the values of operands.
-/

namespace WatLink

/-- The tag of the instruction of a type with a name. -/
def ValueType.instruction (type : ValueType) (name : String) : String :=
  type.name ++ ("." ++ name)

namespace Constant

/-! ## Tags -/

/-- Whether a tag names an instruction of a type. -/
structure IsTag (tag : String) (type : ValueType) (name : String) : Prop where
  notConstexpr : constexprType? tag = none
  splits : instruction? tag = some (type, name)

theorem ofName?_name (type : ValueType) : ValueType.ofName? type.name = some type := by
  match type with
  | .int .w32 | .int .w64 | .float .single | .float .double => rfl

theorem name_of_ofName? {name : String} {type : ValueType}
    (found : ValueType.ofName? name = some type) : name = type.name := by
  have named := List.find?_some found
  exact (beq_iff_eq.mp named).symm

theorem instruction?_instruction (type : ValueType) {name : String} (nonempty : name ≠ "") :
    instruction? (type.instruction name) = some (type, name) := by
  have characters : (type.instruction name).toList = type.name.toList ++ '.' :: name.toList := by
    simp [ValueType.instruction]
  have noPoint : ∀ character ∈ type.name.toList, (character != '.') = true := by
    match type with
    | .int .w32 | .int .w64 | .float .single | .float .double => simp [ValueType.name]
  have front : (type.name.toList ++ '.' :: name.toList).takeWhile (· != '.') = type.name.toList := by
    rw [List.takeWhile_append_of_pos noPoint]
    simp
  have behind : (type.name.toList ++ '.' :: name.toList).dropWhile (· != '.') =
      '.' :: name.toList := by
    rw [List.dropWhile_append_of_pos noPoint]
    simp
  simp [instruction?, characters, front, behind, ofName?_name, nonempty]

theorem tag_of_instruction? {tag name : String} {type : ValueType}
    (splits : instruction? tag = some (type, name)) : tag = type.instruction name := by
  unfold instruction? at splits
  dsimp only at splits
  split at splits
  · rename_i named
    split at splits
    · cases splits
    · rename_i nonempty
      cases splits
      have front := congrArg String.toList (name_of_ofName? named)
      have behind : tag.toList.dropWhile (· != '.') =
          '.' :: (tag.toList.dropWhile (· != '.')).tail := by
        cases rest : tag.toList.dropWhile (· != '.') with
        | nil => simp [rest] at nonempty
        | cons point others =>
            have stops := List.head?_dropWhile_not (· != '.') tag.toList
            simp only [rest, List.head?_cons] at stops
            simpa using stops
      rw [String.toList_ofList] at front
      apply String.toList_injective
      simp only [ValueType.instruction, String.toList_append, ← front, String.toList_ofList]
      calc tag.toList = tag.toList.takeWhile (· != '.') ++ tag.toList.dropWhile (· != '.') :=
            List.takeWhile_append_dropWhile.symm
        _ = _ := by
            rw [behind]
            simp
  · cases splits

theorem IsTag.eq_instruction {tag name : String} {type : ValueType} (isTag : IsTag tag type name) :
    tag = type.instruction name :=
  tag_of_instruction? isTag.splits

theorem isTag_const (type : ValueType) : IsTag (type.instruction "const") type "const" := by
  match type with
  | .int .w32 | .int .w64 | .float .single | .float .double => exact ⟨rfl, rfl⟩

theorem constexprType?_constexpr (type : ValueType) :
    constexprType? (type.instruction "constexpr") = some type.name := by
  match type with
  | .int .w32 | .int .w64 | .float .single | .float .double => rfl

/-! ## Requests -/

/-- What the evaluator needs to finish an expression. -/
inductive Request where
  | nothing (outcome : Except EvalError Value)
  | global (reference : String)
  | typed (type : ValueType) (argument : Tree)
  | operands (tag : String) (type : ValueType) (name : String) (arguments : List Tree)

/-- What the evaluator needs to finish an expression, by the tag of the
expression. -/
def request : Tree → Request
  | .atom text => .nothing (.error (.notAnInstruction (.atom text)))
  | .list [] => .nothing (.error (.notAnInstruction (.list [])))
  | .list (.list items :: rest) =>
      .nothing (.error (.notAnInstruction (.list (.list items :: rest))))
  | .list (.atom tag :: arguments) =>
      if tag = "global.get" then
        match arguments with
        | [.atom reference] => .global reference
        | _ => .nothing (.error .globalArity)
      else
        match constexprType? tag with
        | some name =>
            match arguments with
            | [argument] =>
                match ValueType.ofName? name with
                | none => .nothing (.error (.unknownType name))
                | some type => .typed type argument
            | _ => .nothing (.error (.constexprArity tag))
        | none =>
            match instruction? tag with
            | none => .nothing (.error (.unsupported tag))
            | some (type, name) =>
                if name = "const" then
                  match arguments with
                  | [.atom text] => .nothing (literal type text)
                  | _ => .nothing (.error (.literalArity tag))
                else .operands tag type name arguments

/-- The outcome of an expression, given what the evaluator needs for it. -/
def Request.outcome (readGlobal : String → Except EvalError Value) :
    Request → Except EvalError Value
  | .nothing outcome => outcome
  | .global reference => readGlobal reference
  | .typed type argument => eval readGlobal argument >>= expectType type argument
  | .operands tag type name arguments =>
      evalAll readGlobal arguments >>= applyInstruction tag type name

theorem eval_eq_outcome (readGlobal : String → Except EvalError Value) (expression : Tree) :
    eval readGlobal expression = (request expression).outcome readGlobal := by
  match expression with
  | .atom text => rfl
  | .list [] => rfl
  | .list (.list items :: rest) => rfl
  | .list (.atom tag :: arguments) =>
      rw [eval.eq_def, request.eq_def]
      by_cases isGlobal : tag = "global.get"
      · simp only [if_pos isGlobal]
        rcases arguments with _ | ⟨_ | _, _ | ⟨_, _⟩⟩ <;> rfl
      · simp only [if_neg isGlobal]
        cases constexprType? tag with
        | some name =>
            rcases arguments with _ | ⟨_, _ | ⟨_, _⟩⟩
            · rfl
            · dsimp only
              cases ValueType.ofName? name <;> rfl
            · rfl
        | none =>
            cases instruction? tag with
            | none => rfl
            | some instruction =>
                by_cases isConst : instruction.2 = "const"
                · simp only [if_pos isConst]
                  rcases arguments with _ | ⟨_ | _, _ | ⟨_, _⟩⟩ <;> rfl
                · simp only [if_neg isConst, Request.outcome]

section Shapes

variable {tag text name : String} {type : ValueType} {argument : Tree} {arguments : List Tree}

theorem IsTag.ne_global (isTag : IsTag tag type name) : tag ≠ "global.get" := by
  rintro rfl
  cases isTag.splits

theorem ne_global_of_constexprType? (asks : constexprType? tag = some name) :
    tag ≠ "global.get" := by
  rintro rfl
  cases asks

theorem request_constant (isTag : IsTag tag type "const") :
    request (.form tag [.atom text]) = .nothing (literal type text) := by
  simp [Tree.form, request.eq_def, isTag.ne_global, isTag.notConstexpr, isTag.splits]

theorem request_constexpr (asks : constexprType? tag = some type.name) :
    request (.form tag [argument]) = .typed type argument := by
  simp [Tree.form, request.eq_def, ne_global_of_constexprType? asks, asks, ofName?_name]

theorem request_operation (isTag : IsTag tag type name) (notConst : name ≠ "const") :
    request (.form tag arguments) = .operands tag type name arguments := by
  simp [Tree.form, request.eq_def, isTag.ne_global, isTag.notConstexpr, isTag.splits, notConst]

end Shapes

end Constant

end WatLink
