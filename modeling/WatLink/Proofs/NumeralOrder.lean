import WatLink.Proofs.DecimalTrees
import WatLink.Proofs.GlobalCycles
import WatLink.Proofs.SizingFailures

/-!
# Numerals before or after folding and sizing

Folding constants and sizing memories read integers in many places: as constants, as
references to globals and memories, as offsets of segments and as limits of memories.
In none of them does the spelling matter, so a module in decimal is folded and sized
as the module is.  Both passes write only decimal numerals themselves.  It is
therefore the same whether the numerals of a module are rewritten before or after
them.
-/

namespace WatLink

/-! ## Globals -/

theorem ofName?_decimalText (text : String) :
    ValueType.ofName? (decimalText text) = ValueType.ofName? text :=
  decimalText_congr none (fun _ => ofName?_of_isNumeral) text

/-- A global with its initializer in decimal. -/
def Global.inDecimal (global : Global) : Global :=
  ⟨global.name, global.initializer.map Tree.inDecimal⟩

namespace Global

theorem isType_inDecimal (item : Tree) : isType item.inDecimal = isType item := by
  cases item with
  | atom text => rw [Tree.inDecimal_atom, isType, isType, ofName?_decimalText]
  | list items =>
      have sameTag := Tree.hasTag_inDecimal (by decide : ¬ IsNumeral "mut") (.list items)
      rw [Tree.inDecimal_list] at sameTag ⊢
      exact sameTag

theorem initializerOf_inDecimal (items : List Tree) :
    initializerOf (items.map Tree.inDecimal) = (initializerOf items).map Tree.inDecimal := by
  match items with
  | [] => rfl
  | [.list inner] => simp [initializerOf]
  | [.atom text] => simp [initializerOf, Tree.isList]
  | first :: second :: rest =>
      have sameLists : ((first :: second :: rest).map Tree.inDecimal).all (!·.isList) =
          (first :: second :: rest).all (!·.isList) := by
        simp [Function.comp_def]
      rw [List.map_cons, List.map_cons] at sameLists ⊢
      rw [initializerOf, initializerOf, sameLists]
      · split <;> simp
      all_goals simp

theorem initializer?_inDecimal (form : Tree) :
    initializer? form.inDecimal = (initializer? form).map Tree.inDecimal := by
  have sameTypes : (!isType ·) ∘ Tree.inDecimal = (!isType ·) := by
    funext item
    rw [Function.comp_apply, isType_inDecimal]
  rw [initializer?, initializer?, Tree.items_inDecimal, ← List.map_tail, List.dropWhile_map,
    sameTypes]
  cases form.items.tail.dropWhile (!isType ·) with
  | nil => rfl
  | cons type rest => exact initializerOf_inDecimal rest

theorem ofDeclaration_inDecimal (declaration : Declaration) :
    ofDeclaration declaration.inDecimal = (ofDeclaration declaration).inDecimal := by
  simp only [ofDeclaration, Declaration.inDecimal, inDecimal, Tree.identifier?_inDecimal,
    initializer?_inDecimal]
  split <;> rfl

end Global

theorem Module.globals_inDecimal (module : Tree) :
    globals module.inDecimal = (globals module).map Global.inDecimal := by
  rw [globals, indexSpace_inDecimal (by decide), globals, List.map_map, List.map_map]
  exact List.map_congr_left fun declaration _ => Global.ofDeclaration_inDecimal declaration

/-! ## Evaluation -/

namespace Constant

theorem constexprType?_decimalText (tag : String) :
    constexprType? (decimalText tag) = constexprType? tag :=
  decimalText_congr none (fun _ => constexprType?_of_isNumeral) tag

theorem instruction?_decimalText (tag : String) :
    instruction? (decimalText tag) = instruction? tag :=
  decimalText_congr none (fun _ => instruction?_of_isNumeral) tag

theorem decimalText_of_instruction? {tag : String} {instruction : ValueType × String}
    (isTag : instruction? tag = some instruction) : decimalText tag = tag := by
  apply decimalText_of_not_isNumeral
  intro isNumeral
  rw [instruction?_of_isNumeral isNumeral] at isTag
  cases isTag

theorem expectType_toOption (type : ValueType) (expression expression' : Tree) (value : Value) :
    (expectType type expression value).toOption = (expectType type expression' value).toOption := by
  unfold expectType
  split <;> rfl

section Expressions

variable {readGlobal readGlobal' : String → Except EvalError Value}

theorem evalAll_inDecimal {expressions : List Tree}
    (inside : ∀ expression ∈ expressions,
      (eval readGlobal' expression.inDecimal).toOption = (eval readGlobal expression).toOption) :
    (evalAll readGlobal' (expressions.map Tree.inDecimal)).toOption =
      (evalAll readGlobal expressions).toOption := by
  induction expressions with
  | nil => simp [evalAll]
  | cons expression rest ih =>
      obtain ⟨first, others⟩ := List.forall_mem_cons.mp inside
      rw [List.map_cons, evalAll, evalAll]
      rcases toOption_eq_cases first with ⟨value, ok, ok'⟩ | ⟨_, _, failed, failed'⟩
      · simp only [ok, ok', toOption_map, ih others]
      · simp [failed, failed', Except.toOption]

/-- An expression in decimal has the value of the expression, if global references
have. -/
theorem eval_inDecimal
    (reads : ∀ reference,
      (readGlobal' (decimalText reference)).toOption = (readGlobal reference).toOption)
    (expression : Tree) :
    (eval readGlobal' expression.inDecimal).toOption = (eval readGlobal expression).toOption := by
  induction expression with
  | atom text => rfl
  | list items ih =>
      rcases items with _ | ⟨tag | inner, arguments⟩
      · rfl
      · rw [Tree.inDecimal_list, List.map_cons, Tree.inDecimal_atom, eval.eq_def readGlobal',
          eval.eq_def readGlobal]
        simp only [constexprType?_decimalText, instruction?_decimalText,
          decimalText_eq_iff (by decide : ¬ IsNumeral "global.get")]
        split
        · rcases arguments with _ | ⟨reference | _, _ | ⟨_, _⟩⟩
          case cons.atom.nil => exact reads reference
          all_goals simp [Except.toOption]
        · cases constexprType? tag with
          | some name =>
              rcases arguments with _ | ⟨argument, _ | ⟨_, _⟩⟩
              · simp [Except.toOption]
              · cases named : ValueType.ofName? name with
                | none => simp [named, Except.toOption]
                | some type =>
                    simp only [List.map_cons, List.map_nil, named, toOption_bind,
                      ih argument (by simp), expectType_toOption type argument.inDecimal argument]
              · simp [Except.toOption]
          | none =>
              cases isTag : instruction? tag with
              | none => simp [Except.toOption]
              | some instruction =>
                  rw [decimalText_of_instruction? isTag]
                  dsimp only
                  split
                  · rcases arguments with _ | ⟨text | _, _ | ⟨_, _⟩⟩
                    case cons.atom.nil => exact literal_decimalText instruction.1 text
                    all_goals simp [Except.toOption]
                  · rw [toOption_bind, toOption_bind,
                      evalAll_inDecimal fun argument member => ih argument (by simp [member])]
      · rfl

end Expressions

theorem globalIndex_inDecimal (globals : List Global) (reference : String) :
    (globalIndex (globals.map Global.inDecimal) (decimalText reference)).toOption =
      (globalIndex globals reference).toOption := by
  have sameNames : (fun global : Global => global.name == some reference) ∘ Global.inDecimal =
      fun global => global.name == some reference := rfl
  unfold globalIndex
  rw [isIdentifier_decimalText, isIntLiteral_decimalText]
  split
  · rename_i isName
    rw [decimalText_of_isIdentifier isName, List.findIdx?_map, sameNames]
  · split
    · rcases toOption_eq_cases (parseInt_decimalText reference) with
        ⟨index, reads, reads'⟩ | ⟨_, _, unread, unread'⟩
      · simp only [reads, reads', List.length_map]
        split <;> rfl
      · simp [unread, unread', Except.toOption]
    · rfl

theorem resolve_inDecimal (globals : List Global) (reference : String) :
    (resolve (globals.map Global.inDecimal) (decimalText reference)).toOption =
      (resolve globals reference).toOption.map (Prod.map id Tree.inDecimal) := by
  have sameInitializer : ∀ index, initializerAt? (globals.map Global.inDecimal) index =
      (initializerAt? globals index).map Tree.inDecimal := by
    intro index
    rw [initializerAt?, List.getElem?_map, initializerAt?]
    cases globals[index]? <;> rfl
  rw [resolve, resolve]
  rcases toOption_eq_cases (globalIndex_inDecimal globals reference) with
    ⟨index, found, found'⟩ | ⟨_, _, unknown, unknown'⟩
  · simp only [found, found', sameInitializer]
    cases initializerAt? globals index <;> rfl
  · simp [unknown, unknown', Except.toOption]

theorem evalGlobal_inDecimal (globals : List Global) (depth : Nat) (active : List Nat)
    (reference : String) :
    (evalGlobal (globals.map Global.inDecimal) depth active (decimalText reference)).toOption =
      (evalGlobal globals depth active reference).toOption := by
  induction depth generalizing active reference with
  | zero =>
      rw [evalGlobal_eq, evalGlobal_eq]
      rcases toOption_cases (resolve_inDecimal globals reference) with
        ⟨⟨index, initializer⟩, resolves, resolves'⟩ | ⟨_, _, unresolved, unresolved'⟩
      · simp only [resolves, resolves', Prod.map, id_eq]
        split <;> rfl
      · simp [unresolved, unresolved', Except.toOption]
  | succ depth ih =>
      rw [evalGlobal_eq, evalGlobal_eq]
      rcases toOption_cases (resolve_inDecimal globals reference) with
        ⟨⟨index, initializer⟩, resolves, resolves'⟩ | ⟨_, _, unresolved, unresolved'⟩
      · simp only [resolves, resolves', Prod.map, id_eq]
        split
        · rfl
        · exact eval_inDecimal (ih (index :: active)) initializer
      · simp [unresolved, unresolved', Except.toOption]

theorem evaluate_inDecimal (globals : List Global) (expression : Tree) :
    (evaluate (globals.map Global.inDecimal) expression.inDecimal).toOption =
      (evaluate globals expression).toOption := by
  rw [evaluate, evaluate, List.length_map]
  exact eval_inDecimal (evalGlobal_inDecimal globals _ _) expression

/-! ## Folding -/

theorem constexprName?_inDecimal (tree : Tree) :
    constexprName? tree.inDecimal = constexprName? tree := by
  rw [constexprName?, Tree.tag?_inDecimal, constexprName?]
  cases tree.tag? with
  | none => rfl
  | some tag => rw [Option.map_some, Option.bind_some, Option.bind_some, constexprType?_decimalText]

theorem currentGlobal_inDecimal (before now : Global) :
    currentGlobal before.inDecimal now.inDecimal = (currentGlobal before now).inDecimal := by
  have sameName : before.inDecimal.initializer.bind constexprName? =
      before.initializer.bind constexprName? := by
    simp only [Global.inDecimal]
    cases before.initializer with
    | none => rfl
    | some initializer => exact constexprName?_inDecimal initializer
  rw [currentGlobal, currentGlobal, sameName]
  cases before.initializer.bind constexprName? <;> rfl

theorem currentGlobals_inDecimal (before : List Global) (module : Tree) :
    currentGlobals (before.map Global.inDecimal) module.inDecimal =
      (currentGlobals before module).map Global.inDecimal := by
  rw [currentGlobals, currentGlobals, Module.globals_inDecimal, List.zipWith_map,
    List.map_zipWith]
  simp only [currentGlobal_inDecimal]

/-- The constants that take the place of expressions are in decimal. -/
theorem inDecimal_constant (name : String) (value : Value) :
    (Tree.form (name ++ ".const") [.atom value.spell]).inDecimal =
      .form (name ++ ".const") [.atom value.spell] := by
  have sameTag : decimalText (name ++ ".const") = name ++ ".const" :=
    decimalText_of_mem .point (by simp)
  simp [Tree.form, sameTag, decimalText_of_isBare value.isBare_spell]

theorem foldReviser_follows (before : List Global) :
    (foldReviser (before.map Global.inDecimal)).Follows (foldReviser before) := by
  intro whole whole' item alike
  rw [foldReviser, foldReviser, constexprName?_inDecimal, alike, currentGlobals_inDecimal]
  cases constexprName? item with
  | none => rfl
  | some name =>
      have sameConstant : (Tree.inDecimal ∘ fun value : Value =>
          Tree.form (name ++ ".const") [.atom value.spell]) =
            fun value => .form (name ++ ".const") [.atom value.spell] :=
        funext (inDecimal_constant name)
      simp only [Option.map_some, toOption_map, evaluate_inDecimal, Option.map_map, sameConstant]

end Constant

/-- A module in decimal is folded as the module is. -/
theorem Module.foldConstants_inDecimal (module : Tree) :
    (foldConstants module.inDecimal).tree = (foldConstants module).tree.inDecimal ∧
      (foldConstants module.inDecimal).failure.isSome = (foldConstants module).failure.isSome := by
  rw [foldConstants, globals_inDecimal]
  exact Tree.revise_inDecimal (Constant.foldReviser_follows _) module

/-! ## Segments -/

theorem constantWidth?_decimalText (instruction : String) :
    constantWidth? (decimalText instruction) = constantWidth? instruction := by
  simp only [constantWidth?, decimalText_eq_iff (by decide : ¬ IsNumeral "i32.const"),
    decimalText_eq_iff (by decide : ¬ IsNumeral "i64.const")]

theorem offsetOfWords_inDecimal (words : List Tree) :
    (offsetOfWords (words.map Tree.inDecimal)).toOption = (offsetOfWords words).toOption := by
  match words with
  | [.atom instruction, .atom text] =>
      simp only [List.map_cons, List.map_nil, Tree.inDecimal_atom, offsetOfWords,
        constantWidth?_decimalText, isIntLiteral_decimalText]
      cases constantWidth? instruction with
      | none => rfl
      | some width =>
          dsimp only
          split
          · rw [toOption_map, toOption_map, parseInt_decimalText]
          · rfl
  | [] | [_] | .list _ :: _ :: _ | .atom _ :: .list _ :: _ | .atom _ :: .atom _ :: _ :: _ =>
      simp [offsetOfWords]

/-- Words that are not one list are not one list in decimal. -/
theorem map_inDecimal_ne_list {words : List Tree}
    (notList : ∀ items, words = [.list items] → False) (items : List Tree) :
    words.map Tree.inDecimal ≠ [.list items] := by
  intro same
  obtain ⟨word, rfl, isList⟩ := List.map_eq_singleton_iff.mp same
  cases word with
  | atom text => simp at isList
  | list inner => exact notList inner rfl

theorem constantOffset_inDecimal (expression : Tree) :
    (constantOffset expression.inDecimal).toOption = (constantOffset expression).toOption := by
  have isOffset : ∀ tag, decimalText tag = "offset" ↔ tag = "offset" :=
    fun _ => decimalText_eq_iff (by decide)
  fun_induction constantOffset expression with
  | case1 text => simp [constantOffset]
  | case2 items ih =>
      rw [Tree.inDecimal_list] at ih ⊢
      simpa [constantOffset, isOffset] using ih
  | case3 tag items notOffset => simp [constantOffset, isOffset, notOffset]
  | case4 words notList =>
      rw [Tree.inDecimal_list, List.map_cons, Tree.inDecimal_atom, constantOffset,
        if_pos ((isOffset _).mpr rfl)]
      · exact offsetOfWords_inDecimal words
      · exact map_inDecimal_ne_list notList
  | case5 tag words notList notOffset =>
      have same := offsetOfWords_inDecimal (.atom tag :: words)
      rw [List.map_cons, Tree.inDecimal_atom] at same
      rw [Tree.inDecimal_list, List.map_cons, Tree.inDecimal_atom, constantOffset,
        if_neg (mt (isOffset _).mp notOffset), same]
      exact map_inDecimal_ne_list notList
  | case6 items notWrapped notTagged =>
      cases items with
      | nil => rfl
      | cons first rest =>
          cases first with
          | atom tag => exact absurd rfl (notTagged tag rest)
          | list inner =>
              have same := offsetOfWords_inDecimal (.list inner :: rest)
              rw [List.map_cons, Tree.inDecimal_list] at same
              rw [Tree.inDecimal_list, List.map_cons, Tree.inDecimal_list, ← same]
              rfl

theorem literalsLength_decimalText (texts : List String) :
    literalsLength (texts.map decimalText) = literalsLength texts := by
  induction texts with
  | nil => rfl
  | cons text rest ih =>
      rw [List.map_cons, literalsLength, literalsLength, unquoted?_decimalText, ih]

theorem segmentSize_inDecimal (form : Tree) :
    (segmentSize form.inDecimal).toOption = (segmentSize form).toOption := by
  rw [segmentSize, segmentSize, Tree.atoms_inDecimal, literalsLength_decimalText]
  split <;> rfl

theorem offsetExpression?_inDecimal (form : Tree) :
    offsetExpression? form.inDecimal = (offsetExpression? form).map Tree.inDecimal := by
  have sameUses : (fun item : Tree => !item.hasTagIn ["memory", "import"]) ∘ Tree.inDecimal =
      fun item => !item.hasTagIn ["memory", "import"] := by
    funext item
    rw [Function.comp_apply, Tree.hasTagIn_inDecimal (by decide)]
  rw [offsetExpression?, offsetExpression?, Tree.find?_inDecimal (by decide),
    Tree.forms_inDecimal, List.find?_map, sameUses]
  cases form.find? ["offset"] <;> rfl

theorem memoryReference_inDecimal (form : Tree) (use? : Option Tree) :
    (memoryReference form.inDecimal (use?.map Tree.inDecimal)).toOption =
      (memoryReference form use?).toOption.map decimalText := by
  match use? with
  | none => rfl
  | some (.list [_, .atom reference]) => simp [memoryReference, Except.toOption]
  | some (.atom _) | some (.list []) | some (.list [_]) | some (.list [_, .list _])
  | some (.list (_ :: _ :: _ :: _)) => simp [memoryReference, Except.toOption]

/-- A segment in decimal. -/
def Segment.inDecimal (segment : Segment) : Segment :=
  ⟨segment.form.inDecimal, decimalText segment.memory, segment.offset, segment.size⟩

namespace Segment

/-- The segment that a form is with a memory use and an offset expression. -/
def ofParts (form : Tree) (use? expression? : Option Tree) : Except LinkError (Option Segment) := do
  let memory ← memoryReference form use?
  let size ← segmentSize form
  let offset ← expression?.elim (.ok (some 0)) fun expression =>
    (constantOffset expression).mapError LinkError.numeral
  .ok (some ⟨form, memory, offset, size⟩)

theorem ofForm?_eq (form : Tree) :
    ofForm? form =
      if form.hasTag "data" &&
          ((offsetExpression? form).isSome || (form.find? ["memory"]).isSome) then
        ofParts form (form.find? ["memory"]) (offsetExpression? form)
      else .ok none := by
  rw [ofForm?]
  cases form.hasTag "data" with
  | false => rfl
  | true => cases offsetExpression? form <;> cases form.find? ["memory"] <;> rfl

theorem ofParts_inDecimal (form : Tree) (use? expression? : Option Tree) :
    (ofParts form.inDecimal (use?.map Tree.inDecimal) (expression?.map Tree.inDecimal)).toOption =
      (ofParts form use? expression?).toOption.map (Option.map inDecimal) := by
  have sameOffset : ((expression?.map Tree.inDecimal).elim (.ok (some 0)) fun expression =>
        (constantOffset expression).mapError LinkError.numeral).toOption =
      (expression?.elim (.ok (some 0)) fun expression =>
        (constantOffset expression).mapError LinkError.numeral).toOption := by
    cases expression? with
    | none => rfl
    | some expression =>
        simp only [Option.map_some, Option.elim_some, toOption_mapError, constantOffset_inDecimal]
  simp only [ofParts, toOption_bind, memoryReference_inDecimal, segmentSize_inDecimal, sameOffset]
  cases (memoryReference form use?).toOption with
  | none => rfl
  | some memory =>
      cases (segmentSize form).toOption with
      | none => rfl
      | some size =>
          rw [Option.map_some, Option.bind_some, Option.bind_some, Option.bind_some,
            Option.bind_some, Option.map_bind]
          rfl

theorem ofForm?_inDecimal (form : Tree) :
    (ofForm? form.inDecimal).toOption = (ofForm? form).toOption.map (Option.map inDecimal) := by
  rw [ofForm?_eq, ofForm?_eq, Tree.hasTag_inDecimal (by decide), Tree.find?_inDecimal (by decide),
    offsetExpression?_inDecimal, Option.isSome_map, Option.isSome_map]
  split
  · exact ofParts_inDecimal form _ _
  · rfl

end Segment

/-! ## Memories -/

/-- A memory in decimal. -/
def Memory.inDecimal (memory : Memory) : Memory :=
  ⟨memory.index, memory.name, memory.form.inDecimal⟩

namespace Memory

theorem ofForm_inDecimal (index : Nat) (form : Tree) :
    ofForm index form.inDecimal = (ofForm index form).inDecimal := by
  rw [ofForm, Tree.identifier?_inDecimal]
  rfl

theorem isLimit_inDecimal (item : Tree) : isLimit item.inDecimal = isLimit item := by
  cases item with
  | atom text => rw [Tree.inDecimal_atom, isLimit, isLimit, isIntLiteral_decimalText]
  | list items => rw [Tree.inDecimal_list, isLimit, isLimit]

theorem limits_inDecimal (memory : Memory) :
    memory.inDecimal.limits = memory.limits.map decimalText := by
  have sameLimits : isLimit ∘ Tree.inDecimal = isLimit := funext isLimit_inDecimal
  have sameTexts : Tree.text? ∘ Tree.inDecimal = fun item => item.text?.map decimalText :=
    funext Tree.text?_inDecimal
  rw [limits, limits, inDecimal, Tree.items_inDecimal, ← List.map_tail, List.filter_map, sameLimits,
    List.filterMap_map, sameTexts, List.map_filterMap]

theorem insertMinimum_inDecimal {minimum : String} (isDecimal : decimalText minimum = minimum)
    (items : List Tree) :
    insertMinimum minimum (items.map Tree.inDecimal) =
      (insertMinimum minimum items).map Tree.inDecimal := by
  have isShared : ∀ item : Tree, item.inDecimal = .atom "shared" ↔ item = .atom "shared" := by
    intro item
    cases item with
    | atom text => simp [decimalText_eq_iff (by decide : ¬ IsNumeral "shared")]
    | list items => simp
  induction items with
  | nil => simp [insertMinimum, isDecimal]
  | cons item rest ih =>
      rw [List.map_cons, insertMinimum, insertMinimum]
      simp only [isShared]
      split
      · simp [isDecimal]
      · rw [ih, List.map_cons]

theorem replaceMinimum_inDecimal {minimum : String} (isDecimal : decimalText minimum = minimum)
    (items : List Tree) :
    replaceMinimum minimum (items.map Tree.inDecimal) =
      (replaceMinimum minimum items).map Tree.inDecimal := by
  induction items with
  | nil => rfl
  | cons item rest ih =>
      rw [List.map_cons, replaceMinimum, replaceMinimum, isLimit_inDecimal]
      split
      · simp [isDecimal]
      · rw [ih, List.map_cons]

theorem changeBehindTag_inDecimal {change : List Tree → List Tree}
    (alike : ∀ items, change (items.map Tree.inDecimal) = (change items).map Tree.inDecimal)
    (form : Tree) :
    changeBehindTag change form.inDecimal = (changeBehindTag change form).inDecimal := by
  match form with
  | .atom _ | .list [] => simp [changeBehindTag]
  | .list (tag :: rest) => simp [changeBehindTag, alike]

theorem readLimit_decimalText (text : String) :
    (readLimit (decimalText text)).toOption = (readLimit text).toOption := by
  rw [readLimit, readLimit, toOption_mapError, toOption_mapError, parseInt_decimalText]

theorem decimalText_of_writePages {pages : Int} {minimum : String}
    (written : writePages pages = .ok minimum) : decimalText minimum = minimum := by
  rw [(writePages_eq_ok written).2]
  exact decimalText_of_isBare (isBare_decimalNumeral pages)

/-- Two ways to use a number of pages once it is written give one form and that form in
decimal, if they do so for the text that is written. -/
theorem bind_writePages_inDecimal {pages : Int} {change change' : String → Tree}
    (alike : ∀ minimum, decimalText minimum = minimum →
      change' minimum = (change minimum).inDecimal) (event event' : Option Event) :
    (writePages pages >>= fun minimum =>
        Except.ok (change' minimum, event')).toOption.map Prod.fst =
      (writePages pages >>= fun minimum =>
        Except.ok (change minimum, event)).toOption.map fun grown => grown.1.inDecimal := by
  cases written : writePages pages with
  | error fault => rfl
  | ok minimum => exact congrArg some (alike minimum (decimalText_of_writePages written))

/-- A memory in decimal grows as the memory does. -/
theorem grow_inDecimal (memory : Memory) (pages : Int) :
    (memory.inDecimal.grow pages).toOption.map Prod.fst =
      (memory.grow pages).toOption.map fun grown => grown.1.inDecimal := by
  have sameData : (memory.inDecimal.form.find? ["data"]).isSome =
      (memory.form.find? ["data"]).isSome := by
    rw [inDecimal, Tree.find?_inDecimal (by decide), Option.isSome_map]
  have inserted : ∀ minimum, decimalText minimum = minimum →
      Tree.list (insertMinimum minimum memory.inDecimal.form.items) =
        (Tree.list (insertMinimum minimum memory.form.items)).inDecimal := by
    intro minimum isDecimal
    rw [inDecimal, Tree.items_inDecimal, insertMinimum_inDecimal isDecimal, Tree.inDecimal_list]
  have raised : ∀ minimum, decimalText minimum = minimum →
      changeBehindTag (replaceMinimum minimum) memory.inDecimal.form =
        (changeBehindTag (replaceMinimum minimum) memory.form).inDecimal :=
    fun _ isDecimal => changeBehindTag_inDecimal (replaceMinimum_inDecimal isDecimal) _
  rw [grow, grow, sameData, limits_inDecimal]
  split
  · rfl
  · cases memory.limits with
    | nil => exact bind_writePages_inDecimal inserted _ _
    | cons minimum further =>
        rcases toOption_eq_cases (readLimit_decimalText minimum) with
          ⟨current, reads, reads'⟩ | ⟨_, _, unread, unread'⟩
        · simp only [List.map_cons, reads, reads', bind, Except.bind]
          split
          · rfl
          · cases further with
            | nil => exact bind_writePages_inDecimal raised _ _
            | cons maximum _ =>
                rcases toOption_eq_cases (readLimit_decimalText maximum) with
                  ⟨upper, readsUpper, readsUpper'⟩ | ⟨_, _, unread, unread'⟩
                · simp only [List.map_cons, readsUpper, readsUpper']
                  split
                  · rfl
                  · exact bind_writePages_inDecimal raised _ _
                · simp [unread, unread', Except.toOption]
        · simp [unread, unread', Except.toOption, bind, Except.bind]

end Memory

theorem Module.memories_inDecimal (module : Tree) :
    memories module.inDecimal = (memories module).map Memory.inDecimal := by
  rw [memories, indexSpace_inDecimal (by decide), memories, List.zipIdx_map, List.map_map,
    List.map_map]
  exact List.map_congr_left fun _ _ => Memory.ofForm_inDecimal _ _

/-! ## Sizing -/

theorem findMemory_inDecimal (memories : List Memory) (reference : String) :
    (findMemory (memories.map Memory.inDecimal) (decimalText reference)).toOption =
      (findMemory memories reference).toOption.map Memory.inDecimal := by
  have sameNames : (fun memory : Memory => memory.name == some reference) ∘ Memory.inDecimal =
      fun memory => memory.name == some reference := rfl
  unfold findMemory
  rw [isIdentifier_decimalText, isIntLiteral_decimalText]
  split
  · rename_i isName
    rw [decimalText_of_isIdentifier isName, List.find?_map, sameNames]
    cases memories.find? fun memory => memory.name == some reference <;> rfl
  · split
    · rcases toOption_eq_cases (parseInt_decimalText reference) with
        ⟨index, reads, reads'⟩ | ⟨_, _, unread, unread'⟩
      · simp only [reads, reads', List.getElem?_map]
        split
        · rfl
        · cases memories[index.toNat]? <;> rfl
      · simp [unread, unread', Except.toOption]
    · rfl

theorem measureForm_inDecimal (memories : List Memory) (extents : Extents) (form : Tree) :
    (measureForm (memories.map Memory.inDecimal) extents form.inDecimal).toOption.map Prod.fst =
      (measureForm memories extents form).toOption.map Prod.fst := by
  rw [measureForm, measureForm]
  rcases toOption_cases (Segment.ofForm?_inDecimal form) with
    ⟨segment?, isSegment, isSegment'⟩ | ⟨_, _, malformed, malformed'⟩
  · simp only [isSegment, isSegment']
    cases segment? with
    | none => rfl
    | some segment =>
        have sameMemory : segment.inDecimal.memory = decimalText segment.memory := rfl
        have sameRange : segment.inDecimal.offset = segment.offset ∧
            segment.inDecimal.finish = segment.finish := ⟨rfl, rfl⟩
        simp only [Option.map_some, sameMemory, sameRange]
        rcases toOption_cases (findMemory_inDecimal memories segment.memory) with
          ⟨memory, found, found'⟩ | ⟨_, _, unknown, unknown'⟩
        · simp only [found, found']
          cases segment.offset <;> rfl
        · simp [unknown, unknown', Except.toOption]
  · simp [malformed, malformed', Except.toOption]

theorem measureForms_inDecimal (memories : List Memory) (extents : Extents) (forms : List Tree) :
    (measureForms (memories.map Memory.inDecimal) extents (forms.map Tree.inDecimal)).1.toOption =
      (measureForms memories extents forms).1.toOption := by
  induction forms generalizing extents with
  | nil => rfl
  | cons form rest ih =>
      have first := measureForm_inDecimal memories extents form
      rw [← toOption_map, ← toOption_map] at first
      rw [List.map_cons, measureForms, measureForms]
      rcases toOption_eq_cases first with ⟨extents', measured, measured'⟩ | ⟨_, _, failed, failed'⟩
      · obtain ⟨⟨_, events⟩, measures, rfl⟩ := exceptMap_eq_ok_iff.mp measured
        obtain ⟨⟨_, events'⟩, measures', rfl⟩ := exceptMap_eq_ok_iff.mp measured'
        simp only [measures, measures', ih]
      · simp [exceptMap_eq_error_iff.mp failed, exceptMap_eq_error_iff.mp failed', Except.toOption]

theorem growMemories_inDecimal (extents : Extents) (memories : List Memory) :
    (growMemories extents (memories.map Memory.inDecimal)).1 =
        (growMemories extents memories).1.map (Prod.map id Tree.inDecimal) ∧
      (growMemories extents (memories.map Memory.inDecimal)).2.2.isSome =
        (growMemories extents memories).2.2.isSome := by
  induction memories with
  | nil => exact ⟨rfl, rfl⟩
  | cons memory rest ih =>
      have sameIndex : memory.inDecimal.index = memory.index := rfl
      rw [List.map_cons, growMemories, growMemories, sameIndex]
      cases extents.lookup memory.index with
      | none => exact ih
      | some extent =>
          have grows := memory.grow_inDecimal (pagesFor extent)
          rw [← toOption_map, ← toOption_map] at grows
          rcases toOption_eq_cases grows with ⟨form', grown, grown'⟩ | ⟨_, _, failed, failed'⟩
          · obtain ⟨⟨form, event?⟩, result, rfl⟩ := exceptMap_eq_ok_iff.mp grown
            obtain ⟨⟨_, event?'⟩, result', rfl⟩ := exceptMap_eq_ok_iff.mp grown'
            simpa [result, result'] using ih
          · simp [exceptMap_eq_error_iff.mp failed, exceptMap_eq_error_iff.mp failed']

theorem lookup_map_inDecimal (entries : List (Nat × Tree)) (index : Nat) :
    (entries.map (Prod.map id Tree.inDecimal)).lookup index =
      (entries.lookup index).map Tree.inDecimal := by
  induction entries with
  | nil => rfl
  | cons entry rest ih =>
      obtain ⟨key, form⟩ := entry
      simp only [List.map_cons, Prod.map, id_eq, List.lookup_cons, ih]
      split <;> rfl

namespace Module

theorem grownForm_inDecimal (grown : List (Nat × Tree)) (index : Nat) (form : Tree) :
    grownForm (grown.map (Prod.map id Tree.inDecimal)) index form.inDecimal =
      (grownForm grown index form).inDecimal := by
  rw [grownForm, lookup_map_inDecimal, grownForm]
  cases grown.lookup index <;> rfl

/-- A module in decimal is sized as the module is. -/
theorem sizeMemories_inDecimal (module : Tree) :
    (sizeMemories module.inDecimal).module = (sizeMemories module).module.inDecimal ∧
      (sizeMemories module.inDecimal).failure.isSome = (sizeMemories module).failure.isSome := by
  have measures := measureForms_inDecimal (memories module) [] module.forms
  rw [← memories_inDecimal, ← Tree.forms_inDecimal] at measures
  rcases toOption_eq_cases measures with ⟨extents, measured, measured'⟩ | ⟨_, _, failed, failed'⟩
  · obtain ⟨failure_eq, module_eq⟩ := sizeMemories_of_measured measured
    obtain ⟨failure_eq', module_eq'⟩ := sizeMemories_of_measured measured'
    obtain ⟨sameForms, sameFailure⟩ := growMemories_inDecimal extents (memories module)
    rw [failure_eq, failure_eq', module_eq, module_eq', memories_inDecimal, sameForms]
    exact ⟨mapIndexSpace_inDecimal (by decide) (grownForm_inDecimal _) module, sameFailure⟩
  · obtain ⟨failure_eq, module_eq⟩ := sizeMemories_of_unmeasured failed
    obtain ⟨failure_eq', module_eq'⟩ := sizeMemories_of_unmeasured failed'
    rw [failure_eq, failure_eq', module_eq, module_eq']
    exact ⟨rfl, rfl⟩

/-! ## The order of the passes -/

/-- Rewriting numerals commutes with every pass that takes a module in decimal as the
module and lets all numerals be written. -/
theorem commutes_of_inDecimal {items : List Tree} {result : Tree → Tree} {failed : Tree → Bool}
    (rewrites : (Tree.list items).decimalNumerals.failure = none)
    (sameResult : result (Tree.list items).inDecimal = (result (.list items)).inDecimal)
    (sameFailure : failed (Tree.list items).inDecimal = failed (.list items))
    (keeps : failed (.list items) = false → (Tree.list items).Obeys writableLaw →
      (result (.list items)).isList = true ∧ (result (.list items)).Obeys writableLaw) :
    failed (Tree.list items).decimalNumerals.tree = failed (.list items) ∧
      (failed (.list items) = false → (result (.list items)).decimalNumerals.failure = none ∧
        result (Tree.list items).decimalNumerals.tree =
          (result (.list items)).decimalNumerals.tree) := by
  rw [decimalNumerals_list_tree rewrites, sameFailure, sameResult]
  refine ⟨rfl, fun succeeded => ?_⟩
  obtain ⟨isList, obeys⟩ := keeps succeeded (decimalNumerals_list_iff.mp rewrites)
  cases result_eq : result (.list items) with
  | atom text => simp [result_eq, Tree.isList] at isList
  | list items' =>
      rw [result_eq] at obeys
      have rewritesResult := decimalNumerals_list_iff.mpr obeys
      exact ⟨rewritesResult, (decimalNumerals_list_tree rewritesResult).symm⟩

theorem obeys_writableLaw_foldConstants {items : List Tree}
    (succeeded : (foldConstants (.list items)).failure = none)
    (obeys : (Tree.list items).Obeys writableLaw) :
    (foldConstants (.list items)).tree.isList = true ∧
      (foldConstants (.list items)).tree.Obeys writableLaw := by
  have accepts : ∀ text, Pass.Inserts .foldConstants text → writableLaw.Accepts text :=
    fun _ inserts => writableLaw_of_isBare (inserts.isBare_of_ne (by decide))
  rw [foldConstants] at succeeded ⊢
  have rewritten := Tree.rewritten_of_revise succeeded
  obtain ⟨items', result_eq, -⟩ := rewritten.partly.exists_items
  exact ⟨by rw [result_eq, Tree.isList], Pass.Effect.obeys_folded accepts rewritten obeys⟩

theorem obeys_writableLaw_sizeMemories {items : List Tree}
    (succeeded : (sizeMemories (.list items)).failure = none)
    (obeys : (Tree.list items).Obeys writableLaw) :
    (sizeMemories (.list items)).module.isList = true ∧
      (sizeMemories (.list items)).module.Obeys writableLaw := by
  have accepts : ∀ text, Pass.Inserts .sizeMemories text → writableLaw.Accepts text :=
    fun _ inserts => writableLaw_of_isBare (inserts.isBare_of_ne (by decide))
  have obeysItems := Pass.Effect.obeys_sized accepts succeeded obeys.items
  obtain ⟨extents, events, grown, -, -, module_eq⟩ := sizeMemories_cases succeeded
  rw [module_eq] at obeysItems ⊢
  exact ⟨rfl, Tree.obeys_list.mpr ⟨fun _ _ => trivial, obeysItems⟩⟩

/-- Where the numerals of a module can be rewritten, folding its constants and sizing
its memories succeed on the rewritten module exactly if they do on the module, and
then the numerals of what they give can be rewritten, with the same result in either
order. -/
theorem numerals_commute_with_folding_and_sizing (module : Tree)
    (rewrites : module.decimalNumerals.failure = none) :
    (((foldConstants module.decimalNumerals.tree).failure = none ↔
        (foldConstants module).failure = none) ∧
      ((foldConstants module).failure = none →
        (foldConstants module).tree.decimalNumerals.failure = none ∧
          (foldConstants module.decimalNumerals.tree).tree =
            (foldConstants module).tree.decimalNumerals.tree)) ∧
    (((sizeMemories module.decimalNumerals.tree).failure = none ↔
        (sizeMemories module).failure = none) ∧
      ((sizeMemories module).failure = none →
        (sizeMemories module).module.decimalNumerals.failure = none ∧
          (sizeMemories module.decimalNumerals.tree).module =
            (sizeMemories module).module.decimalNumerals.tree)) := by
  cases module with
  | atom text => exact ⟨⟨Iff.rfl, fun _ => ⟨rfl, rfl⟩⟩, Iff.rfl, fun _ => ⟨rfl, rfl⟩⟩
  | list items =>
      have folds := foldConstants_inDecimal (.list items)
      have sizes := sizeMemories_inDecimal (.list items)
      have folding := @commutes_of_inDecimal items (fun module => (foldConstants module).tree)
        (fun module => (foldConstants module).failure.isSome) rewrites folds.1 folds.2
        fun succeeded => obeys_writableLaw_foldConstants (by simpa using succeeded)
      have sizing := @commutes_of_inDecimal items (fun module => (sizeMemories module).module)
        (fun module => (sizeMemories module).failure.isSome) rewrites sizes.1 sizes.2
        fun succeeded => obeys_writableLaw_sizeMemories (by simpa using succeeded)
      have none_iff : ∀ {ε : Type} (failure : Option ε),
          failure = none ↔ failure.isSome = false := by simp
      simp only [none_iff] at folding sizing ⊢
      exact ⟨⟨by rw [folding.1], folding.2⟩, ⟨by rw [sizing.1], sizing.2⟩⟩

/-- A module with prefixed literals as limits of a memory, in a flat initializer, as
references to a memory and a global, as an offset, behind a key and in a constant
expression. -/
def prefixedModule : Tree :=
  .form "module" [
    .form "memory" [.atom "$m", .atom "0x1", .atom "0x10"],
    .form "global" [.atom "$g", .atom "i32", .atom "i32.const", .atom "0b101"],
    .form "data" [
      .form "memory" [.atom "0x0"],
      .form "offset" [.atom "i32.const", .atom "0x1_fffe"],
      .atom "\"abc\""],
    .form "func" [
      .form "i32.load" [
        .atom "offset=0x10",
        .form "i32.constexpr" [
          .form "i32.add" [
            .form "global.get" [.atom "0x0"],
            .form "i32.const" [.atom "-0x1"]]]]]]

theorem numerals_commute_prefixedModule :
    prefixedModule.decimalNumerals.failure = none ∧
    (foldConstants prefixedModule).failure = none ∧
    (sizeMemories prefixedModule).failure = none ∧
    (foldConstants prefixedModule.decimalNumerals.tree).tree =
      (foldConstants prefixedModule).tree.decimalNumerals.tree ∧
    (sizeMemories prefixedModule.decimalNumerals.tree).module =
      (sizeMemories prefixedModule).module.decimalNumerals.tree := by
  have rewrites : prefixedModule.decimalNumerals.failure = none := by decide +kernel
  have folds : (foldConstants prefixedModule).failure = none := rfl
  have sizes : (sizeMemories prefixedModule).failure = none := rfl
  obtain ⟨folding, sizing⟩ := numerals_commute_with_folding_and_sizing prefixedModule rewrites
  exact ⟨rewrites, folds, sizes, (folding.2 folds).2, (sizing.2 sizes).2⟩

end Module

end WatLink
