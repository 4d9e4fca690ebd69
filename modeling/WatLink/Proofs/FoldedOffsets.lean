import WatLink.Proofs.ConstantReadBack
import WatLink.Proofs.RevisionStages
import WatLink.Proofs.SizingFailures

/-!
# Offsets that are folded

The evaluator and the reader of offsets take a constant for the same word, the first
as a value and the second as an address.  A value is written as a signed decimal, and
this reads back as the word, so the offset of a data segment that asks for evaluation
becomes the address that its expression has for a value.  Folding changes neither the
string literals of a data form nor its memory, and sizing counts the bytes of the
segment from that address on.

An expression has this value over the globals as they stand when it is folded.  These
mean what they meant in the module as it was, unless the negative zero of single
precision was folded before: its constant reads back without the sign.
-/

namespace WatLink

open Constant

/-! ## Constants as offsets -/

/-- An offset that is given by an instruction, as it stands or inside `(offset ...)`,
with the way from the offset down to the instruction. -/
inductive OffsetBy (tag : String) (argument : Tree) : List Nat → Tree → Prop
  | bare : OffsetBy tag argument [] (.form tag [argument])
  | wrapped : OffsetBy tag argument [1] (.form "offset" [.form tag [argument]])

section Constants

variable {width : Width} {text : String} {number : Int}

theorem constantWidth?_const (width : Width) :
    constantWidth? ((ValueType.int width).name ++ ".const") = some width := by
  cases width <;> rfl

theorem offsetOfWords_const (reads : parseInt text = .ok number) :
    offsetOfWords [.atom ((ValueType.int width).name ++ ".const"), .atom text] =
      .ok (some (BitVec.ofInt width.bits number).toNat) := by
  obtain ⟨literal, isLiteral, -⟩ := exists_of_parseInt reads
  have isNumber : isIntLiteral text = true := by simp [isIntLiteral, isLiteral]
  simp [offsetOfWords, constantWidth?_const, isNumber, reads, Except.map]

theorem constantOffset_words (reads : parseInt text = .ok number) :
    constantOffset (.form "offset" [.atom ((ValueType.int width).name ++ ".const"), .atom text]) =
      .ok (some (BitVec.ofInt width.bits number).toNat) := by
  rw [← offsetOfWords_const reads]
  rfl

theorem constantOffset_const {offset : Tree} {path : List Nat}
    (isOffset : OffsetBy ((ValueType.int width).name ++ ".const") (.atom text) path offset)
    (reads : parseInt text = .ok number) :
    constantOffset offset = .ok (some (BitVec.ofInt width.bits number).toNat) := by
  have bare : constantOffset (.form ((ValueType.int width).name ++ ".const") [.atom text]) =
      .ok (some (BitVec.ofInt width.bits number).toNat) := by
    rw [← offsetOfWords_const reads]
    cases width <;> rfl
  cases isOffset with
  | bare => exact bare
  | wrapped => exact bare

theorem evaluate_const (reads : parseInt text = .ok number) (globals : List Global) :
    evaluate globals (.form ((ValueType.int width).name ++ ".const") [.atom text]) =
      .ok (.int width (BitVec.ofInt width.bits number)) := by
  refine evaluate_eq_ok_iff.mpr (.constant (isTag_const _) ?_)
  simp [literal, reads]

end Constants

/-! ## Constants that keep their meaning -/

/-- An expression that asks for evaluation and the constant that takes its place, if this
reads back as the value. -/
def FoldsBack (globals : List Global) (item item' : Tree) : Prop :=
  ∃ value : Value, constexprName? item = some value.type.name ∧
    evaluate globals item = .ok value ∧ value ≠ .float .single (.signedZero true) ∧
    item' = .form (value.type.name ++ ".const") [.atom value.spell]

theorem FoldsBack.keepsMeaning (globals : List Global) :
    KeepsMeaning globals (FoldsBack globals) := by
  refine ⟨?_, ?_⟩
  · rintro item item' ⟨value, asks, -, -, rfl⟩
    exact ⟨by simp [asks], value.type, _, rfl⟩
  · rintro item item' globals' value' ⟨value, asks, evaluates, notLost, rfl⟩
    have proper := (evaluate_eq_ok_iff.mp evaluates).isProper
    have reads := literal_spell proper
    rw [if_neg notLost] at reads
    have evaluates' : evaluate globals' (.form (value.type.name ++ ".const") [.atom value.spell]) =
        .ok value :=
      evaluate_eq_ok_iff.mpr (.constant (isTag_const value.type) reads)
    rw [← evaluate_eq_ok_iff, ← evaluate_eq_ok_iff, evaluates, evaluates']

section Stages

variable {module current stage : Tree} {steps : List Replacement}

/-- Whether a tree is a list that asks for evaluation. -/
def asksForValue (item : Tree) : Bool :=
  (constexprName? item).isSome

theorem isSome_foldReviser (globals : List Global) (whole : Tree → Tree) (item : Tree) :
    (foldReviser globals whole item).isSome = asksForValue item :=
  Option.isSome_map

theorem asksForValue_of_foldsBack {globals : List Global} {item item' : Tree}
    (folds : FoldsBack globals item item') : asksForValue item = true := by
  obtain ⟨value, asks, -⟩ := folds
  simp [asksForValue, asks]

/-- An expression has at such a stage the value that it has in the module. -/
theorem evaluate_stage
    (reached : PartlyRewritten (FoldsBack (Module.globals module)) module stage) {expression : Tree}
    {value : Value} :
    evaluate (currentGlobals (Module.globals module) stage) expression = .ok value ↔
      evaluate (Module.globals module) expression = .ok value := by
  have meaning := FoldsBack.keepsMeaning (Module.globals module)
  have stages := currentGlobals_stage (globals_stage meaning.putsConstant reached)
  rw [evaluate_eq_ok_iff, evaluate_eq_ok_iff]
  exact denotes_stage_iff meaning stages (.refl expression)

/-- What a step does: it evaluates an expression over the globals as they stand. -/
theorem exists_of_foldReviser {globals : List Global} {whole : Tree → Tree} {item item' : Tree}
    (decided : foldReviser globals whole item = some (.ok item')) :
    ∃ value : Value, constexprName? item = some value.type.name ∧
      evaluate (currentGlobals globals (whole item)) item = .ok value ∧
      item' = .form (value.type.name ++ ".const") [.atom value.spell] := by
  obtain ⟨name, asks, folded⟩ := Option.map_eq_some_iff.mp decided
  obtain ⟨value, evaluates, rfl⟩ := exceptMap_eq_ok_iff.mp folded
  obtain rfl := name_of_denotes asks (evaluate_eq_ok_iff.mp evaluates)
  exact ⟨value, asks, evaluates, rfl⟩

/-- The constant by which the negative zero of single precision is replaced. -/
def negativeZero : Tree :=
  .form "f32.const" [.atom "-0"]

/-- Steps that do not put the negative zero of single precision keep all meanings. -/
theorem partlyRewritten_of_steps
    (reached : PartlyRewritten (FoldsBack (Module.globals module)) module current)
    (taken : (foldReviser (Module.globals module)).Steps id current steps stage)
    (outermost : ∀ step ∈ steps, module.OutermostAt asksForValue step.address ∧
      module.nodeAt? step.address = some step.item)
    (keepSign : ∀ step ∈ steps, step.replacement ≠ negativeZero) :
    PartlyRewritten (FoldsBack (Module.globals module)) module stage := by
  induction taken with
  | nil => exact reached
  | @cons current stage step rest found decided _ ih =>
      obtain ⟨⟨isOutermost, isItem⟩, outermostRest⟩ := List.forall_mem_cons.mp outermost
      obtain ⟨keepsSign, keepSignRest⟩ := List.forall_mem_cons.mp keepSign
      have folds : FoldsBack (Module.globals module) step.item step.replacement := by
        obtain ⟨value, asks, evaluates, isConstant⟩ := exists_of_foldReviser decided
        rw [id, Tree.replaceAt_self found, evaluate_stage reached] at evaluates
        refine ⟨value, asks, evaluates, ?_, isConstant⟩
        rintro rfl
        exact keepsSign isConstant
      have next := Tree.partlyRewritten_replaceAt reached (fun _ _ => asksForValue_of_foldsBack)
        isOutermost isItem (.inr folds)
      exact ih next outermostRest keepSignRest

end Stages

/-! ## Values of folded expressions -/

theorem constexprName?_constexpr (type : ValueType) (expression : Tree) :
    constexprName? (.form (type.name ++ ".constexpr") [expression]) = some type.name :=
  constexprType?_constexpr type

theorem valueType_of_name {type type' : ValueType} (same : type.name = type'.name) :
    type = type' := by
  have found := ofName?_name type
  rw [same, ofName?_name] at found
  exact (Option.some.inj found).symm

/-- A list that asks for an integer has the value of its expression. -/
theorem evaluate_constexpr {globals : List Global} {width : Width} {expression : Tree}
    {value : Value} (evaluates : evaluate globals
      (.form ((ValueType.int width).name ++ ".constexpr") [expression]) = .ok value) :
    evaluate globals expression = .ok value ∧
      ∃ word : BitVec width.bits, value = .int width word := by
  have denotes := evaluate_eq_ok_iff.mp evaluates
  have asks : constexprType? ((ValueType.int width).name ++ ".constexpr") =
      some (ValueType.int width).name := constexprName?_constexpr (.int width) expression
  have sameType := valueType_of_name
    (name_of_denotes (constexprName?_constexpr (.int width) expression) denotes)
  generalize (ValueType.int width).name ++ ".constexpr" = tag at denotes asks
  constructor
  · cases denotes with
    | constant isTag _ => cases isTag.notConstexpr.symm.trans asks
    | global _ _ _ => cases asks
    | constexpr _ inner => exact evaluate_eq_ok_iff.mpr inner
    | operation isTag _ _ _ _ => cases isTag.notConstexpr.symm.trans asks
  · cases value with
    | int width' word =>
        cases sameType
        exact ⟨word, rfl⟩
    | float precision number => cases sameType

/-- The value by which an expression was folded at an address: its value over the globals
as they stood when the steps before had been taken, and over those of the module if no
step before put the negative zero of single precision. -/
def FoldedAt (module : Tree) (steps : List Replacement) (address : List Nat) (expression : Tree)
    (value : Value) : Prop :=
  ∃ (before after : List Replacement) (step : Replacement) (stage : Tree),
    steps = before ++ step :: after ∧ step.address = address ∧
    (foldReviser (Module.globals module)).Steps id module before stage ∧
    evaluate (currentGlobals (Module.globals module) stage) expression = .ok value ∧
    ((∀ earlier ∈ before, earlier.replacement ≠ negativeZero) →
      evaluate (Module.globals module) expression = .ok value)

theorem foldedAt_of_course {module folded : Tree} {steps : List Replacement}
    (course : (foldReviser (Module.globals module)).Course asksForValue module steps folded)
    {address : List Nat} {width : Width} {expression : Tree}
    (outermost : module.OutermostAt asksForValue address)
    (isNode : module.nodeAt? address =
      some (.form ((ValueType.int width).name ++ ".constexpr") [expression])) :
    ∃ word : BitVec width.bits, FoldedAt module steps address expression (.int width word) ∧
      folded.nodeAt? address = some
        (.form ((ValueType.int width).name ++ ".const") [.atom (decimalNumeral word.toInt)]) := by
  obtain ⟨step, member, rfl⟩ := List.mem_map.mp ((course.complete address).mpr outermost)
  obtain ⟨before, after, rfl⟩ := List.append_of_mem member
  obtain ⟨isItem, isReplacement⟩ := course.nodes
  obtain ⟨stage, taken, takenBehind⟩ := course.taken.exists_stage
  cases takenBehind with
  | cons found decided _ =>
      obtain ⟨value, -, evaluates, isConstant⟩ := exists_of_foldReviser decided
      rw [id, Tree.replaceAt_self found] at evaluates
      rw [isConstant] at isReplacement
      rw [Option.some.inj (isItem.symm.trans isNode)] at evaluates
      obtain ⟨inner, word, rfl⟩ := evaluate_constexpr evaluates
      refine ⟨word, ⟨before, after, step, stage, rfl, rfl, taken, inner, fun keepSign => ?_⟩,
        isReplacement⟩
      have outermostBefore : ∀ earlier ∈ before,
          module.OutermostAt asksForValue earlier.address ∧
            module.nodeAt? earlier.address = some earlier.item := by
        intro earlier inBefore
        obtain ⟨front, behind, rfl⟩ := List.append_of_mem inBefore
        refine ⟨(course.complete _).mp (List.mem_map_of_mem (List.mem_append_left _ inBefore)), ?_⟩
        rw [List.append_assoc, List.cons_append] at course
        exact course.nodes.1
      have reached := partlyRewritten_of_steps (.refl module) taken outermostBefore keepSign
      exact (evaluate_stage reached).mp inner

/-! ## Folded data forms -/

theorem text?_stage {item item' : Tree} (stage : PartlyReplaced PutsConstant item item') :
    item'.text? = item.text? := by
  cases item with
  | atom text => rw [partlyReplaced_atom stage]
  | list items =>
      obtain ⟨items', rfl⟩ := partlyReplaced_list stage
      rfl

theorem filterMap_text?_stage {items items' : List Tree}
    (stages : List.Forall₂ (PartlyReplaced PutsConstant) items items') :
    items'.filterMap Tree.text? = items.filterMap Tree.text? := by
  induction stages with
  | nil => rfl
  | cons stage _ ih => rw [List.filterMap_cons, List.filterMap_cons, text?_stage stage, ih]

theorem atoms_stage {form form' : Tree} (changed : PartlyRewritten PutsConstant form form') :
    form'.atoms = form.atoms := by
  have stages : List.Forall₂ (PartlyReplaced PutsConstant) form.items form'.items :=
    changed.items_forall₂
  rw [Tree.atoms, Tree.atoms, tag?_stage changed]
  split
  · exact filterMap_text?_stage (tail_stage stages)
  · exact filterMap_text?_stage stages

section DataForms

variable {form form' offset : Tree}

/-- What is found in a list is found at the same position of a later stage of it. -/
theorem find?_position {related : Tree → Tree → Prop} {test : Tree → Bool}
    {items items' : List Tree} {item : Tree} (pairs : List.Forall₂ related items items')
    (same : ∀ item item', related item item' → test item' = test item)
    (found : items.find? test = some item) :
    ∃ item', items'[items.idxOf item]? = some item' ∧ items'.find? test = some item' := by
  induction pairs with
  | nil => cases found
  | @cons first first' rest rest' pair _ ih =>
      cases passes : test first with
      | true =>
          rw [List.find?_cons_of_pos passes] at found
          cases found
          refine ⟨first', by simp, ?_⟩
          rw [List.find?_cons_of_pos ((same _ _ pair).trans passes)]
      | false =>
          have fails := Bool.eq_false_iff.mp passes
          rw [List.find?_cons_of_neg fails] at found
          have other : first ≠ item := by
            rintro rfl
            exact fails (List.find?_some found)
          obtain ⟨item', isItem, found'⟩ := ih found
          refine ⟨item', by simpa [List.idxOf_cons_ne _ other] using isItem, ?_⟩
          rw [List.find?_cons_of_neg (Bool.eq_false_iff.mp ((same _ _ pair).trans passes)), found']

/-- The offset of a data form stays at its position. -/
theorem offsetExpression?_position
    (pairs : List.Forall₂ (PartlyReplaced PutsConstant) form.items form'.items)
    (isOffset : offsetExpression? form = some offset) :
    ∃ offset', form'.items[form.items.idxOf offset]? = some offset' ∧
      offsetExpression? form' = some offset' := by
  have sameTag : ∀ item item', PartlyReplaced PutsConstant item item' →
      item'.hasTagIn ["offset"] = item.hasTagIn ["offset"] :=
    fun item item' stage => hasTagIn_stage stage (by decide)
  have sameOther : ∀ item item', PartlyReplaced PutsConstant item item' →
      decide (item'.isList = true ∧ (!item'.hasTagIn ["memory", "import"]) = true) =
        decide (item.isList = true ∧ (!item.hasTagIn ["memory", "import"]) = true) := by
    intro item item' stage
    rw [isList_stage stage, hasTagIn_stage stage (by decide)]
  have inOffset := find?_stage pairs sameTag
  unfold offsetExpression? at isOffset ⊢
  rw [Module.find?_eq, Tree.forms, List.find?_filter] at isOffset ⊢
  cases found : form.items.find? (·.hasTagIn ["offset"]) with
  | some wrapper =>
      rw [found] at isOffset
      cases isOffset
      obtain ⟨offset', isItem, found'⟩ := find?_position pairs sameTag found
      exact ⟨offset', isItem, by rw [found']; rfl⟩
  | none =>
      rw [found] at isOffset inOffset
      generalize form'.items.find? (·.hasTagIn ["offset"]) = none' at inOffset ⊢
      cases inOffset
      exact find?_position pairs sameOther isOffset

theorem mem_of_offsetExpression? (isOffset : offsetExpression? form = some offset) :
    offset ∈ form.items := by
  have itself : List.Forall₂ (PartlyReplaced PutsConstant) form.items form.items :=
    List.forall₂_same.mpr fun item _ => .refl item
  obtain ⟨offset', isItem, isOffset'⟩ := offsetExpression?_position itself isOffset
  cases isOffset.symm.trans isOffset'
  exact List.mem_of_getElem? isItem

theorem refersTo_stage (changed : PartlyRewritten PutsConstant form form') {reference : String}
    (refers : Segment.RefersTo form reference) : Segment.RefersTo form' reference := by
  have memoryUse : Option.Rel (PartlyReplaced PutsConstant) (form.find? ["memory"])
      (form'.find? ["memory"]) := by
    rw [Module.find?_eq, Module.find?_eq]
    exact find?_stage changed.items_forall₂ fun item item' stage => hasTagIn_stage stage (by decide)
  generalize isUse : form'.find? ["memory"] = use? at memoryUse
  cases refers with
  | default missing =>
      rw [missing] at memoryUse
      cases memoryUse
      exact .default isUse
  | use found =>
      rw [found] at memoryUse
      cases memoryUse with
      | some stage =>
          rcases stage with changedUse | puts
          · obtain ⟨items', rfl, stages⟩ := changedUse.exists_items
            rw [eq_of_noLists stages rfl] at isUse
            exact .use isUse
          · exact absurd rfl puts.1

/-- The instruction of an offset is an outermost list that asks for evaluation. -/
theorem outermostAt_offset {module : Tree} {position : Nat} {path : List Nat} {width : Width}
    {expression : Tree} (isForm : module.items[position]? = some form)
    (isData : form.hasTag "data" = true) (member : offset ∈ form.items)
    (asks : OffsetBy ((ValueType.int width).name ++ ".constexpr") expression path offset) :
    module.OutermostAt asksForValue (position :: form.items.idxOf offset :: path) ∧
      module.nodeAt? (position :: form.items.idxOf offset :: path) =
        some (.form ((ValueType.int width).name ++ ".constexpr") [expression]) := by
  have asksInside : asksForValue
      (.form ((ValueType.int width).name ++ ".constexpr") [expression]) = true := by
    cases width <;> rfl
  obtain ⟨rest, rfl⟩ := Tree.exists_of_tag? (beq_iff_eq.mp isData)
  have isOffset := List.getElem?_idxOf member
  cases module with
  | atom text => cases isForm
  | list items =>
      cases asks with
      | bare =>
          refine ⟨Tree.outermostAt_cons_iff.mpr ⟨_, isForm, .inr ⟨rfl, ?_⟩⟩, ?_⟩
          · exact Tree.outermostAt_cons_iff.mpr ⟨_, isOffset, .inl ⟨rfl, asksInside⟩⟩
          · exact (Tree.nodeAt?_cons isForm).trans (Tree.nodeAt?_cons isOffset)
      | wrapped =>
          refine ⟨Tree.outermostAt_cons_iff.mpr ⟨_, isForm, .inr ⟨rfl, ?_⟩⟩, ?_⟩
          · refine Tree.outermostAt_cons_iff.mpr ⟨_, isOffset, .inr ⟨rfl, ?_⟩⟩
            exact Tree.outermostAt_cons_iff.mpr ⟨_, rfl, .inl ⟨rfl, asksInside⟩⟩
          · exact (Tree.nodeAt?_cons isForm).trans (Tree.nodeAt?_cons isOffset)

/-- An offset becomes an offset by the node that the instruction in it becomes. -/
theorem offsetBy_stage {tag tag' : String} {argument argument' offset' : Tree} {path : List Nat}
    (isOffset : OffsetBy tag argument path offset)
    (stage : PartlyReplaced PutsConstant offset offset')
    (found : offset'.nodeAt? path = some (.form tag' [argument'])) :
    OffsetBy tag' argument' path offset' := by
  cases isOffset with
  | bare =>
      cases found
      exact .bare
  | wrapped =>
      rcases stage with changed | puts
      · obtain ⟨items', rfl, pairs⟩ := changed.exists_items
        obtain ⟨first, rest, isTag, pairsRest, rfl⟩ := List.forall₂_cons_left_iff.mp pairs
        obtain ⟨item', none', -, isLast, rfl⟩ := List.forall₂_cons_left_iff.mp pairsRest
        cases isLast
        cases found
        rw [partlyReplaced_atom isTag]
        exact .wrapped
      · exact absurd rfl puts.1

end DataForms

/-! ## Sized segments -/

/-- With an offset, a form is a segment whether it names a memory or not. -/
theorem ofForm?_stage {form form' offset' : Tree} {reference : String} {address size : Nat}
    (changed : PartlyRewritten PutsConstant form form') (isData : form.hasTag "data" = true)
    (isOffset : offsetExpression? form' = some offset')
    (isAddress : constantOffset offset' = .ok (some address))
    (refers : Segment.RefersTo form reference) (measured : segmentSize form = .ok size) :
    form'.hasTag "data" = true ∧
      Segment.ofForm? form' = .ok (some ⟨form', reference, some address, size⟩) := by
  have isData' : form'.hasTag "data" = true := by
    rw [Tree.hasTag, tag?_stage changed]
    exact isData
  have measured' : segmentSize form' = .ok size := by
    rw [segmentSize_eq_ok_iff, atoms_stage changed]
    exact segmentSize_eq_ok_iff.mp measured
  have refers' := Segment.memoryReference_eq_ok_iff.mpr (refersTo_stage changed refers)
  refine ⟨isData', ?_⟩
  unfold Segment.ofForm?
  rw [if_pos isData', isOffset]
  cases found : form'.find? ["memory"] <;>
    simp [found ▸ refers', measured', isAddress, bind, Except.bind, Except.mapError]

/-- Whether sizing takes a form for a segment that writes a number of bytes at an
address: the address behind them counts for the memory that the form refers to, which
is grown to the least number of pages that reaches all such addresses. -/
def SizedAt (module form : Tree) (reference : String) (address size : Nat) : Prop :=
  Segment.ofForm? form = .ok (some ⟨form, reference, some address, size⟩) ∧
    ∀ memory, findMemory (Module.memories module) reference = .ok memory →
      address + size ∈ Module.dataEnds module memory.index ∧
      ((Module.sizeMemories module).failure = none → ∃ form' imported,
        (Module.indexSpace (Module.sizeMemories module).module "memory")[memory.index]? =
          some ⟨form', imported⟩ ∧
        Memory.Resized (Module.dataEnds module memory.index) memory.form form')

theorem mem_of_findMemory {memories : List Memory} {reference : String} {memory : Memory}
    (found : findMemory memories reference = .ok memory) : memory ∈ memories := by
  unfold findMemory at found
  split at found
  · split at found
    · rename_i isFound
      cases found
      exact List.mem_of_find?_eq_some isFound
    · cases found
  · split at found
    · split at found
      · cases found
      · split at found
        · cases found
        · split at found
          · rename_i isFound
            cases found
            exact List.mem_of_getElem? isFound
          · cases found
    · cases found

theorem sizedAt_of_segment {module form : Tree} {reference : String} {address size : Nat}
    (member : form ∈ module.items)
    (segment : form.hasTag "data" = true ∧
      Segment.ofForm? form = .ok (some ⟨form, reference, some address, size⟩)) :
    SizedAt module form reference address size := by
  obtain ⟨isData, isSegment⟩ := segment
  refine ⟨isSegment, fun memory found => ⟨?_, fun succeeded => ?_⟩⟩
  · rw [Module.dataEnds, Module.mem_writtenEnds_iff]
    exact ⟨form, List.mem_filter.mpr ⟨member, isData⟩, _, _, _, isSegment, rfl, found, rfl, rfl⟩
  · obtain ⟨index, declaration, declared, rfl⟩ :=
      Module.mem_memories_iff.mp (mem_of_findMemory found)
    obtain ⟨change, module_eq, changes⟩ := Module.resized_sizeMemories succeeded
    refine ⟨change index declaration.form, declaration.imported, ?_, (changes _ _ declared).1⟩
    rw [module_eq, Module.indexSpace_mapIndexSpace fun index declaration found =>
      (changes index declaration found).2]
    simp [Memory.ofForm, declared]

/-- Whether folding makes of the data form at a position one whose offset is the value
of the expression that its offset asked for, and that is sized from there on. -/
def FoldsOffset (module : Tree) (steps : List Replacement) (folded : Tree) (position : Nat) :
    Prop :=
  ∀ (form offset expression : Tree) (width : Width) (path : List Nat),
    module.items[position]? = some form → form.hasTag "data" = true →
      offsetExpression? form = some offset →
        OffsetBy ((ValueType.int width).name ++ ".constexpr") expression path offset →
          ∃ (form' : Tree) (word : BitVec width.bits), folded.items[position]? = some form' ∧
            FoldedAt module steps (position :: form.items.idxOf offset :: path) expression
              (.int width word) ∧
            (∃ offset', offsetExpression? form' = some offset' ∧
              constantOffset offset' = .ok (some word.toNat)) ∧
            ∀ reference size, Segment.RefersTo form reference → segmentSize form = .ok size →
              SizedAt folded form' reference word.toNat size

theorem foldsOffset_of_course {module folded : Tree} {steps : List Replacement}
    (changed : PartlyRewritten PutsConstant module folded)
    (course : (foldReviser (Module.globals module)).Course asksForValue module steps folded)
    (position : Nat) : FoldsOffset module steps folded position := by
  intro form offset expression width path isForm isData isOffset asks
  have pairs : List.Forall₂ (PartlyReplaced PutsConstant) module.items folded.items :=
    changed.items_forall₂
  obtain ⟨form', isForm', stage⟩ := exists_getElem?_of_forall₂ pairs isForm
  obtain ⟨outermost, isNode⟩ :=
    outermostAt_offset isForm isData (mem_of_offsetExpression? isOffset) asks
  obtain ⟨word, foldedAt, isConstant⟩ := foldedAt_of_course course outermost isNode
  have changedForm : PartlyRewritten PutsConstant form form' :=
    partlyRewritten_of_hasTag id stage isData (by decide)
  have pairsInside : List.Forall₂ (PartlyReplaced PutsConstant) form.items form'.items :=
    changedForm.items_forall₂
  obtain ⟨offset', isItem', isOffset'⟩ := offsetExpression?_position pairsInside isOffset
  have stageOffset : PartlyReplaced PutsConstant offset offset' := by
    have isItem := List.getElem?_idxOf (mem_of_offsetExpression? isOffset)
    obtain ⟨other, isOther, stageOffset⟩ := exists_getElem?_of_forall₂ pairsInside isItem
    cases isItem'.symm.trans isOther
    exact stageOffset
  have address : constantOffset offset' = .ok (some word.toNat) := by
    have found : offset'.nodeAt? path = some (.form ((ValueType.int width).name ++ ".const")
        [.atom (decimalNumeral word.toInt)]) := by
      rw [← isConstant, Tree.nodeAt?, isForm', Option.bind_some, Tree.nodeAt?, isItem',
        Option.bind_some]
    rw [constantOffset_const (offsetBy_stage asks stageOffset found)
      (parseInt_decimalNumeral width word), BitVec.ofInt_toInt]
  refine ⟨form', word, isForm', foldedAt, ⟨offset', isOffset', address⟩, ?_⟩
  intro reference size refers measured
  exact sizedAt_of_segment (List.mem_of_getElem? isForm')
    (ofForm?_stage changedForm isData isOffset' address refers measured)

theorem mem_subtrees_of_nodeAt? {tree node : Tree} {address : List Nat}
    (found : tree.nodeAt? address = some node) : node ∈ tree.subtrees := by
  induction address generalizing tree with
  | nil =>
      cases found
      exact Tree.mem_subtrees_self node
  | cons position address ih =>
      cases tree with
      | atom text => cases found
      | list items =>
          obtain ⟨item, isItem, found⟩ := Option.bind_eq_some_iff.mp found
          exact Tree.mem_subtrees_of_mem (List.mem_of_getElem? isItem) (ih found)

/-- A module that asks for integers only folds no zeros with a sign. -/
theorem keepSign_of_integers {module folded : Tree} {steps : List Replacement}
    (integers : AsksForIntegers module)
    (course : (foldReviser (Module.globals module)).Course asksForValue module steps folded) :
    ∀ step ∈ steps, step.replacement ≠ negativeZero := by
  intro step member isZero
  obtain ⟨before, after, rfl⟩ := List.append_of_mem member
  have inside := mem_subtrees_of_nodeAt? course.nodes.1
  obtain ⟨stage, -, taken⟩ := course.taken.exists_stage
  cases taken with
  | cons found decided _ =>
      obtain ⟨value, asks, -, isConstant⟩ := exists_of_foldReviser decided
      rw [isConstant] at isZero
      have sameTag : value.type.name ++ ".const" = (ValueType.float .single).name ++ ".const" := by
        injection isZero with sameItems
        injection sameItems with sameTag
        injection sameTag
      have sameName := (String.append_left_inj ".const").mp sameTag
      obtain ⟨tag, tagged, isConstexpr⟩ := Option.bind_eq_some_iff.mp asks
      have notSingle := (integers step.item inside).1
      rw [tagged, tag_of_constexprType? isConstexpr, sameName] at notSingle
      exact notSingle rfl

theorem putsConstant_foldConstants (module : Tree) :
    PartlyRewritten PutsConstant module (Module.foldConstants module).tree := by
  have rewritten : PartlyRewritten (foldReviser (Module.globals module)).Replaces module
      (Module.foldConstants module).tree := Tree.partlyRewritten_of_revise module
  refine rewritten.mono id fun replaces => ?_
  obtain ⟨type, value, asks, isConstant⟩ := exists_of_foldReviser_replaces replaces
  exact ⟨asks, type, value.spell, isConstant⟩

/-- The evaluator and the reader of offsets agree.  An integer constant is the same
word for both, wherever it stands as an offset.  Where folding succeeds, it takes the
steps of the one course that there is, and the offset of a data form that asks for an
integer becomes the address that the expression has for a value at its step; this is
its value in the module as it was, if no step before folded the negative zero of single
precision.  The segment is sized with its bytes from that address on. -/
theorem Module.folded_offsets_are_values (module : Tree) :
    (∀ (width : Width) (text : String) (literal : IntLiteral),
      IntLiteral.ofText? text = some literal → literal.isTooLong = false →
        ∀ globals, ∃ word : BitVec width.bits,
          evaluate globals (.form ((ValueType.int width).name ++ ".const") [.atom text]) =
            .ok (.int width word) ∧
          (∀ path offset,
            OffsetBy ((ValueType.int width).name ++ ".const") (.atom text) path offset →
              constantOffset offset = .ok (some word.toNat)) ∧
          constantOffset (.form "offset"
            [.atom ((ValueType.int width).name ++ ".const"), .atom text]) = .ok (some word.toNat)) ∧
    ((foldConstants module).failure = none →
      ∃ steps, (foldReviser (globals module)).Course asksForValue module steps
          (foldConstants module).tree ∧
        (∀ steps' result, (foldReviser (globals module)).Course asksForValue module steps' result →
          steps' = steps) ∧
        (AsksForIntegers module → ∀ step ∈ steps, step.replacement ≠ negativeZero) ∧
        ∀ position, FoldsOffset module steps (foldConstants module).tree position) := by
  refine ⟨fun width text literal isLiteral short globals => ?_, fun succeeded => ?_⟩
  · have reads : parseInt text = .ok literal.value := by simp [parseInt, isLiteral, short]
    exact ⟨_, evaluate_const reads globals,
      fun path offset isOffset => constantOffset_const isOffset reads, constantOffset_words reads⟩
  · obtain ⟨steps, course⟩ := Reviser.exists_course (isSome_foldReviser (globals module)) succeeded
    exact ⟨steps, course, fun steps' result course' => (course'.unique course).1,
      fun integers => keepSign_of_integers integers course,
      foldsOffset_of_course (putsConstant_foldConstants module) course⟩

/-- A module with a segment at an address that is written as a negative number. -/
def highSegment : Tree :=
  .form "module" [.form "memory" [.atom "1"],
    .form "global" [.atom "$low", .atom "i32", .form "i32.const" [.atom "2"]],
    .form "data" [.form "offset" [.form "i32.constexpr" [.form "i32.sub"
      [.form "global.get" [.atom "$low"], .form "i32.const" [.atom "0x1_0002"]]]], .atom "\"ab\""]]

/-- A module with a segment whose address depends on the sign of a zero that is folded
before. -/
def lostSign : Tree :=
  .form "module" [.form "memory" [.atom "1"],
    .form "global" [.atom "$zero", .atom "f32", .form "f32.add"
      [.form "f32.constexpr" [.form "f32.const" [.atom "-0.0"]],
        .form "f32.const" [.atom "-0.0"]]],
    .form "data" [.form "i32.constexpr" [.form "i32.trunc_f32_s" [.form "f32.copysign"
      [.form "f32.const" [.atom "1"], .form "global.get" [.atom "$zero"]]]], .atom "\"x\""]]

theorem Module.folded_offset_signs :
    (constantOffset (.form "offset" [.form "i64.const" [.atom "-0x1"]]) =
        .ok (some 0xFFFFFFFFFFFFFFFF) ∧
      (foldConstants highSegment).failure = none ∧
      ∃ form', (foldConstants highSegment).tree.items[3]? = some form' ∧
        SizedAt (foldConstants highSegment).tree form' "0" 0xFFFF0000 2) ∧
    (evaluate (globals lostSign) (.form "i32.trunc_f32_s" [.form "f32.copysign"
        [.form "f32.const" [.atom "1"], .form "global.get" [.atom "$zero"]]]) =
          .ok (.int .w32 (-1)) ∧
      (foldConstants lostSign).failure = none ∧
      ∃ form', (foldConstants lostSign).tree.items[3]? = some form' ∧
        SizedAt (foldConstants lostSign).tree form' "0" 1 1) := by
  have succeeded : (foldConstants highSegment).failure = none := by decide +kernel
  have succeeded' : (foldConstants lostSign).failure = none := by decide +kernel
  obtain ⟨readers, folding⟩ := Module.folded_offsets_are_values highSegment
  obtain ⟨-, folding'⟩ := Module.folded_offsets_are_values lostSign
  refine ⟨⟨?_, succeeded, ?_⟩, by rfl, succeeded', ?_⟩
  · obtain ⟨word, evaluates, offsets, -⟩ := readers .w64 "-0x1" ⟨true, .hexadecimal, [1]⟩ rfl rfl []
    cases evaluates
    exact offsets _ _ .wrapped
  · obtain ⟨steps, course, -, keepSign, folds⟩ := folding succeeded
    obtain ⟨form', word, isForm', foldedAt, -, sized⟩ := folds 3 _ _ _ .w32 [1] rfl rfl rfl .wrapped
    obtain ⟨before, after, step, stage, rfl, -, -, -, inModule⟩ := foldedAt
    have integers : AsksForIntegers highSegment := by
      unfold AsksForIntegers
      decide
    have evaluates := inModule fun earlier member =>
      keepSign integers earlier (List.mem_append_left _ member)
    cases evaluates
    exact ⟨form', isForm', sized "0" 2 (.default rfl) rfl⟩
  · obtain ⟨steps, -, -, -, folds⟩ := folding' succeeded'
    obtain ⟨form', word, isForm', -, ⟨offset', isOffset', address⟩, sized⟩ :=
      folds 3 _ _ _ .w32 [] rfl rfl rfl .bare
    have offsetNow : ((foldConstants lostSign).tree.items[3]?.bind offsetExpression?).map
        constantOffset = some (.ok (some 1)) := by
      rfl
    rw [isForm', Option.bind_some, isOffset', Option.map_some, address] at offsetNow
    have isOne : word.toNat = 1 := by
      simpa using offsetNow
    exact ⟨form', isForm', isOne ▸ sized "0" 1 (.default rfl) rfl⟩

end WatLink
