import WatLink.Proofs.GlobalCycles
import WatLink.Proofs.NumberLimits
import WatLink.Proofs.RevisionOrder

/-!
# The order of folding

Constant expressions are evaluated while the module changes around them, and a
global is read as it stands at that moment.  For integers this makes no
difference: the constant that takes the place of an expression reads back as the
value of the expression, so every expression means at every stage what it meant in
the module as it was.
-/

namespace WatLink

namespace Constant

/-- An expression that asks for an integer and the constant that takes its
place. -/
def FoldsTo (globals : List Global) (item item' : Tree) : Prop :=
  ∃ (width : Width) (word : BitVec width.bits),
    constexprName? item = some (ValueType.int width).name ∧
    evaluate globals item = .ok (.int width word) ∧
    item' = .form ((ValueType.int width).name ++ ".const") [.atom (decimalNumeral word.toInt)]

variable {globals globals' : List Global} {replaces : Tree → Tree → Prop}

/-- An expression that asks for evaluation and a constant in its place, whatever its
type and text. -/
def PutsConstant (item item' : Tree) : Prop :=
  constexprName? item ≠ none ∧
    ∃ (type : ValueType) (text : String), item' = .form (type.name ++ ".const") [.atom text]

theorem FoldsTo.putsConstant {item item' : Tree} (folds : FoldsTo globals item item') :
    PutsConstant item item' := by
  obtain ⟨width, word, asks, -, rfl⟩ := folds
  exact ⟨by simp [asks], .int width, _, rfl⟩

/-- Replacements by constants that have, over any globals, the meaning of the expression
in whose place they stand. -/
structure KeepsMeaning (globals : List Global) (replaces : Tree → Tree → Prop) : Prop where
  putsConstant : ∀ {item item' : Tree}, replaces item item' → PutsConstant item item'
  denotes_iff : ∀ {item item' : Tree} (globals' : List Global) {value : Value},
    replaces item item' → (Denotes globals item value ↔ Denotes globals' item' value)

/-! ## Constants that read back -/

theorem natAbs_toInt_lt (width : Width) (word : BitVec width.bits) :
    word.toInt.natAbs < 10 ^ digitLimit := by
  have lower := BitVec.le_toInt word
  have upper := @BitVec.toInt_lt _ word
  have small : word.toInt.natAbs < 10 ^ 20 := by
    generalize word.toInt = number at lower upper ⊢
    cases width <;> simp only [Width.bits] at lower upper <;> omega
  exact small.trans_le (Nat.pow_le_pow_right (by decide) (by decide))

theorem parseInt_decimalNumeral (width : Width) (word : BitVec width.bits) :
    parseInt (decimalNumeral word.toInt) = .ok word.toInt := by
  have written : writeInt word.toInt = .ok (decimalNumeral word.toInt) := by
    rw [writeInt, if_neg]
    exact Nat.not_lt.mpr ((length_toString_le_iff _).mpr (natAbs_toInt_lt width word))
  exact (parseInt_of_writeInt written).2

/-- The signed decimal of an integer reads back as the integer. -/
theorem literal_decimalNumeral (width : Width) (word : BitVec width.bits) :
    literal (.int width) (decimalNumeral word.toInt) = .ok (.int width word) := by
  simp only [literal, parseInt_decimalNumeral, BitVec.ofInt_toInt]

/-! ## Stages of an expression -/

section Stages

variable {item item' : Tree} {tag : String} {arguments arguments' : List Tree}

theorem partlyReplaced_atom {text : String}
    (stage : PartlyReplaced PutsConstant (.atom text) item') : item' = .atom text := by
  rcases stage with changed | puts
  · cases changed
    rfl
  · exact absurd rfl puts.1

theorem eq_atom_of_partlyReplaced {text : String}
    (stage : PartlyReplaced PutsConstant item (.atom text)) : item = .atom text := by
  rcases stage with changed | ⟨-, type, spelled, folded⟩
  · cases changed
    rfl
  · cases folded

variable (puts : ∀ {item item' : Tree}, replaces item item' → PutsConstant item item')
include puts

/-- A later stage of an instruction is the instruction with later stages of its
arguments, or the constant in its place. -/
theorem partlyReplaced_form (stage : PartlyReplaced replaces (.form tag arguments) item') :
    (∃ arguments', item' = .form tag arguments' ∧
      List.Forall₂ (PartlyReplaced replaces) arguments arguments') ∨
    replaces (.form tag arguments) item' := by
  rcases stage with changed | folds
  · obtain ⟨items', rfl, pairs⟩ := changed.exists_items
    obtain ⟨first, rest, isTag, pairsRest, rfl⟩ := List.forall₂_cons_left_iff.mp pairs
    rw [partlyReplaced_atom (isTag.mono puts)]
    exact .inl ⟨rest, rfl, pairsRest⟩
  · exact .inr folds

theorem form_of_partlyReplaced (stage : PartlyReplaced replaces item (.form tag arguments')) :
    (∃ arguments, item = .form tag arguments ∧
      List.Forall₂ (PartlyReplaced replaces) arguments arguments') ∨
    replaces item (.form tag arguments') := by
  rcases stage with changed | folds
  · cases item with
    | atom text => cases changed
    | list items =>
        have pairs := partlyRewritten_list_iff.mp changed
        obtain ⟨first, rest, isTag, pairsRest, rfl⟩ := List.forall₂_cons_right_iff.mp pairs
        rw [eq_atom_of_partlyReplaced (isTag.mono puts)]
        exact .inl ⟨rest, rfl, pairsRest⟩
  · exact .inr folds

end Stages

/-- A global at a later stage. -/
structure GlobalStage (replaces : Tree → Tree → Prop) (global global' : Global) : Prop where
  name : global'.name = global.name
  initializer : Option.Rel (PartlyReplaced replaces) global.initializer global'.initializer

theorem GlobalStage.refl (global : Global) : GlobalStage replaces global global := by
  refine ⟨rfl, ?_⟩
  cases global.initializer with
  | none => exact .none
  | some initializer => exact .some (.refl initializer)

section GlobalStages

variable {before later : List Global}

theorem map_name_eq (stages : List.Forall₂ (GlobalStage replaces) before later) :
    later.map (·.name) = before.map (·.name) := by
  induction stages with
  | nil => rfl
  | cons stage _ ih => rw [List.map_cons, List.map_cons, stage.name, ih]

theorem globalIndex_eq (stages : List.Forall₂ (GlobalStage replaces) before later)
    (reference : String) : globalIndex later reference = globalIndex before reference := by
  have sameSearch : later.findIdx? (·.name == some reference) =
      before.findIdx? (·.name == some reference) := by
    have search := congrArg (List.findIdx? (· == some reference)) (map_name_eq stages)
    rwa [List.findIdx?_map, List.findIdx?_map] at search
  rw [globalIndex, globalIndex, sameSearch, stages.length_eq]

theorem initializerAt?_stage (stages : List.Forall₂ (GlobalStage replaces) before later)
    (index : Nat) :
    Option.Rel (PartlyReplaced replaces) (initializerAt? before index)
      (initializerAt? later index) := by
  induction stages generalizing index with
  | nil => exact .none
  | cons stage _ ih =>
      cases index with
      | zero => exact stage.initializer
      | succ index => exact ih index

end GlobalStages

/-- A constant has the meaning of the expression whose place it has taken. -/
theorem FoldsTo.denotes_iff {item item' : Tree} (folds : FoldsTo globals item item') {value : Value} :
    Denotes globals item value ↔ Denotes globals' item' value := by
  obtain ⟨width, word, -, evaluates, rfl⟩ := folds
  have reads : evaluate globals' (.form ((ValueType.int width).name ++ ".const")
      [.atom (decimalNumeral word.toInt)]) = .ok (.int width word) :=
    evaluate_eq_ok_iff.mpr (.constant (isTag_const _) (literal_decimalNumeral width word))
  rw [← evaluate_eq_ok_iff, ← evaluate_eq_ok_iff, evaluates, reads]

theorem FoldsTo.keepsMeaning : KeepsMeaning globals (FoldsTo globals) :=
  ⟨FoldsTo.putsConstant, fun _ _ folds => folds.denotes_iff⟩

/-- A relation between expressions over two lists of globals along which values can
be carried over. -/
structure Carries (globals globals' : List Global) (related : Tree → Tree → Prop) : Prop where
  atom : ∀ {text : String} {expression' : Tree},
    related (.atom text) expression' → expression' = .atom text
  form : ∀ {tag : String} {arguments : List Tree} {expression' : Tree},
    related (.form tag arguments) expression' →
      (∃ arguments', expression' = .form tag arguments' ∧
        List.Forall₂ related arguments arguments') ∨
      ∀ value, Denotes globals (.form tag arguments) value → Denotes globals' expression' value
  index : ∀ reference, globalIndex globals' reference = globalIndex globals reference
  initializer : ∀ index,
    Option.Rel related (initializerAt? globals index) (initializerAt? globals' index)

theorem Denotes.carry {related : Tree → Tree → Prop} (carries : Carries globals globals' related)
    {expression expression' : Tree} {value : Value} (denotes : Denotes globals expression value)
    (relates : related expression expression') : Denotes globals' expression' value := by
  induction denotes generalizing expression' with
  | constant isTag reads =>
      rcases carries.form relates with ⟨arguments', rfl, pairs⟩ | same
      · rcases pairs with _ | ⟨isText, ⟨⟩⟩
        rw [carries.atom isText]
        exact .constant isTag reads
      · exact same _ (.constant isTag reads)
  | @global reference index initializer value found isInitializer inner ih =>
      rcases carries.form relates with ⟨arguments', rfl, pairs⟩ | same
      · rcases pairs with _ | ⟨isReference, ⟨⟩⟩
        rw [carries.atom isReference]
        have stage := carries.initializer index
        rw [isInitializer] at stage
        cases isInitializer' : initializerAt? globals' index with
        | none =>
            rw [isInitializer'] at stage
            cases stage
        | some initializer' =>
            rw [isInitializer'] at stage
            cases stage with
            | some relatesInner =>
                exact .global ((carries.index reference).trans found) isInitializer' (ih relatesInner)
      · exact same _ (.global found isInitializer inner)
  | constexpr asks inner ih =>
      rcases carries.form relates with ⟨arguments', rfl, pairs⟩ | same
      · rcases pairs with _ | ⟨relatesInner, ⟨⟩⟩
        exact .constexpr asks (ih relatesInner)
      · exact same _ (.constexpr asks inner)
  | @operation tag name type arguments values value isTag notConst sameLength inner applies ih =>
      rcases carries.form relates with ⟨arguments', rfl, pairs⟩ | same
      · have carry : List.Forall₂ (fun argument operand => ∀ argument', related argument argument' →
            Denotes globals' argument' operand) arguments values :=
          List.forall₂_iff_zip.mpr ⟨sameLength, fun member _ => ih _ _ member⟩
        have carried : List.Forall₂ (Denotes globals') arguments' values :=
          List.forall₂_of_length_eq_of_get (pairs.length_eq.symm.trans sameLength)
            fun index inside inside' => carry.get (pairs.length_eq ▸ inside) inside' _
              (pairs.get _ inside)
        obtain ⟨sameLength', each⟩ := List.forall₂_iff_zip.mp carried
        exact .operation isTag notConst sameLength' (fun _ _ => each) applies
      · exact same _ (.operation isTag notConst sameLength inner applies)

/-- Expressions mean at every stage what they meant in the beginning. -/
theorem denotes_stage_iff (meaning : KeepsMeaning globals replaces)
    (stages : List.Forall₂ (GlobalStage replaces) globals globals') {expression expression' : Tree}
    (stage : PartlyReplaced replaces expression expression') {value : Value} :
    Denotes globals' expression' value ↔ Denotes globals expression value := by
  constructor
  · intro denotes
    have carries : Carries globals' globals (flip (PartlyReplaced replaces)) := by
      refine ⟨fun stage => eq_atom_of_partlyReplaced (stage.mono meaning.putsConstant),
        fun stage => ?_, fun reference => (globalIndex_eq stages reference).symm, fun index => ?_⟩
      · rcases form_of_partlyReplaced meaning.putsConstant stage with ⟨arguments, rfl, pairs⟩ | folds
        · exact .inl ⟨arguments, rfl, pairs.flip⟩
        · exact .inr fun value => (meaning.denotes_iff globals' folds).mpr
      · have initializers := initializerAt?_stage stages index
        generalize initializerAt? globals index = initializer? at initializers ⊢
        generalize initializerAt? globals' index = initializer?' at initializers ⊢
        cases initializers with
        | none => exact .none
        | some stage => exact .some stage
    exact denotes.carry carries stage
  · intro denotes
    have carries : Carries globals globals' (PartlyReplaced replaces) := by
      refine ⟨fun stage => partlyReplaced_atom (stage.mono meaning.putsConstant),
        fun stage => ?_, globalIndex_eq stages, initializerAt?_stage stages⟩
      rcases partlyReplaced_form meaning.putsConstant stage with changed | folds
      · exact .inl changed
      · exact .inr fun value => (meaning.denotes_iff globals' folds).mp
    exact denotes.carry carries stage

/-! ## Stages of a module -/

section ModuleStages

variable {item item' : Tree} {items items' : List Tree}

theorem partlyReplaced_list (stage : PartlyReplaced PutsConstant (.list items) item') :
    ∃ items', item' = .list items' := by
  rcases stage with changed | ⟨-, type, text, rfl⟩
  · obtain ⟨items', rfl, -⟩ := changed.exists_items
    exact ⟨items', rfl⟩
  · exact ⟨_, rfl⟩

theorem isList_stage (stage : PartlyReplaced PutsConstant item item') :
    item'.isList = item.isList := by
  cases item with
  | atom text => rw [partlyReplaced_atom stage]
  | list items =>
      obtain ⟨items', rfl⟩ := partlyReplaced_list stage
      rfl

theorem tag?_stage (changed : PartlyRewritten PutsConstant item item') :
    item'.tag? = item.tag? := by
  match item with
  | .atom text => rw [partlyReplaced_atom (.inl changed)]
  | .list [] =>
      cases changed
      rfl
  | .list (.atom text :: rest) =>
      obtain ⟨items', rfl, pairs⟩ := changed.exists_items
      obtain ⟨first, rest', pair, -, rfl⟩ := List.forall₂_cons_left_iff.mp pairs
      rw [partlyReplaced_atom pair]
      rfl
  | .list (.list inner :: rest) =>
      obtain ⟨items', rfl, pairs⟩ := changed.exists_items
      obtain ⟨first, rest', pair, -, rfl⟩ := List.forall₂_cons_left_iff.mp pairs
      obtain ⟨inner', rfl⟩ := partlyReplaced_list pair
      rfl

/-- Neither an expression that is folded nor the constant in its place has a tag
that is no instruction. -/
theorem PutsConstant.hasTagIn_eq_false (puts : PutsConstant item item') {tags : List String}
    (plain : ∀ tag ∈ tags, constexprType? tag = none ∧ instruction? tag = none) :
    item.hasTagIn tags = false ∧ item'.hasTagIn tags = false := by
  obtain ⟨asks, type, text, rfl⟩ := puts
  constructor
  · cases tagged : item.tag? with
    | none => simp [Tree.hasTagIn, tagged]
    | some tag =>
        have notIn : tag ∉ tags := fun member => by
          simp [constexprName?, tagged, (plain tag member).1] at asks
        simpa [Tree.hasTagIn, tagged] using notIn
  · have notIn : type.name ++ ".const" ∉ tags := fun member => by
      cases (plain _ member).2.symm.trans (isTag_const type).splits
    simpa [Tree.hasTagIn, Tree.form, Tree.tag?] using notIn

theorem hasTagIn_stage (stage : PartlyReplaced PutsConstant item item') {tags : List String}
    (plain : ∀ tag ∈ tags, constexprType? tag = none ∧ instruction? tag = none) :
    item'.hasTagIn tags = item.hasTagIn tags := by
  rcases stage with changed | puts
  · rw [Tree.hasTagIn, Tree.hasTagIn, tag?_stage changed]
  · rw [(puts.hasTagIn_eq_false plain).1, (puts.hasTagIn_eq_false plain).2]

theorem find?_stage {related : Tree → Tree → Prop} {test : Tree → Bool}
    (pairs : List.Forall₂ related items items')
    (same : ∀ item item', related item item' → test item' = test item) :
    Option.Rel related (items.find? test) (items'.find? test) := by
  induction pairs with
  | nil => exact .none
  | @cons item item' rest rest' pair _ ih =>
      cases passes : test item with
      | true =>
          rw [List.find?_cons_of_pos passes, List.find?_cons_of_pos ((same _ _ pair).trans passes)]
          exact .some pair
      | false =>
          have fails := Bool.eq_false_iff.mp passes
          have fails' := Bool.eq_false_iff.mp ((same _ _ pair).trans passes)
          rwa [List.find?_cons_of_neg fails, List.find?_cons_of_neg fails']

theorem dropWhile_stage {related : Tree → Tree → Prop} {test : Tree → Bool}
    (pairs : List.Forall₂ related items items')
    (same : ∀ item item', related item item' → test item' = test item) :
    List.Forall₂ related (items.dropWhile test) (items'.dropWhile test) := by
  induction pairs with
  | nil => exact .nil
  | @cons item item' rest rest' pair pairs ih =>
      rw [List.dropWhile_cons, List.dropWhile_cons, same _ _ pair]
      split
      · exact ih
      · exact .cons pair pairs

theorem isType_stage (stage : PartlyReplaced PutsConstant item item') :
    Global.isType item' = Global.isType item := by
  cases item with
  | atom text => rw [partlyReplaced_atom stage]
  | list items =>
      obtain ⟨items', rfl⟩ := partlyReplaced_list stage
      simp only [Global.isType, ← Module.hasTagIn_singleton]
      exact hasTagIn_stage stage (by decide)

theorem eq_of_noLists (pairs : List.Forall₂ (PartlyReplaced PutsConstant) items items')
    (noLists : items.all (!·.isList) = true) : items' = items := by
  induction pairs with
  | nil => rfl
  | @cons item item' rest rest' pair _ ih =>
      rw [List.all_cons, Bool.and_eq_true] at noLists
      cases item with
      | atom text => rw [partlyReplaced_atom pair, ih noLists.2]
      | list inner => cases noLists.1

theorem all_stage (pairs : List.Forall₂ (PartlyReplaced PutsConstant) items items') :
    items'.all (!·.isList) = items.all (!·.isList) := by
  induction pairs with
  | nil => rfl
  | cons pair _ ih => rw [List.all_cons, List.all_cons, isList_stage pair, ih]

theorem tail_stage {related : Tree → Tree → Prop} (pairs : List.Forall₂ related items items') :
    List.Forall₂ related items.tail items'.tail := by
  cases pairs with
  | nil => exact .nil
  | cons _ pairs => exact pairs

theorem identifier?_stage (changed : PartlyRewritten PutsConstant item item') :
    item'.identifier? = item.identifier? := by
  have pairs := changed.items_forall₂
  unfold Tree.identifier?
  generalize item.items = items at pairs ⊢
  generalize item'.items = items' at pairs ⊢
  cases pairs with
  | nil => rfl
  | cons _ pairs =>
      cases pairs with
      | nil => rfl
      | @cons second second' rest rest' pair _ =>
          cases second with
          | atom text =>
              rw [partlyReplaced_atom pair]
          | list inner =>
              obtain ⟨inner', rfl⟩ := partlyReplaced_list pair
              rfl

theorem hasInlineImport_stage (changed : PartlyRewritten PutsConstant item item') :
    hasInlineImport item' = hasInlineImport item := by
  have sameTags : item'.hasTagIn importableTags = item.hasTagIn importableTags :=
    hasTagIn_stage (.inl changed) (by decide)
  have found := find?_stage changed.items_forall₂ fun _ _ stage =>
    @hasTagIn_stage _ _ stage ["import"] (by decide)
  rw [hasInlineImport, hasInlineImport, sameTags, Module.find?_eq, Module.find?_eq]
  generalize item.items.find? (·.hasTagIn ["import"]) = inner at found ⊢
  generalize item'.items.find? (·.hasTagIn ["import"]) = inner' at found ⊢
  cases found <;> rfl

/-! ## Stages of the globals -/

/-- A declaration at a later stage. -/
structure DeclarationStage (replaces : Tree → Tree → Prop) (declaration declaration' : Declaration) :
    Prop where
  form : PartlyRewritten replaces declaration.form declaration'.form
  imported : declaration'.imported = declaration.imported

variable (puts : ∀ {item item' : Tree}, replaces item item' → PutsConstant item item')
include puts

theorem initializerOf_stage (pairs : List.Forall₂ (PartlyReplaced replaces) items items') :
    Option.Rel (PartlyReplaced replaces) (Global.initializerOf items)
      (Global.initializerOf items') := by
  have shapes : List.Forall₂ (PartlyReplaced PutsConstant) items items' :=
    pairs.imp fun _ _ pair => pair.mono puts
  cases noLists : items.all (!·.isList) with
  | true =>
      rw [eq_of_noLists shapes noLists]
      cases Global.initializerOf items with
      | none => exact .none
      | some initializer => exact .some (.refl initializer)
  | false =>
      have noLists' := (all_stage shapes).trans noLists
      cases pairs with
      | nil => exact .none
      | @cons item item' rest rest' pair pairsRest =>
          cases pairsRest with
          | nil =>
              cases item with
              | atom text => cases noLists
              | list inner =>
                  obtain ⟨inner', rfl⟩ := partlyReplaced_list (pair.mono puts)
                  exact .some pair
          | cons second others =>
              simp only [Global.initializerOf, noLists, noLists']
              exact .none

theorem initializer?_stage (changed : PartlyRewritten replaces item item') :
    Option.Rel (PartlyReplaced replaces) (Global.initializer? item)
      (Global.initializer? item') := by
  have pairs : List.Forall₂ (PartlyReplaced replaces) item.items item'.items :=
    changed.items_forall₂
  have behind := dropWhile_stage (tail_stage pairs) fun item item' stage =>
    congrArg (!·) (isType_stage (stage.mono puts))
  unfold Global.initializer?
  generalize item.items.tail.dropWhile (!Global.isType ·) = rest at behind ⊢
  generalize item'.items.tail.dropWhile (!Global.isType ·) = rest' at behind ⊢
  cases behind with
  | nil => exact .none
  | cons _ pairs => exact initializerOf_stage puts pairs

/-- A form with the tag of a declaration is not an expression that is folded. -/
theorem partlyRewritten_of_hasTag (stage : PartlyReplaced replaces item item')
    {tag : String} (tagged : item.hasTag tag = true)
    (plain : constexprType? tag = none ∧ instruction? tag = none) :
    PartlyRewritten replaces item item' := by
  rcases stage with changed | folds
  · exact changed
  · have untagged := ((puts folds).hasTagIn_eq_false (List.forall_mem_singleton.mpr plain)).1
    rw [Module.hasTagIn_singleton, tagged] at untagged
    cases untagged

theorem declaration?_stage (stage : PartlyReplaced replaces item item') :
    Option.Rel (DeclarationStage replaces) (Module.declaration? "global" item)
      (Module.declaration? "global" item') := by
  have sameTag : ∀ tag, constexprType? tag = none ∧ instruction? tag = none →
      item'.hasTag tag = item.hasTag tag := by
    intro tag plain
    rw [← Module.hasTagIn_singleton, ← Module.hasTagIn_singleton]
    exact hasTagIn_stage (stage.mono puts) (List.forall_mem_singleton.mpr plain)
  rw [Module.declaration?, Module.declaration?, sameTag "import" (by decide),
    sameTag "global" (by decide)]
  split
  · rename_i isImport
    have changed := partlyRewritten_of_hasTag puts stage isImport (by decide)
    have found := find?_stage changed.items_forall₂ fun _ _ stage =>
      @hasTagIn_stage _ _ (PartlyReplaced.mono stage puts) ["global"] (by decide)
    rw [Module.find?_eq, Module.find?_eq]
    have tagged : ∀ form, item.items.find? (·.hasTagIn ["global"]) = some form →
        form.hasTag "global" = true := by
      intro form inside
      simpa [Module.hasTagIn_singleton] using List.find?_some inside
    generalize item.items.find? (·.hasTagIn ["global"]) = form? at found tagged ⊢
    generalize item'.items.find? (·.hasTagIn ["global"]) = form?' at found ⊢
    cases found with
    | none => exact .none
    | some stage =>
        exact .some ⟨partlyRewritten_of_hasTag puts stage (tagged _ rfl) (by decide), rfl⟩
  · split
    · rename_i isGlobal
      have changed := partlyRewritten_of_hasTag puts stage isGlobal (by decide)
      exact .some ⟨changed, hasInlineImport_stage (changed.mono id puts)⟩
    · exact .none

theorem ofDeclaration_stage {declaration declaration' : Declaration}
    (stage : DeclarationStage replaces declaration declaration') :
    GlobalStage replaces (.ofDeclaration declaration) (.ofDeclaration declaration') := by
  refine ⟨identifier?_stage (stage.form.mono id puts), ?_⟩
  rw [Global.ofDeclaration, Global.ofDeclaration, stage.imported]
  dsimp only
  split
  · exact .none
  · exact initializer?_stage puts stage.form

theorem declaredAs?_stage (imported : Bool) (stage : PartlyReplaced replaces item item') :
    Option.Rel (DeclarationStage replaces) (Module.declaredAs? "global" imported item)
      (Module.declaredAs? "global" imported item') := by
  have declares := declaration?_stage puts stage
  rw [Module.declaredAs?, Module.declaredAs?]
  generalize Module.declaration? "global" item = declaration? at declares ⊢
  generalize Module.declaration? "global" item' = declaration?' at declares ⊢
  cases declares with
  | none => exact .none
  | some stage =>
      simp only [Option.filter, stage.imported]
      split
      · exact .some stage
      · exact .none

theorem globals_stage {module module' : Tree}
    (changed : PartlyRewritten replaces module module') :
    List.Forall₂ (GlobalStage replaces) (Module.globals module) (Module.globals module') := by
  have declared : ∀ imported, List.Forall₂ (DeclarationStage replaces)
      (Module.declared "global" imported module.items)
      (Module.declared "global" imported module'.items) := by
    intro imported
    refine List.rel_filterMap ?_ changed.items_forall₂
    intro item item' stage
    exact declaredAs?_stage puts imported stage
  rw [Module.globals, Module.globals, Module.indexSpace_eq_declared, Module.indexSpace_eq_declared]
  refine List.rel_map ?_ (List.rel_append (declared true) (declared false))
  intro declaration declaration' stage
  exact ofDeclaration_stage puts stage

omit puts in
theorem currentGlobals_stage {before now : List Global}
    (stages : List.Forall₂ (GlobalStage replaces) before now) :
    List.Forall₂ (GlobalStage replaces) before (List.zipWith currentGlobal before now) := by
  induction stages with
  | nil => exact .nil
  | @cons global global' rest rest' stage _ ih =>
      refine .cons ?_ ih
      rw [currentGlobal]
      split
      · exact .refl global
      · exact stage

end ModuleStages

/-! ## Folding as a steady revision -/

/-- The type that an expression asks for is that of its value. -/
theorem name_of_denotes {item : Tree} {name : String} {value : Value}
    (asks : constexprName? item = some name) (denotes : Denotes globals item value) :
    name = value.type.name := by
  have asksTag : ∀ {tag arguments}, constexprName? (.form tag arguments) = some name →
      constexprType? tag = some name := fun asks => asks
  cases denotes with
  | constant isTag _ => cases isTag.notConstexpr.symm.trans (asksTag asks)
  | global _ _ _ => cases asks
  | constexpr isConstexpr _ => exact Option.some.inj ((asksTag asks).symm.trans isConstexpr)
  | operation isTag _ _ _ _ => cases isTag.notConstexpr.symm.trans (asksTag asks)

theorem tag_of_constexprType? {tag name : String} (asks : constexprType? tag = some name) :
    tag = name ++ ".constexpr" := by
  simp only [constexprType?] at asks
  split at asks
  · rename_i ends
    obtain ⟨front, whole⟩ := List.isSuffixOf_iff_suffix.mp ends
    cases asks
    have front_eq : tag.toList.take (tag.toList.length - constexprEnding.length) = front := by
      rw [← whole, List.length_append, Nat.add_sub_cancel, List.take_left]
    apply String.toList_inj.mp
    rw [String.toList_append, String.toList_ofList, front_eq]
    exact whole.symm
  · cases asks

/-- Whether no list of a tree asks for a floating-point number. -/
def AsksForIntegers (tree : Tree) : Prop :=
  ∀ part ∈ tree.subtrees, part.tag? ≠ some "f32.constexpr" ∧ part.tag? ≠ some "f64.constexpr"

theorem foldsTo_of_denotes {module item : Tree} (integers : AsksForIntegers module)
    (inside : item ∈ module.subtrees) {name : String} {value : Value}
    (asks : constexprName? item = some name) (denotes : Denotes globals item value) :
    FoldsTo globals item (.form (name ++ ".const") [.atom value.spell]) := by
  obtain rfl := name_of_denotes asks denotes
  cases value with
  | int width word => exact ⟨width, word, asks, evaluate_eq_ok_iff.mpr denotes, rfl⟩
  | float precision number =>
      obtain ⟨tag, tagged, isConstexpr⟩ := Option.bind_eq_some_iff.mp asks
      have notFloat := integers item inside
      rw [tagged, tag_of_constexprType? isConstexpr] at notFloat
      cases precision with
      | single => exact absurd rfl notFloat.1
      | double => exact absurd rfl notFloat.2

theorem foldReviser_steady {module : Tree} (integers : AsksForIntegers module) :
    (foldReviser (Module.globals module)).Steady module (constexprName? · = none)
      (FoldsTo (Module.globals module)) := by
  refine ⟨fun whole item _ _ => Option.map_eq_none_iff, fun whole item replacement inside reached => ?_⟩
  have stages : List.Forall₂ (GlobalStage (FoldsTo (Module.globals module))) (Module.globals module)
      (currentGlobals (Module.globals module) (whole item)) :=
    currentGlobals_stage (globals_stage FoldsTo.putsConstant reached)
  have sameValue : ∀ value, evaluate (currentGlobals (Module.globals module) (whole item)) item =
      .ok value ↔ Denotes (Module.globals module) item value := by
    intro value
    rw [evaluate_eq_ok_iff, denotes_stage_iff FoldsTo.keepsMeaning stages (.refl item)]
  simp only [foldReviser, Option.map_eq_some_iff, exceptMap_eq_ok_iff, sameValue]
  constructor
  · rintro ⟨name, asks, value, denotes, rfl⟩
    exact foldsTo_of_denotes integers inside asks denotes
  · rintro ⟨width, word, asks, evaluates, rfl⟩
    exact ⟨_, asks, _, evaluate_eq_ok_iff.mp evaluates, rfl⟩

mutual

/-- The expressions below the root of a tree that ask for evaluation and are not
inside another such expression. -/
def outermost : Tree → List Tree
  | .atom _ => []
  | .list items => outermostOfItems items

/-- The outermost expressions that ask for evaluation among some trees and below
them. -/
def outermostOfItems : List Tree → List Tree
  | [] => []
  | item :: rest =>
      (if (constexprName? item).isSome then [item] else outermost item) ++ outermostOfItems rest

end

/-- There is a folded tree if all these expressions can be folded. -/
theorem exists_rewritten_iff (tree : Tree) :
    (∃ result, Rewritten (constexprName? · = none) (FoldsTo globals) tree result) ↔
      ∀ item ∈ outermost tree, ∃ item', FoldsTo globals item item' := by
  induction tree with
  | atom text => simpa [outermost] using ⟨_, Rewritten.atom⟩
  | list items ih =>
      rw [outermost]
      induction items with
      | nil => simpa [outermostOfItems] using ⟨_, Rewritten.nil⟩
      | cons item rest ihRest =>
          have ihItem := ih item (by simp)
          have ihRest := ihRest fun other member => ih other (List.mem_cons_of_mem item member)
          rw [outermostOfItems, List.forall_mem_append, ← ihRest]
          cases asks : constexprName? item with
          | none =>
              simp only [Option.isSome_none, Bool.false_eq_true, if_false, ← ihItem]
              constructor
              · rintro ⟨result, rewritten⟩
                cases rewritten with
                | kept _ changed changedRest => exact ⟨⟨_, changed⟩, ⟨_, changedRest⟩⟩
                | replaced folds _ =>
                    obtain ⟨width, word, asks', -⟩ := folds
                    cases asks.symm.trans asks'
              · rintro ⟨⟨item', changed⟩, ⟨rest', changedRest⟩⟩
                obtain ⟨items', rfl, -⟩ := changedRest.partly.exists_items
                exact ⟨_, .kept asks changed changedRest⟩
          | some name =>
              simp only [Option.isSome_some, if_true, List.forall_mem_singleton]
              constructor
              · rintro ⟨result, rewritten⟩
                cases rewritten with
                | kept keepsItem _ _ => cases asks.symm.trans keepsItem
                | replaced folds changedRest => exact ⟨⟨_, folds⟩, ⟨_, changedRest⟩⟩
              · rintro ⟨⟨item', folds⟩, ⟨rest', changedRest⟩⟩
                obtain ⟨items', rfl, -⟩ := changedRest.partly.exists_items
                exact ⟨_, .replaced folds changedRest⟩

/-- Among some items, outermost expressions are items or in one of them. -/
theorem mem_outermostOfItems {item : Tree} {items : List Tree}
    (member : item ∈ outermostOfItems items) :
    (item ∈ items ∧ (constexprName? item).isSome = true) ∨ ∃ other ∈ items, item ∈ outermost other := by
  induction items with
  | nil => simp [outermostOfItems] at member
  | cons first rest ih =>
      rw [outermostOfItems, List.mem_append] at member
      rcases member with inFirst | inRest
      · split at inFirst
        · obtain rfl := List.mem_singleton.mp inFirst
          exact .inl ⟨by simp, ‹_›⟩
        · exact .inr ⟨first, by simp, inFirst⟩
      · rcases ih inRest with ⟨inItems, asks⟩ | ⟨other, inItems, inOther⟩
        · exact .inl ⟨List.mem_cons_of_mem first inItems, asks⟩
        · exact .inr ⟨other, List.mem_cons_of_mem first inItems, inOther⟩

theorem mem_subtrees_of_mem_outermost {tree item : Tree} (member : item ∈ outermost tree) :
    item ∈ tree.subtrees ∧ (constexprName? item).isSome = true := by
  induction tree with
  | atom text => simp [outermost] at member
  | list items ih =>
      rw [outermost] at member
      rcases mem_outermostOfItems member with ⟨inItems, asks⟩ | ⟨other, inItems, inOther⟩
      · exact ⟨Tree.mem_subtrees_of_mem inItems (Tree.mem_subtrees_self item), asks⟩
      · obtain ⟨inside, asks⟩ := ih other inItems inOther
        exact ⟨Tree.mem_subtrees_of_mem inItems inside, asks⟩

theorem exists_foldsTo_iff {module item : Tree} (integers : AsksForIntegers module)
    (member : item ∈ outermost module) :
    (∃ item', FoldsTo globals item item') ↔ ∃ value, evaluate globals item = .ok value := by
  constructor
  · rintro ⟨-, width, word, -, evaluates, -⟩
    exact ⟨_, evaluates⟩
  · rintro ⟨value, evaluates⟩
    obtain ⟨inside, asks⟩ := mem_subtrees_of_mem_outermost member
    obtain ⟨name, asks⟩ := Option.isSome_iff_exists.mp asks
    exact ⟨_, foldsTo_of_denotes integers inside asks (evaluate_eq_ok_iff.mp evaluates)⟩

/-- No list below the root of a folded tree asks for evaluation. -/
theorem constexprName?_of_rewritten {tree result : Tree}
    (rewritten : Rewritten (constexprName? · = none) (FoldsTo globals) tree result) :
    ∀ item ∈ result.items, ∀ part ∈ item.subtrees, constexprName? part = none := by
  refine rewritten.forall_below (fun item item' keepsItem changed => ?_) ?_
  · rw [constexprName?, tag?_stage (changed.mono (fun _ => trivial) FoldsTo.putsConstant)]
    exact keepsItem
  · rintro item item' ⟨width, word, -, -, rfl⟩
    refine Tree.forall_mem_subtrees (isTag_const (.int width)).notConstexpr ?_
    simp [Tree.form, Tree.items, Tree.subtrees, constexprName?, Tree.tag?]

end Constant

open Constant

/-- In a module that asks for integers only, folding succeeds if every outermost
expression that asks for evaluation has a value over the globals of the module as it
was.  The result is that module with each of these expressions replaced by the
constant of its value, and nothing in it asks for evaluation. -/
theorem Module.foldConstants_of_integers (module : Tree) (integers : AsksForIntegers module) :
    ((foldConstants module).failure = none ↔
      ∀ item ∈ outermost module, ∃ value, evaluate (globals module) item = .ok value) ∧
    (∀ result, (foldConstants module).failure = none ∧ (foldConstants module).tree = result ↔
      Rewritten (constexprName? · = none) (FoldsTo (globals module)) module result) ∧
    (module.isModule = true → (foldConstants module).failure = none →
      ∀ part ∈ (foldConstants module).tree.subtrees, constexprName? part = none) := by
  have steady := foldReviser_steady integers
  have folds : ∀ result, (foldConstants module).failure = none ∧
      (foldConstants module).tree = result ↔
        Rewritten (constexprName? · = none) (FoldsTo (globals module)) module result :=
    fun result => Tree.revise_iff_rewritten steady
  refine ⟨?_, folds, fun isModule succeeded => ?_⟩
  · have canFold : (∃ result, Rewritten (constexprName? · = none) (FoldsTo (globals module))
        module result) ↔ (foldConstants module).failure = none := by
      constructor
      · rintro ⟨result, rewritten⟩
        exact ((folds result).mpr rewritten).1
      · intro succeeded
        exact ⟨_, (folds _).mp ⟨succeeded, rfl⟩⟩
    rw [← canFold, exists_rewritten_iff]
    exact forall₂_congr fun item member => exists_foldsTo_iff integers member
  · have rewritten := (folds _).mp ⟨succeeded, rfl⟩
    refine Tree.forall_mem_subtrees ?_ (constexprName?_of_rewritten rewritten)
    obtain ⟨rest, rfl⟩ := isModule_iff.mp isModule
    rw [constexprName?, tag?_stage (rewritten.mono (fun _ => trivial) FoldsTo.putsConstant)]
    rfl

/-- A module where a constant is folded inside the initializer of a global after an
expression that reads the global was folded. -/
def dependentModule : Tree :=
  .form "module"
    [.form "global" [.atom "$high", .atom "i32", .form "i32.constexpr"
      [.form "i32.add" [.form "global.get" [.atom "$low"], .form "i32.const" [.atom "1"]]]],
    .form "global" [.atom "$low", .atom "i32", .form "i32.sub"
      [.form "i32.const" [.atom "2"], .form "i32.constexpr" [.form "i32.const" [.atom "5"]]]],
    .form "func" [.form "i64.constexpr" [.form "i64.extend_i32_s"
      [.form "global.get" [.atom "$high"]]]]]

theorem Module.foldConstants_dependentModule :
    AsksForIntegers dependentModule ∧ (foldConstants dependentModule).failure = none ∧
      ∀ part ∈ (foldConstants dependentModule).tree.subtrees, constexprName? part = none := by
  have integers : AsksForIntegers dependentModule := by
    unfold AsksForIntegers
    decide
  obtain ⟨succeeds, -, folded⟩ := foldConstants_of_integers dependentModule integers
  have values : ∀ item ∈ outermost dependentModule,
      ∃ value, evaluate (globals dependentModule) item = .ok value := by
    simp only [dependentModule, outermost, Tree.form, outermostOfItems]
    refine List.forall_mem_cons.mpr ⟨⟨.int .w32 (-2), rfl⟩, List.forall_mem_cons.mpr
      ⟨⟨.int .w32 5, rfl⟩, List.forall_mem_singleton.mpr ⟨.int .w64 (-2), rfl⟩⟩⟩
  exact ⟨integers, succeeds.mpr values, folded rfl (succeeds.mpr values)⟩

end WatLink
