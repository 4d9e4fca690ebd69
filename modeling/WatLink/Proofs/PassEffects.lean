import WatLink.Proofs.EvaluatorRequests
import WatLink.Proofs.FileExpansion
import WatLink.Proofs.InsertedTexts
import WatLink.Proofs.MemorySizing
import WatLink.Proofs.PassOutcome
import WatLink.Proofs.ServedFiles
import WatLink.Proofs.TreeRewriting

/-!
# Effects of passes

What each pass does to a module when it does not fail, as one relation on trees.
It leaves out sessions and events and says of loaded files only that their
modules have a given property.  Whatever holds of the trees along a run of passes
follows from it, one pass at a time.
-/

namespace WatLink

/-- What expanding the imports among some items gives. -/
structure Expanded (loads : Tree → Prop) (items items' : List Tree) : Prop where
  noImports : ∀ item ∈ items', fileImport? item = none
  sources : ∀ item ∈ items', item ∈ items ∨ ∃ module, loads module ∧ item ∈ module.items
  first : ∀ item rest, items = item :: rest → fileImport? item = none →
    ∃ rest', items' = item :: rest'

/-- An item of a data form that is kept, or a raw import that is replaced by the
literal of some bytes. -/
inductive InlinedItem (item : Tree) : Tree → Prop
  | kept : rawImport? item = none → InlinedItem item item
  | literal {text : String} (bytes : Bytes) : rawImport? item = some text →
      InlinedItem item (.atom (StringLiteral.ofBytes bytes))

/-- A top-level form with the raw imports among its items replaced, if it is a
data form. -/
inductive InlinedForm : Tree → Tree → Prop
  | other {form : Tree} : form.hasTag "data" = false → InlinedForm form form
  | data {items items' : List Tree} : (Tree.list items).hasTag "data" = true →
      List.Forall₂ InlinedItem items items' → InlinedForm (.list items) (.list items')

/-- What a pass makes of a module, where the modules of loaded files have a
property. -/
inductive Pass.Effect (loads : Tree → Prop) (module : Tree) : Pass → Tree → Prop
  | expandImports {items' : List Tree} : Expanded loads module.items items' →
      Effect loads module .expandImports (.list items')
  | inlineData {items' : List Tree} : List.Forall₂ InlinedForm module.items items' →
      Effect loads module .inlineData (.list items')
  | decimalNumerals {module' : Tree} :
      Rewritten decimalReviser.Keeps decimalReviser.Replaces module module' →
        Effect loads module .decimalNumerals module'
  | foldConstants {module' : Tree} {before : List Global} :
      Rewritten (Constant.foldReviser before).Keeps (Constant.foldReviser before).Replaces
        module module' →
        Effect loads module .foldConstants module'
  | sizeMemories : (Module.sizeMemories module).failure = none →
      Effect loads module .sizeMemories (Module.sizeMemories module).module
  | mergeStarts {module' : Tree} : Module.StartsMerged module module' →
      Effect loads module .mergeStarts module'
  | sortForms : Effect loads module .sortForms (Module.sortForms module)

theorem exists_getElem?_of_forall₂ {α β : Type} {related : α → β → Prop} {items : List α}
    {items' : List β} (pairs : List.Forall₂ related items items') {position : Nat} {item : α}
    (isItem : items[position]? = some item) :
    ∃ item', items'[position]? = some item' ∧ related item item' := by
  obtain ⟨inRange, rfl⟩ := List.getElem?_eq_some_iff.mp isItem
  have inRange' : position < items'.length := pairs.length_eq ▸ inRange
  exact ⟨_, List.getElem?_eq_getElem inRange', pairs.get inRange inRange'⟩

theorem exists_of_mem_forall₂ {α β : Type} {related : α → β → Prop} {items : List α}
    {items' : List β} (pairs : List.Forall₂ related items items') {item' : β}
    (member : item' ∈ items') : ∃ item ∈ items, related item item' := by
  obtain ⟨position, isItem'⟩ := List.getElem?_of_mem member
  obtain ⟨item, isItem, pair⟩ := exists_getElem?_of_forall₂ pairs.flip isItem'
  exact ⟨item, List.mem_of_getElem? isItem, pair⟩

/-! ## Inlining -/

theorem ServedItem.inlined {store : FileStore} {item item' : Tree}
    (served : ServedItem store item item') : InlinedItem item item' := by
  cases served with
  | kept isOther => exact .kept isOther
  | literal isRaw _ _ => exact .literal _ isRaw

theorem ServedForm.inlined {store : FileStore} {form form' : Tree}
    (served : ServedForm store form form') : InlinedForm form form' := by
  cases served with
  | other notData => exact .other notData
  | data isData served => exact .data isData (served.imp fun _ _ => ServedItem.inlined)

theorem inlineForms_inlined {session : Session} {forms : List Tree}
    (succeeded : (inlineForms session forms).1.2 = none) :
    List.Forall₂ InlinedForm forms (inlineForms session forms).1.1 :=
  (inlineForms_served succeeded).imp fun _ _ => ServedForm.inlined

/-- A data form keeps its tag, and the rest of its items are inlined one by one. -/
theorem InlinedForm.cases {form form' : Tree} (inlined : InlinedForm form form') :
    (form.hasTag "data" = false ∧ form' = form) ∨
      ∃ rest rest', form = .list (.atom "data" :: rest) ∧
        form' = .list (.atom "data" :: rest') ∧ List.Forall₂ InlinedItem rest rest' := by
  cases inlined with
  | other notData => exact .inl ⟨notData, rfl⟩
  | data isData inlinedItems =>
      obtain ⟨rest, same⟩ := Tree.exists_of_tag? (by simpa [Tree.hasTag] using isData)
      obtain rfl := Tree.list.inj same
      cases inlinedItems with
      | cons first others =>
          cases first with
          | kept _ => exact .inr ⟨rest, _, rfl, rfl, others⟩
          | literal bytes isRaw => simp [rawImport?, importAtom?] at isRaw

/-! ## Expanding -/

/-- Whether a module is what some file holds. -/
def FromFile (module : Tree) : Prop :=
  ∃ path bytes, moduleOfBytes path bytes = .ok module

namespace Expanded

variable {loads : Tree → Prop} {item : Tree} {rest first others : List Tree}

theorem nil : Expanded loads [] [] :=
  ⟨by simp, by simp, by simp⟩

theorem keep (isOther : fileImport? item = none) : Expanded loads [item] [item] :=
  ⟨by simpa using isOther, fun _ member => .inl member, by simp⟩

theorem splice {module : Tree} {text : String} {inner : List Tree}
    (isImport : fileImport? item = some text) (loaded : loads module)
    (expanded : Expanded loads module.items inner) :
    Expanded loads [item] (inner.filter Tree.isList) := by
  refine ⟨fun other member => expanded.noImports other (List.mem_of_mem_filter member),
    fun other member => .inr ?_, fun other rest same isOther => ?_⟩
  · rcases expanded.sources other (List.mem_of_mem_filter member) with inModule | deeper
    · exact ⟨module, loaded, inModule⟩
    · exact deeper
  · obtain ⟨rfl, -⟩ := List.cons.inj same
    simp [isImport] at isOther

theorem cons (expandedItem : Expanded loads [item] first)
    (expandedRest : Expanded loads rest others) : Expanded loads (item :: rest) (first ++ others) := by
  refine ⟨?_, ?_, fun other rest same isOther => ?_⟩
  · exact List.forall_mem_append.mpr ⟨expandedItem.noImports, expandedRest.noImports⟩
  · refine List.forall_mem_append.mpr ⟨fun other member => ?_, fun other member => ?_⟩
    · exact (expandedItem.sources other member).imp (by simp +contextual) id
    · exact (expandedRest.sources other member).imp (by simp +contextual) id
  · obtain ⟨rfl, -⟩ := List.cons.inj same
    obtain ⟨behind, rfl⟩ := expandedItem.first item [] rfl isOther
    exact ⟨behind ++ others, rfl⟩

end Expanded

/-- Whether a way to expand items gives expansions in any session. -/
def GivesExpansions (expandModule : List String → List Tree → SessionM (List Tree)) : Prop :=
  ∀ chain items session expanded session',
    expandModule chain items session = .ok expanded session' → Expanded FromFile items expanded

theorem expandItem_expanded {expandModule : List String → List Tree → SessionM (List Tree)}
    (modules : GivesExpansions expandModule) {chain : List String} {item : Tree}
    {session session' : Session} {expanded : List Tree}
    (expands : expandItem expandModule chain item session = .ok expanded session') :
    Expanded FromFile [item] expanded := by
  unfold expandItem at expands
  cases isImport : fileImport? item with
  | none =>
      simp only [isImport, SessionM.pure_eq_ok_iff] at expands
      obtain ⟨rfl, -⟩ := expands
      exact .keep isImport
  | some text =>
      simp only [isImport, SessionM.bind_eq_ok_iff, SessionM.ofExcept_eq_ok_iff] at expands
      obtain ⟨path, between, -, expands⟩ := expands
      split at expands
      · simp [throw, throwThe, MonadExceptOf.throw, EStateM.throw, bind, EStateM.bind] at expands
      · simp only [SessionM.bind_eq_ok_iff, SessionM.ofExcept_eq_ok_iff,
          SessionM.pure_eq_ok_iff] at expands
        obtain ⟨_, _, -, bytes, _, -, module, _, ⟨holds, -⟩, inner, _, inside, rfl, -⟩ := expands
        exact .splice isImport ⟨path, bytes, holds⟩ (modules _ _ _ _ _ inside)

theorem expandEach_expanded {expandItem : Tree → SessionM (List Tree)}
    (items : ∀ item session expanded session',
      expandItem item session = .ok expanded session' → Expanded FromFile [item] expanded) :
    GivesExpansions fun _ => expandEach expandItem := by
  intro _ list
  induction list with
  | nil =>
      intro session expanded session' expands
      obtain ⟨rfl, -⟩ := SessionM.pure_eq_ok_iff.mp expands
      exact .nil
  | cons item rest ih =>
      intro session expanded session' expands
      obtain ⟨first, between, others, expandsItem, expandsRest, rfl⟩ :=
        expandEach_cons_eq_ok_iff.mp expands
      exact .cons (items _ _ _ _ expandsItem) (ih _ _ _ expandsRest)

theorem expandItems_expanded (bound : Nat) : GivesExpansions (expandItems bound) := by
  induction bound with
  | zero =>
      intro chain
      refine expandEach_expanded (fun item session expanded session' expands => ?_) chain
      refine expandItem_expanded (fun _ _ _ _ _ impossible => ?_) expands
      simp [throw, throwThe, MonadExceptOf.throw, EStateM.throw] at impossible
  | succ bound ih =>
      intro chain
      exact expandEach_expanded (fun _ _ _ _ expands => expandItem_expanded ih expands) chain

theorem expandImports_expanded {module tree : Tree} {origin : Option String}
    {session session' : Session}
    (expands : Module.expandImports module origin session = .ok tree session') :
    ∃ items', tree = .list items' ∧ Expanded FromFile module.items items' := by
  unfold Module.expandImports at expands
  simp only [SessionM.bind_eq_ok_iff, SessionM.pure_eq_ok_iff] at expands
  obtain ⟨_, _, -, items', _, expandsItems, rfl, -⟩ := expands
  exact ⟨items', rfl, expandItems_expanded _ _ _ _ _ _ expandsItems⟩

/-! ## Runs -/

/-- What a pass does that does not fail, given what expansions are. -/
theorem Pass.effect_of_run_of {loads : Tree → Prop} {pass : Pass} {origin : Option String}
    {state : LinkState}
    (expansions : ∀ tree journal session', pass = .expandImports →
      Module.expandImports state.tree origin ⟨state.session.store, journal⟩ = .ok tree session' →
        ∃ items', tree = .list items' ∧ Expanded loads state.tree.items items')
    (succeeded : (pass.run origin state).failure = none) :
    state.tree.isModule = true ∧ pass.Effect loads state.tree (pass.run origin state).tree := by
  unfold Pass.run at succeeded ⊢
  by_cases isModule : state.tree.isModule = true
  · refine ⟨isModule, ?_⟩
    simp only [LinkState.report, isModule, if_true] at succeeded ⊢
    cases pass with
    | expandImports =>
        simp only [Pass.apply, EStateM.run] at succeeded ⊢
        split at succeeded
        · rename_i expands
          obtain ⟨items', rfl, expanded⟩ := expansions _ _ _ rfl expands
          exact .expandImports expanded
        · cases succeeded
    | inlineData =>
        simp only [Pass.apply, Module.inlineData] at succeeded ⊢
        exact .inlineData (inlineForms_inlined succeeded)
    | decimalNumerals =>
        simp only [Pass.apply, LinkState.adopt] at succeeded ⊢
        split at succeeded
        · simp [LinkState.fail] at succeeded
        · rename_i finished
          exact .decimalNumerals (Tree.rewritten_of_revise finished)
    | foldConstants =>
        simp only [Pass.apply, LinkState.adopt] at succeeded ⊢
        split at succeeded
        · simp [LinkState.fail] at succeeded
        · rename_i finished
          exact .foldConstants (Tree.rewritten_of_revise finished)
    | sizeMemories =>
        simp only [Pass.apply] at succeeded ⊢
        exact .sizeMemories succeeded
    | mergeStarts =>
        simp only [Pass.apply] at succeeded ⊢
        split at succeeded
        · simp [LinkState.fail] at succeeded
        · rename_i merges
          exact .mergeStarts (Module.startsMerged_of_mergeStarts merges)
        · rename_i merges
          exact .mergeStarts (Module.startsMerged_of_mergeStarts merges)
    | sortForms => exact .sortForms
  · simp [LinkState.report, LinkState.fail, isModule] at succeeded

/-- What a pass does that does not fail, whatever the store. -/
theorem Pass.effect_of_run {pass : Pass} {origin : Option String} {state : LinkState}
    (succeeded : (pass.run origin state).failure = none) :
    state.tree.isModule = true ∧ pass.Effect FromFile state.tree (pass.run origin state).tree :=
  Pass.effect_of_run_of (fun _ _ _ _ expands => expandImports_expanded expands) succeeded

namespace Link

variable {passes : List Pass} {origin : Option String} {state : LinkState}

/-- A run that does not fail does not fail at its first pass. -/
theorem runPasses_cons_cases {pass : Pass} {rest : List Pass}
    (succeeded : (runPasses origin (pass :: rest) state).failure = none) :
    runPasses origin (pass :: rest) state = runPasses origin rest (pass.run origin state) ∧
      state.tree.isModule = true ∧
        pass.Effect FromFile state.tree (pass.run origin state).tree := by
  have step := runPasses_cons (failure_eq_none_of_runPasses succeeded) origin pass rest
  rw [step] at succeeded
  exact ⟨step, Pass.effect_of_run (failure_eq_none_of_runPasses succeeded)⟩

/-- What one pass keeps, a run of passes keeps. -/
theorem runPasses_induct (holds : Tree → Prop)
    (step : ∀ pass ∈ passes, ∀ module module', module.isModule = true →
      pass.Effect FromFile module module' → holds module → holds module')
    (succeeded : (runPasses origin passes state).failure = none) (start : holds state.tree) :
    holds (runPasses origin passes state).tree := by
  induction passes generalizing state with
  | nil => exact start
  | cons pass rest ih =>
      obtain ⟨stepPass, stepRest⟩ := List.forall_mem_cons.mp step
      obtain ⟨firstStep, isModule, effect⟩ := runPasses_cons_cases succeeded
      rw [firstStep] at succeeded ⊢
      exact ih stepRest succeeded (stepPass _ _ isModule effect start)

end Link

/-! ## Replacements -/

theorem decimalReviser_keeps_iff {item : Tree} :
    decimalReviser.Keeps item ↔
      ∀ text ∈ item.text?, isStringLiteral text = true ∨ decimalSpelling? text = none := by
  cases item with
  | list items => exact ⟨by simp [Tree.text?], fun _ => ⟨id, rfl⟩⟩
  | atom text =>
      simp only [Reviser.Keeps, decimalReviser, exists_const, Tree.text?, Option.mem_def,
        Option.some.injEq, forall_eq']
      by_cases isString : isStringLiteral text = true
      · simp [isString]
      · simp [isString]

/-- Only atoms are replaced by numerals, each by its decimal spelling. -/
theorem exists_of_decimalReviser_replaces {item item' : Tree}
    (replaces : decimalReviser.Replaces item item') :
    ∃ text inserted, item = .atom text ∧ decimalSpelling? text = some (.ok inserted) ∧
      item' = .atom inserted ∧ Pass.Inserts .decimalNumerals inserted := by
  obtain ⟨whole, decided⟩ := replaces
  cases item with
  | list items => simp [decimalReviser] at decided
  | atom text =>
      simp only [decimalReviser] at decided
      split at decided
      · cases decided
      · obtain ⟨spelling, isPrefixed, written⟩ := Option.map_eq_some_iff.mp decided
        refine ⟨text, ?_⟩
        cases spelling with
        | error fault => simp [Except.map] at written
        | ok inserted =>
            simp only [Except.map, Except.ok.injEq] at written
            refine ⟨inserted, rfl, isPrefixed, written.symm, ?_⟩
            obtain ⟨literal, -, -, spelled⟩ := exists_of_decimalSpelling? isPrefixed
            cases ending : writeInt literal.value with
            | error fault => simp [ending, Except.map] at spelled
            | ok numeral =>
                obtain ⟨rfl, -⟩ := parseInt_of_writeInt ending
                simp only [ending, Except.map, Except.ok.injEq] at spelled
                exact spelled ▸ .numeral text.toList literal.value

theorem foldReviser_keeps_iff {before : List Global} {item : Tree} :
    (Constant.foldReviser before).Keeps item ↔ Constant.constexprName? item = none := by
  simp [Reviser.Keeps, Constant.foldReviser]

/-- Evaluating a list that asks for it succeeds only for the name of a type. -/
theorem exists_type_of_evaluate {globals : List Global} {item : Tree} {name : String}
    {value : Value} (asks : Constant.constexprName? item = some name)
    (evaluates : Constant.evaluate globals item = .ok value) :
    ∃ type : ValueType, name = type.name := by
  obtain ⟨tag, tagged, isConstexpr⟩ := Option.bind_eq_some_iff.mp asks
  obtain ⟨arguments, rfl⟩ := Tree.exists_of_tag? tagged
  have notGlobal : tag ≠ "global.get" := by
    rintro rfl
    cases isConstexpr
  rw [Constant.evaluate, Constant.eval.eq_def] at evaluates
  simp only [if_neg notGlobal, isConstexpr] at evaluates
  split at evaluates
  · cases found : ValueType.ofName? name with
    | none => simp [found] at evaluates
    | some type => exact ⟨type, Constant.name_of_ofName? found⟩
  · cases evaluates

/-- Constants take the place only of lists that ask for evaluation. -/
theorem exists_of_foldReviser_replaces {before : List Global} {item item' : Tree}
    (replaces : (Constant.foldReviser before).Replaces item item') :
    ∃ (type : ValueType) (value : Value), Constant.constexprName? item ≠ none ∧
      item' = Tree.form (type.name ++ ".const") [.atom value.spell] := by
  obtain ⟨whole, decided⟩ := replaces
  obtain ⟨name, asks, folded⟩ := Option.map_eq_some_iff.mp decided
  cases evaluates : Constant.evaluate (Constant.currentGlobals before (whole item)) item with
  | error fault => simp [evaluates, Except.map] at folded
  | ok value =>
      simp only [evaluates, Except.map, Except.ok.injEq] at folded
      obtain ⟨type, rfl⟩ := exists_type_of_evaluate asks evaluates
      exact ⟨type, value, by simp [asks], folded.symm⟩

/-! ## Modules stay modules -/

theorem isModule_iff {tree : Tree} :
    tree.isModule = true ↔ ∃ rest, tree = .list (.atom "module" :: rest) := by
  constructor
  · intro isModule
    exact Tree.exists_of_tag? (by simpa [Tree.isModule, Tree.hasTag] using isModule)
  · rintro ⟨rest, rfl⟩
    rfl

theorem Pass.Effect.isModule {loads : Tree → Prop} {pass : Pass} {module module' : Tree}
    (effect : pass.Effect loads module module') (isModule : module.isModule = true) :
    module'.isModule = true := by
  obtain ⟨rest, rfl⟩ := isModule_iff.mp isModule
  cases effect with
  | expandImports expanded =>
      obtain ⟨rest', rfl⟩ := expanded.first _ _ rfl rfl
      rfl
  | inlineData inlined =>
      simp only [Tree.items] at inlined
      cases inlined with
      | cons first _ =>
          cases first
          rfl
  | decimalNumerals rewritten =>
      cases rewritten with
      | kept _ first _ =>
          cases first
          rfl
      | replaced first _ =>
          obtain ⟨text, inserted, same, isPrefixed, -⟩ := exists_of_decimalReviser_replaces first
          cases same
          rw [(IsBare.of_all (by decide) (by decide)).decimalSpelling?] at isPrefixed
          cases isPrefixed
  | foldConstants rewritten =>
      cases rewritten with
      | kept _ first _ =>
          cases first
          rfl
      | replaced first _ =>
          obtain ⟨type, value, asks, -⟩ := exists_of_foldReviser_replaces first
          exact absurd rfl asks
  | sizeMemories succeeded =>
      obtain ⟨extents, events, grown, -, -, module_eq⟩ := Module.sizeMemories_cases succeeded
      rw [module_eq]
      rfl
  | mergeStarts merges =>
      cases merges with
      | same _ => rfl
      | merged _ _ => rfl
  | sortForms => rfl

end WatLink
