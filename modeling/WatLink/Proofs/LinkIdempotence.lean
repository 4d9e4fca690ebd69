import WatLink.Proofs.ExpansionRun
import WatLink.Proofs.SettledModules

/-!
# Linking a linked module

A pass that is settled in a module leaves it as it is and reads no file.  After a
run that does not fail all its passes are settled, so linking the result once more
with the same passes gives it back, whatever the files then are.
-/

namespace WatLink

/-! ## Settled passes do nothing -/

theorem expandEach_of_noImports
    (expandModule : List String → List Tree → SessionM (List Tree)) (chain : List String)
    {items : List Tree} (noImports : ∀ item ∈ items, fileImport? item = none) (session : Session) :
    expandEach (expandItem expandModule chain) items session = .ok items session := by
  induction items with
  | nil => rfl
  | cons item rest ih =>
      obtain ⟨isOther, noImportsRest⟩ := List.forall_mem_cons.mp noImports
      rw [expandEach, SessionM.bind_of_ok (expandItem_of_noImport expandModule isOther session),
        SessionM.bind_of_ok (ih noImportsRest)]
      rfl

theorem inlineItems_of_noImports {items : List Tree}
    (noImports : ∀ item ∈ items, rawImport? item = none) (session : Session) :
    inlineItems session items = ((items, none), session) := by
  induction items with
  | nil => rfl
  | cons item rest ih =>
      obtain ⟨isOther, noImportsRest⟩ := List.forall_mem_cons.mp noImports
      simp only [inlineItems, isOther, ih noImportsRest]

theorem inlineForms_of_noImports {forms : List Tree}
    (noImports : ∀ form ∈ forms.filter (·.hasTag "data"), ∀ item ∈ form.items,
      rawImport? item = none) (session : Session) :
    inlineForms session forms = ((forms, none), session) := by
  induction forms with
  | nil => rfl
  | cons form rest ih =>
      rw [inlineForms]
      cases isData : form.hasTag "data" with
      | false =>
          rw [List.filter_cons_of_neg (by simp [isData])] at noImports
          simp only [Bool.false_eq_true, if_false, ih noImports]
      | true =>
          rw [List.filter_cons_of_pos (by simp [isData])] at noImports
          obtain ⟨noImportsForm, noImportsRest⟩ := List.forall_mem_cons.mp noImports
          obtain ⟨items, rfl⟩ := Tree.exists_of_tag? (by simpa [Tree.hasTag] using isData)
          simp only [if_true, inlineItems_of_noImports noImportsForm, ih noImportsRest]
          rfl

namespace Pass

variable {module : Tree} {session : Session}

theorem expandImports_of_settled (settled : Settled .expandImports module)
    (isModule : module.isModule = true) (origin : Option String) :
    Module.expandImports module origin session = .ok module session := by
  obtain ⟨rest, rfl⟩ := isModule_iff.mp isModule
  have readsStore : (get : SessionM Session) session = .ok session session := rfl
  rw [Module.expandImports, SessionM.bind_of_ok readsStore, expandItems,
    SessionM.bind_of_ok (expandEach_of_noImports _ _ settled session)]
  rfl

theorem inlineData_of_settled (settled : Settled .inlineData module)
    (isModule : module.isModule = true) :
    Module.inlineData module session = ((module, none), session) := by
  obtain ⟨rest, rfl⟩ := isModule_iff.mp isModule
  rw [Module.inlineData, inlineForms_of_noImports settled session]
  rfl

theorem decimalNumerals_of_settled (settled : Settled .decimalNumerals module) :
    module.decimalNumerals = ⟨module, 0, none⟩ := by
  refine Tree.revise_of_kept fun part member whole => ?_
  cases part with
  | list items => rfl
  | atom text =>
      rcases (settled _ member).1 text rfl with isString | isOther
      · simp [decimalReviser, isString]
      · simp [decimalReviser, isOther]

theorem foldConstants_of_settled (settled : Settled .foldConstants module) :
    Module.foldConstants module = ⟨module, 0, none⟩ := by
  refine Tree.revise_of_kept fun part member whole => ?_
  have noName : Constant.constexprName? part = none :=
    Option.bind_eq_none_iff.mpr (settled _ member).2
  simp [Constant.foldReviser, noName]

/-- A settled pass leaves a module as it is. -/
theorem run_of_settled {pass : Pass} {state : LinkState} (settled : pass.Settled state.tree)
    (isModule : state.tree.isModule = true) (notFailed : state.failure = none)
    (origin : Option String) :
    (pass.run origin state).tree = state.tree ∧ (pass.run origin state).failure = none := by
  unfold Pass.run
  simp only [LinkState.report, isModule, if_true]
  cases pass with
  | expandImports =>
      simp only [apply, EStateM.run, expandImports_of_settled settled isModule]
      exact ⟨trivial, notFailed⟩
  | inlineData =>
      simp only [apply, inlineData_of_settled settled isModule, and_self]
  | decimalNumerals =>
      simp only [apply, decimalNumerals_of_settled settled]
      exact ⟨rfl, notFailed⟩
  | foldConstants =>
      simp only [apply, foldConstants_of_settled settled]
      exact ⟨rfl, notFailed⟩
  | sizeMemories =>
      obtain ⟨rest, tree_eq⟩ := isModule_iff.mp isModule
      rw [tree_eq] at settled
      simpa only [apply, tree_eq] using Module.sizeMemories_of_sized settled
  | mergeStarts =>
      have few : (state.tree.items.filter (·.hasTag "start")).length ≤ 1 := settled
      simp only [apply, Module.mergeStarts, few, if_true]
      exact ⟨trivial, notFailed⟩
  | sortForms => exact ⟨settled, notFailed⟩

end Pass

/-! ## Runs -/

namespace Link

variable {passes : List Pass} {origin : Option String} {state : LinkState}

/-- A run settles all its passes, if they run in their order. -/
theorem settled_of_runPasses (inOrder : passes.Pairwise Pass.Before)
    (succeeded : (runPasses origin passes state).failure = none) :
    ∀ pass ∈ passes, pass.Settled (runPasses origin passes state).tree := by
  induction passes generalizing state with
  | nil => simp
  | cons pass rest ih =>
      obtain ⟨before, inOrderRest⟩ := List.pairwise_cons.mp inOrder
      obtain ⟨firstStep, isModule, effect⟩ := runPasses_cons_cases succeeded
      rw [firstStep] at succeeded ⊢
      refine List.forall_mem_cons.mpr ⟨?_, ih inOrderRest succeeded⟩
      -- The first pass settles itself, and each of the others keeps it settled.
      refine runPasses_induct pass.Settled ?_ succeeded (effect.settles isModule)
      intro later member module module' isModule effect settled
      exact settled.of_effect (before later member) effect isModule

theorem isModule_of_runPasses (succeeded : (runPasses origin passes state).failure = none)
    (someRun : passes ≠ []) : (runPasses origin passes state).tree.isModule = true := by
  obtain ⟨pass, rest, rfl⟩ := List.exists_cons_of_ne_nil someRun
  obtain ⟨firstStep, isModule, effect⟩ := runPasses_cons_cases succeeded
  rw [firstStep] at succeeded ⊢
  exact runPasses_induct (fun module => module.isModule = true)
    (fun _ _ _ _ _ effect isModule => effect.isModule isModule) succeeded
    (effect.isModule isModule)

/-- A run of settled passes leaves a module as it is. -/
theorem runPasses_of_settled (settled : ∀ pass ∈ passes, pass.Settled state.tree)
    (isModule : state.tree.isModule = true) (notFailed : state.failure = none) :
    (runPasses origin passes state).tree = state.tree ∧
      (runPasses origin passes state).failure = none := by
  induction passes generalizing state with
  | nil => exact ⟨rfl, notFailed⟩
  | cons pass rest ih =>
      obtain ⟨settledPass, settledRest⟩ := List.forall_mem_cons.mp settled
      obtain ⟨sameTree, notFailed'⟩ := Pass.run_of_settled settledPass isModule notFailed origin
      rw [runPasses_cons notFailed, ← sameTree]
      rw [← sameTree] at settledRest isModule
      exact ih settledRest isModule notFailed'

/-- Linking is idempotent: if linking a tree succeeds, linking the result again
with the same selection of passes succeeds and gives the same tree, from any
origin and in any session. -/
theorem link_idempotent (selected : Pass → Bool) (origin origin' : Option String)
    (session session' : Session) (tree : Tree)
    (succeeded : (link (Pass.all.filter selected) origin session tree).failure = none) :
    let linked := (link (Pass.all.filter selected) origin session tree).tree
    (link (Pass.all.filter selected) origin' session' linked).failure = none ∧
      (link (Pass.all.filter selected) origin' session' linked).tree = linked := by
  intro linked
  have settled : ∀ pass ∈ Pass.all.filter selected, pass.Settled linked :=
    settled_of_runPasses (Pass.inOrder_filter selected) succeeded
  by_cases someRun : Pass.all.filter selected = []
  · rw [someRun]
    exact ⟨rfl, rfl⟩
  · have isModule : linked.isModule = true := isModule_of_runPasses succeeded someRun
    let again : LinkState := ⟨linked, session', none⟩
    have unchanged : (runPasses origin' (Pass.all.filter selected) again).tree = again.tree ∧ _ :=
      runPasses_of_settled settled isModule rfl
    exact unchanged.symm

/-- A module with a start entry, and a file of one byte. -/
def linkedFiles : Files :=
  [("lib", Text.encodeUtf8 "(module (start $b))"), ("bin", [7])]

/-- A module in which every pass has something to do. -/
def unlinkedModule : Tree :=
  .form "module" [.form "start" [.atom "$a"], .form "import" [.atom "\"lib\"", .form "file" []],
    .form "data" [.form "i32.const" [.atom "0x10000"],
      .form "import" [.atom "\"bin\"", .form "raw" []]],
    .form "memory" [.atom "1"], .form "global" [.atom "i32",
      .form "i32.constexpr" [.form "i32.const" [.atom "2"]]]]

/-- The second time the files are missing, and nothing asks for them. -/
theorem link_unlinkedModule_again :
    let passes := Pass.all.filter fun _ => true
    let linked := (link passes none ⟨.memory linkedFiles, #[]⟩ unlinkedModule).tree
    (link passes none ⟨.memory linkedFiles, #[]⟩ unlinkedModule).failure = none ∧
      (link passes (some "lib") ⟨.empty, #[]⟩ linked).failure = none ∧
        (link passes (some "lib") ⟨.empty, #[]⟩ linked).tree = linked := by
  have succeeded : (link (Pass.all.filter fun _ => true) none ⟨.memory linkedFiles, #[]⟩
      unlinkedModule).failure = none := by
    decide +kernel
  exact ⟨succeeded, link_idempotent (fun _ => true) none (some "lib") ⟨.memory linkedFiles, #[]⟩
    ⟨.empty, #[]⟩ unlinkedModule succeeded⟩

end Link

end WatLink
