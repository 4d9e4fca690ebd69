import WatLink.Proofs.ImportSplitting
import WatLink.Proofs.LinkIdempotence
import WatLink.Proofs.PassFailures

/-!
# Linking again after a missing file

A run that misses a file stops while it expands imports, which leaves the module
as it was, or while it inlines data, which leaves some raw imports replaced and
the others not.  Inlining the rest later gives what inlining all at once gives,
because literals are no imports.  So linking what such a run leaves, with a store
that has all files of the first and more, ends like linking the module itself.
-/

namespace WatLink

/-- Whether a second store serves all files of the first. -/
def ServesMore (files files' : Files) : Prop :=
  ∀ path bytes, files.lookup path = some bytes → files'.lookup path = some bytes

theorem ServesMore.expands {files files' : Files} (serves : ServesMore files files')
    {chain : List String} {items expanded : List Tree}
    (expands : Expands files chain items expanded) : Expands files' chain items expanded := by
  induction expands with
  | nil => exact .nil
  | keep isOther _ ih => exact .keep isOther ih
  | splice imports fresh holds _ _ innerIH restIH =>
      obtain ⟨bytes, found, isModule⟩ := moduleAt?_eq_some_iff.mp holds
      have holds' := moduleAt?_eq_some_iff.mpr ⟨bytes, serves _ _ found, isModule⟩
      exact .splice imports fresh holds' innerIH restIH

/-! ## Inlining without a session -/

/-- The literal of the file that a raw import names by its path atom. -/
def literalAt (files : Files) (item : Tree) (text : String) : Except LinkError Tree :=
  match unquoted? text with
  | none => .error (.malformedForm .rawPath item)
  | some path =>
      match files.lookup path with
      | none => .error (.importNotFound path)
      | some bytes => .ok (.atom (StringLiteral.ofBytes bytes))

/-- The items of a data form with the raw imports up to the first failure
replaced. -/
def inlinedItems (files : Files) : List Tree → Inlined
  | [] => ([], none)
  | item :: rest =>
      match rawImport? item with
      | none => (item :: (inlinedItems files rest).1, (inlinedItems files rest).2)
      | some text =>
          match literalAt files item text with
          | .error error => (item :: rest, some error)
          | .ok literal => (literal :: (inlinedItems files rest).1, (inlinedItems files rest).2)

/-- The items of a module with the raw imports of its data forms replaced, up to
the first failure. -/
def inlinedForms (files : Files) : List Tree → Inlined
  | [] => ([], none)
  | form :: rest =>
      if form.hasTag "data" then
        match inlinedItems files form.items with
        | (items, some error) => (.list items :: rest, some error)
        | (items, none) => (.list items :: (inlinedForms files rest).1, (inlinedForms files rest).2)
      else (form :: (inlinedForms files rest).1, (inlinedForms files rest).2)

section Sessions

variable (files : Files) (journal : Array Event)

theorem inlineImport_memory (item : Tree) (text : String) :
    ∃ journal', inlineImport item text ⟨.memory files, journal⟩ =
      finished files journal' (literalAt files item text) := by
  unfold inlineImport literalAt
  cases unquoted? text with
  | none => exact ⟨journal, rfl⟩
  | some path =>
      have loading := SessionM.loadBytes_memory files journal path
      dsimp only
      cases found : files.lookup path with
      | none =>
          rw [found] at loading
          rw [SessionM.bind_of_error loading]
          exact ⟨journal, rfl⟩
      | some bytes =>
          rw [found] at loading
          rw [SessionM.bind_of_ok loading]
          exact ⟨_, rfl⟩

theorem inlineItems_memory (items : List Tree) :
    ∃ journal', inlineItems ⟨.memory files, journal⟩ items =
      (inlinedItems files items, ⟨.memory files, journal'⟩) := by
  induction items generalizing journal with
  | nil => exact ⟨journal, rfl⟩
  | cons item rest ih =>
      cases isImport : rawImport? item with
      | none =>
          obtain ⟨journal', inlined⟩ := ih journal
          exact ⟨journal', by simp only [inlineItems, inlinedItems, isImport, inlined]⟩
      | some text =>
          obtain ⟨between, reads⟩ := inlineImport_memory files journal item text
          cases literal : literalAt files item text with
          | error error =>
              rw [literal] at reads
              exact ⟨between, by
                simp only [inlineItems, inlinedItems, isImport, EStateM.run, reads, literal, finished]⟩
          | ok atom =>
              rw [literal] at reads
              obtain ⟨journal', inlined⟩ := ih between
              exact ⟨journal', by
                simp only [inlineItems, inlinedItems, isImport, EStateM.run, reads, literal, finished,
                  inlined]⟩

theorem inlineForms_memory (forms : List Tree) :
    ∃ journal', inlineForms ⟨.memory files, journal⟩ forms =
      (inlinedForms files forms, ⟨.memory files, journal'⟩) := by
  induction forms generalizing journal with
  | nil => exact ⟨journal, rfl⟩
  | cons form rest ih =>
      by_cases isData : form.hasTag "data" = true
      · obtain ⟨between, inlined⟩ := inlineItems_memory files journal form.items
        rw [inlineForms, inlinedForms, if_pos isData, if_pos isData, inlined]
        rcases inlinedItems files form.items with ⟨items, _ | error⟩
        · obtain ⟨journal', inlinedRest⟩ := ih between
          exact ⟨journal', by simp only [inlinedRest]⟩
        · exact ⟨between, rfl⟩
      · obtain ⟨journal', inlinedRest⟩ := ih journal
        exact ⟨journal', by simp only [inlineForms, inlinedForms, isData, inlinedRest]; rfl⟩

end Sessions

/-! ## Inlining the rest -/

section Resuming

variable {files files' : Files}

theorem inlinedItems_atom (text : String) (rest : List Tree) :
    inlinedItems files (.atom text :: rest) =
      (.atom text :: (inlinedItems files rest).1, (inlinedItems files rest).2) := by
  simp [inlinedItems, rawImport?, importAtom?]

theorem ServesMore.literalAt (serves : ServesMore files files') {item literal : Tree} {text : String}
    (found : literalAt files item text = .ok literal) :
    literalAt files' item text = .ok literal ∧ ∃ inlined, literal = .atom inlined := by
  unfold WatLink.literalAt at found ⊢
  cases unquoted : unquoted? text with
  | none => simp [unquoted] at found
  | some path =>
      simp only [unquoted] at found ⊢
      cases held : files.lookup path with
      | none => simp [held] at found
      | some bytes =>
          simp only [held, Except.ok.injEq] at found
          subst found
          simp [serves path bytes held]

/-- Inlining what is left of some items is inlining all of them. -/
theorem inlinedItems_resume (serves : ServesMore files files') (items : List Tree) :
    inlinedItems files' (inlinedItems files items).1 = inlinedItems files' items := by
  induction items with
  | nil => rfl
  | cons item rest ih =>
      cases isImport : rawImport? item with
      | none => simp only [inlinedItems, isImport, ih]
      | some text =>
          cases found : literalAt files item text with
          | error error => simp only [inlinedItems, isImport, found]
          | ok literal =>
              obtain ⟨found', inlined, rfl⟩ := serves.literalAt found
              rw [inlinedItems, isImport]
              simp only [found, inlinedItems_atom, ih]
              simp only [inlinedItems, isImport, found']

theorem inlinedItems_of_servesMore (serves : ServesMore files files') {items : List Tree}
    (succeeded : (inlinedItems files items).2 = none) :
    inlinedItems files' items = inlinedItems files items := by
  induction items with
  | nil => rfl
  | cons item rest ih =>
      cases isImport : rawImport? item with
      | none =>
          simp only [inlinedItems, isImport] at succeeded ⊢
          rw [ih succeeded]
      | some text =>
          cases found : literalAt files item text with
          | error error => simp [inlinedItems, isImport, found] at succeeded
          | ok literal =>
              simp only [inlinedItems, isImport, found, (serves.literalAt found).1] at succeeded ⊢
              rw [ih succeeded]

theorem hasTag_inlinedItems (files : Files) {form : Tree} (isData : form.hasTag "data" = true) :
    (Tree.list (inlinedItems files form.items).1).hasTag "data" = true := by
  obtain ⟨rest, rfl⟩ := Tree.exists_of_tag? (by simpa [Tree.hasTag] using isData)
  rw [Tree.items, inlinedItems_atom]
  rfl

theorem inlinedForms_other {form : Tree} (isOther : ¬ form.hasTag "data" = true)
    (rest : List Tree) :
    inlinedForms files (form :: rest) =
      (form :: (inlinedForms files rest).1, (inlinedForms files rest).2) := by
  rw [inlinedForms, if_neg isOther]

theorem inlinedForms_data {form : Tree} (isData : form.hasTag "data" = true) {items : List Tree}
    (inlined : inlinedItems files form.items = (items, none)) (rest : List Tree) :
    inlinedForms files (form :: rest) =
      (.list items :: (inlinedForms files rest).1, (inlinedForms files rest).2) := by
  rw [inlinedForms, if_pos isData, inlined]

theorem inlinedForms_failed {form : Tree} (isData : form.hasTag "data" = true)
    {items : List Tree} {error : LinkError}
    (inlined : inlinedItems files form.items = (items, some error)) (rest : List Tree) :
    inlinedForms files (form :: rest) = (.list items :: rest, some error) := by
  rw [inlinedForms, if_pos isData, inlined]

/-- Inlining what is left of a module's items is inlining all of them. -/
theorem inlinedForms_resume (serves : ServesMore files files') (forms : List Tree) :
    inlinedForms files' (inlinedForms files forms).1 = inlinedForms files' forms := by
  induction forms with
  | nil => rfl
  | cons form rest ih =>
      by_cases isData : form.hasTag "data" = true
      · have isData' := hasTag_inlinedItems files isData
        have resumed := inlinedItems_resume serves form.items
        obtain ⟨items, failure, inlined⟩ : ∃ items failure,
            inlinedItems files form.items = (items, failure) := ⟨_, _, rfl⟩
        rw [inlined] at isData' resumed
        cases failure with
        | none =>
            have inlined' : inlinedItems files' form.items = (items, none) := by
              rw [inlinedItems_of_servesMore serves (by rw [inlined]), inlined]
            rw [inlinedForms_data isData inlined, inlinedForms_data isData inlined',
              inlinedForms_data isData' (resumed.trans inlined'), ih]
        | some error =>
            -- All behind a form that fails is as it was, so the two runs go on alike.
            rw [inlinedForms_failed isData inlined, inlinedForms, inlinedForms, if_pos isData,
              if_pos isData', Tree.items, resumed]
      · rw [inlinedForms_other isData, inlinedForms_other isData, inlinedForms_other isData, ih]

theorem isModule_inlinedForms (files : Files) {module : Tree} (isModule : module.isModule = true) :
    (Tree.list (inlinedForms files module.items).1).isModule = true := by
  obtain ⟨rest, rfl⟩ := isModule_iff.mp isModule
  rfl

theorem noImports_inlinedForms {forms : List Tree}
    (noImports : ∀ form ∈ forms, fileImport? form = none) :
    ∀ form ∈ (inlinedForms files forms).1, fileImport? form = none := by
  induction forms with
  | nil => simp [inlinedForms]
  | cons form rest ih =>
      obtain ⟨isOther, noImportsRest⟩ := List.forall_mem_cons.mp noImports
      by_cases isData : form.hasTag "data" = true
      · have isData' := hasTag_inlinedItems files isData
        obtain ⟨items, failure, inlined⟩ : ∃ items failure,
            inlinedItems files form.items = (items, failure) := ⟨_, _, rfl⟩
        rw [inlined] at isData'
        have noImport : fileImport? (.list items) = none :=
          importAtom?_of_tag (by simpa [Tree.hasTag] using isData') (by decide)
        cases failure with
        | none =>
            rw [inlinedForms_data isData inlined]
            exact List.forall_mem_cons.mpr ⟨noImport, ih noImportsRest⟩
        | some error =>
            rw [inlinedForms_failed isData inlined]
            exact List.forall_mem_cons.mpr ⟨noImport, noImportsRest⟩
      · rw [inlinedForms_other isData]
        exact List.forall_mem_cons.mpr ⟨isOther, ih noImportsRest⟩

end Resuming

/-! ## Runs that miss a file -/

theorem outcome_inlineData {module : Tree} (isModule : module.isModule = true) (files : Files)
    (journal : Array Event) (origin : Option String) :
    SameOutcome (Pass.run .inlineData origin ⟨module, ⟨.memory files, journal⟩, none⟩)
      ⟨.list (inlinedForms files module.items).1, ⟨.memory files, journal⟩,
        (inlinedForms files module.items).2⟩ := by
  obtain ⟨journal', inlined⟩ := inlineForms_memory files
    (journal.push (.runningPass .inlineData)) module.items
  simp only [Pass.run, LinkState.report, isModule, if_true, Pass.apply, Module.inlineData, inlined]
  exact ⟨rfl, rfl⟩

/-- What expanding the imports of a module leaves does not depend on the journal,
and if it fails, the module is as it was. -/
theorem outcome_expandImports (files : Files) (origin : Option String) (module : Tree) :
    ∃ module' failure, (failure ≠ none → module' = module) ∧ ∀ journal, ∃ journal',
      Pass.run .expandImports origin ⟨module, ⟨.memory files, journal⟩, none⟩ =
        ⟨module', ⟨.memory files, journal'⟩, failure⟩ := by
  by_cases isModule : module.isModule = true
  · have room := le_refl (origin.toList.length + (pathsLeft files origin.toList).card)
    obtain ⟨outcome, run⟩ := exists_expansionRun room module.items
    cases outcome with
    | error error =>
        refine ⟨module, some error, fun _ => rfl, fun journal => ?_⟩
        obtain ⟨journal', expands⟩ := expandImports_of_run run
          (journal.push (.runningPass .expandImports))
        refine ⟨journal', ?_⟩
        simp only [Pass.run, LinkState.report, isModule, if_true, Pass.apply, EStateM.run, expands,
          Except.map, finished]
    | ok expanded =>
        refine ⟨.list expanded, none, by simp, fun journal => ?_⟩
        obtain ⟨journal', expands⟩ := expandImports_of_run run
          (journal.push (.runningPass .expandImports))
        refine ⟨journal', ?_⟩
        simp only [Pass.run, LinkState.report, isModule, if_true, Pass.apply, EStateM.run, expands,
          Except.map, finished]
  · refine ⟨module, some (.notAModule .expandImports), fun _ => rfl, fun journal => ?_⟩
    refine ⟨journal.push (.runningPass .expandImports), ?_⟩
    simp [Pass.run, LinkState.report, LinkState.fail, isModule]

namespace Link

variable {origin : Option String} {path : String}

/-- A run of passes that read no files misses none. -/
theorem runPasses_ne_importNotFound {passes : List Pass}
    (noFiles : ∀ pass ∈ passes, ¬ pass.ReadsFiles) {state : LinkState}
    (otherwise : state.failure ≠ some (.importNotFound path)) :
    (runPasses origin passes state).failure ≠ some (.importNotFound path) := by
  induction passes generalizing state with
  | nil => exact otherwise
  | cons pass rest ih =>
      obtain ⟨noFile, noFilesRest⟩ := List.forall_mem_cons.mp noFiles
      cases failed : state.failure with
      | some error =>
          rw [runPasses_of_failure failed]
          exact otherwise
      | none =>
          rw [runPasses_cons failed]
          refine ih noFilesRest fun missed => ?_
          cases Pass.fault_of_run failed missed with
          | imports readsFiles _ => exact noFile readsFiles
          | sizeMemories fault => cases fault
          | mergeStarts fault => cases fault

/-- A run that misses a file behind the imports leaves a module with a part of
its data inlined. -/
theorem left_of_missing {inlining others : List Pass}
    (isInlining : inlining = [] ∨ inlining = [.inlineData])
    (noFiles : ∀ pass ∈ others, ¬ pass.ReadsFiles) {files : Files} {journal : Array Event}
    {module : Tree}
    (missed : (runPasses origin (inlining ++ others)
      ⟨module, ⟨.memory files, journal⟩, none⟩).failure = some (.importNotFound path)) :
    inlining = [.inlineData] ∧ module.isModule = true ∧
      (runPasses origin (inlining ++ others) ⟨module, ⟨.memory files, journal⟩, none⟩).tree =
        .list (inlinedForms files module.items).1 := by
  rw [runPasses_append] at missed ⊢
  have missedBefore : (runPasses origin inlining
      ⟨module, ⟨.memory files, journal⟩, none⟩).failure = some (.importNotFound path) := by
    by_contra otherwise
    exact runPasses_ne_importNotFound noFiles otherwise missed
  rw [runPasses_of_failure missedBefore]
  rcases isInlining with rfl | rfl
  · cases missedBefore
  · have isModule : module.isModule = true := by
      by_contra notModule
      simp [runPasses, Pass.run, LinkState.report, LinkState.fail, notModule] at missedBefore
    exact ⟨rfl, isModule, (outcome_inlineData isModule files journal origin).tree⟩

/-- From a module with a part of its data inlined a run ends as from the
module. -/
theorem sameOutcome_inlined {files files' : Files} (serves : ServesMore files files')
    {module : Tree} (isModule : module.isModule = true) {others : List Pass}
    (noFiles : ∀ pass ∈ others, ¬ pass.ReadsFiles) (journal journal' : Array Event) :
    SameOutcome
      (runPasses origin ([.inlineData] ++ others)
        ⟨.list (inlinedForms files module.items).1, ⟨.memory files', journal⟩, none⟩)
      (runPasses origin ([.inlineData] ++ others)
        ⟨module, ⟨.memory files', journal'⟩, none⟩) := by
  have left := outcome_inlineData (isModule_inlinedForms files isModule) files' journal origin
  have whole := outcome_inlineData isModule files' journal' origin
  have resumed := inlinedForms_resume serves module.items
  rw [runPasses_append, runPasses_append]
  refine SameOutcome.runPasses ⟨?_, ?_⟩ noFiles origin
  · exact left.tree.trans ((congrArg (Tree.list ·.1) resumed).trans whole.tree.symm)
  · exact left.failure.trans ((congrArg Prod.snd resumed).trans whole.failure.symm)

/-- Behind the imports, a run ends alike whatever the journal is. -/
theorem sameOutcome_journals {inlining others : List Pass}
    (isInlining : inlining = [] ∨ inlining = [.inlineData])
    (noFiles : ∀ pass ∈ others, ¬ pass.ReadsFiles) (files : Files) (module : Tree)
    (journal journal' : Array Event) :
    SameOutcome
      (runPasses origin (inlining ++ others) ⟨module, ⟨.memory files, journal⟩, none⟩)
      (runPasses origin (inlining ++ others) ⟨module, ⟨.memory files, journal'⟩, none⟩) := by
  rw [runPasses_append, runPasses_append]
  refine SameOutcome.runPasses ?_ noFiles origin
  rcases isInlining with rfl | rfl
  · exact ⟨rfl, rfl⟩
  · by_cases isModule : module.isModule = true
    · have first := outcome_inlineData isModule files journal origin
      have second := outcome_inlineData isModule files journal' origin
      exact ⟨first.tree.trans second.tree.symm, first.failure.trans second.failure.symm⟩
    · simp only [runPasses, Pass.run, LinkState.report, isModule]
      exact ⟨rfl, rfl⟩

/-- With the imports in front, too. -/
theorem sameOutcome_expanding {inlining others : List Pass}
    (isInlining : inlining = [] ∨ inlining = [.inlineData])
    (noFiles : ∀ pass ∈ others, ¬ pass.ReadsFiles) (files : Files) (tree : Tree)
    (journal journal' : Array Event) :
    SameOutcome
      (runPasses origin (inlining ++ others)
        (Pass.run .expandImports origin ⟨tree, ⟨.memory files, journal⟩, none⟩))
      (runPasses origin (inlining ++ others)
        (Pass.run .expandImports origin ⟨tree, ⟨.memory files, journal'⟩, none⟩)) := by
  obtain ⟨module, failure, -, expanding⟩ := outcome_expandImports files origin tree
  obtain ⟨between, first⟩ := expanding journal
  obtain ⟨between', second⟩ := expanding journal'
  rw [first, second]
  cases failure with
  | some error =>
      rw [runPasses_of_failure rfl, runPasses_of_failure rfl]
      exact ⟨rfl, rfl⟩
  | none => exact sameOutcome_journals isInlining noFiles files module between between'

theorem run_expandImports_of_settled {module : Tree} (isModule : module.isModule = true)
    (settled : Pass.Settled .expandImports module) (store : FileStore) (journal : Array Event) :
    Pass.run .expandImports origin ⟨module, ⟨store, journal⟩, none⟩ =
      ⟨module, ⟨store, journal.push (.runningPass .expandImports)⟩, none⟩ := by
  simp only [Pass.run, LinkState.report, isModule, if_true, Pass.apply, EStateM.run,
    Pass.expandImports_of_settled settled isModule]

/-- A link that misses a file can be tried again: with every store that has all
files of the first one, linking the tree that was left ends like linking the
tree, with the same result or the same failure. -/
theorem link_left_sameOutcome_link (selected : Pass → Bool) (origin : Option String)
    (files files' : Files) (journal journal' journal'' : Array Event) (tree : Tree) (path : String)
    (serves : ServesMore files files')
    (missed : (link (Pass.all.filter selected) origin ⟨.memory files, journal⟩ tree).failure =
      some (.importNotFound path)) :
    let left := (link (Pass.all.filter selected) origin ⟨.memory files, journal⟩ tree).tree
    SameOutcome (link (Pass.all.filter selected) origin ⟨.memory files', journal'⟩ left)
      (link (Pass.all.filter selected) origin ⟨.memory files', journal''⟩ tree) := by
  intro left
  obtain ⟨inlining, others, passes_eq, isInlining, noFiles⟩ := Pass.filter_all selected
  simp only [left]
  rw [passes_eq] at missed ⊢
  unfold link at missed ⊢
  cases expands : selected .expandImports with
  | false =>
      rw [List.filter_cons_of_neg (by simp [expands]), List.filter_nil, List.nil_append] at missed ⊢
      obtain ⟨rfl, isModule, left_eq⟩ := left_of_missing isInlining noFiles missed
      rw [left_eq]
      exact sameOutcome_inlined serves isModule noFiles journal' journal''
  | true =>
      rw [List.filter_cons_of_pos (by simp [expands]), List.filter_nil, List.singleton_append]
        at missed ⊢
      obtain ⟨module, failure, unchanged, expanding⟩ := outcome_expandImports files origin tree
      obtain ⟨between, expanding⟩ := expanding journal
      have step : ∀ (start : Tree) (session : Session),
          runPasses origin (.expandImports :: (inlining ++ others)) ⟨start, session, none⟩ =
            runPasses origin (inlining ++ others)
              (Pass.run .expandImports origin ⟨start, session, none⟩) :=
        fun _ _ => runPasses_cons rfl origin _ _
      simp only [step, expanding] at missed ⊢
      cases failure with
      | some error =>
          -- Nothing was expanded, so the second run starts from the tree itself.
          have stopped : runPasses origin (inlining ++ others)
              ⟨module, ⟨.memory files, between⟩, some error⟩ = ⟨module, _, some error⟩ :=
            runPasses_of_failure rfl origin _
          rw [stopped, unchanged (by simp)]
          exact sameOutcome_expanding isInlining noFiles files' tree journal' journal''
      | none =>
          obtain ⟨rfl, isModule', left_eq⟩ := left_of_missing isInlining noFiles missed
          have succeeded : (Pass.run .expandImports origin
              ⟨tree, ⟨.memory files, journal⟩, none⟩).failure = none := by
            rw [expanding]
          obtain ⟨isModule, -⟩ := Pass.effect_of_run succeeded
          obtain ⟨expanded, _, inOrder, same⟩ := expands_of_run succeeded
          obtain rfl : module = .list expanded := congrArg LinkState.tree (expanding.symm.trans same)
          obtain ⟨middle, expanding'⟩ := run_of_expands isModule (serves.expands inOrder) journal''
          have settled : Pass.Settled .expandImports
              (.list (inlinedForms files (Tree.list expanded).items).1) :=
            noImports_inlinedForms inOrder.full.no_imports
          rw [left_eq, expanding',
            run_expandImports_of_settled (isModule_inlinedForms files isModule') settled]
          exact sameOutcome_inlined serves isModule' noFiles _ middle

/-- A module and a file of one byte. -/
def someBytes : Files :=
  [("lib", Text.encodeUtf8 "(module (memory 0))"), ("first", [1])]

/-- The same files and another one. -/
def allBytes : Files :=
  ("second", [2]) :: someBytes

/-- A module that imports all of them. -/
def byteModule : Tree :=
  .form "module" [.form "data" [.form "i32.const" [.atom "0"],
    .form "import" [.atom "\"first\"", .form "raw" []],
    .form "import" [.atom "\"second\"", .form "raw" []]],
    .form "import" [.atom "\"lib\"", .form "file" []]]

/-- Whether a failure is that a path is missing. -/
def isMissing (path : String) : Option LinkError → Bool
  | some (.importNotFound other) => other == path
  | _ => false

theorem eq_importNotFound_of_isMissing {failure : Option LinkError}
    (missing : isMissing path failure = true) : failure = some (.importNotFound path) := by
  unfold isMissing at missing
  split at missing
  · rw [beq_iff_eq.mp missing]
  · cases missing

theorem servesMore_allBytes : ServesMore someBytes allBytes := by
  intro path bytes found
  by_cases isSecond : path = "second"
  · subst isSecond
    cases found
  · simpa [allBytes, List.lookup, beq_false_of_ne isSecond] using found

/-- The first link inlines one file and misses the other, which is there the second
time. -/
theorem link_byteModule_again :
    let passes := Pass.all.filter fun _ => true
    let first := link passes none ⟨.memory someBytes, #[]⟩ byteModule
    let again := link passes none ⟨.memory allBytes, #[]⟩ first.tree
    first.failure = some (.importNotFound "second") ∧ first.tree ≠ byteModule ∧
      again.failure = none ∧
        SameOutcome again (link passes none ⟨.memory allBytes, #[]⟩ byteModule) := by
  have missed : (link (Pass.all.filter fun _ => true) none ⟨.memory someBytes, #[]⟩
      byteModule).failure = some (.importNotFound "second") :=
    eq_importNotFound_of_isMissing (by decide +kernel)
  refine ⟨missed, by decide +kernel, by decide +kernel, ?_⟩
  exact link_left_sameOutcome_link (fun _ => true) none someBytes allBytes #[] #[] #[] byteModule
    "second" servesMore_allBytes missed

end Link

end WatLink
