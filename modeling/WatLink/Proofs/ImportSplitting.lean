import WatLink.Proofs.ExpansionRun
import WatLink.Proofs.FileInquiries
import WatLink.Proofs.ImportRoutes
import WatLink.Proofs.PassOutcome

/-!
# Splitting a module into files

Moving a block of forms of a module into a file of its own, and importing that
file in their place, does not change what linking gives.  The new file has to
be at a path that nothing else names; then the expansions of all other items
neither read it nor meet it on a chain, and the block expands in the new file to
what it expanded to before.  Behind the expansion only raw imports look at
files, and they do not name the path either.
-/

namespace WatLink

/-- Whether a top-level item names a path: it imports the file there, or it is a
data form that inlines it. -/
def Names (item : Tree) (path : String) : Prop :=
  ImportsFile item path ∨ NamesRaw item path

theorem importsFile_iff {item : Tree} {path : String} :
    ImportsFile item path ↔ (fileImport? item).bind unquoted? = some path :=
  Option.bind_eq_some_iff.symm

theorem inlinesFile_iff {item : Tree} {path : String} :
    InlinesFile item path ↔ (rawImport? item).bind unquoted? = some path :=
  Option.bind_eq_some_iff.symm

instance (item : Tree) (path : String) : Decidable (ImportsFile item path) :=
  decidable_of_iff _ importsFile_iff.symm

instance (item : Tree) (path : String) : Decidable (InlinesFile item path) :=
  decidable_of_iff _ inlinesFile_iff.symm

instance (item : Tree) (path : String) : Decidable (NamesRaw item path) :=
  inferInstanceAs (Decidable (_ ∧ _))

instance (item : Tree) (path : String) : Decidable (Names item path) :=
  inferInstanceAs (Decidable (_ ∨ _))

/-- Whether neither some items nor the files they lead to name a path. -/
structure Unused (files : Files) (items : List Tree) (path : String) : Prop where
  root : ∀ item ∈ items, ¬ Names item path
  reached : ∀ positions via module, Route files items positions via →
    moduleAt? files via = some module → ∀ item ∈ module.items, ¬ Names item path

theorem SameElsewhere.moduleAt? {path other : String} {files files' : Files}
    (same : SameElsewhere path files files') (different : other ≠ path) :
    moduleAt? files' other = moduleAt? files other := by
  rw [WatLink.moduleAt?, WatLink.moduleAt?, same other different]

theorem Route.of_subset {files : Files} {items more : List Tree} {positions : List Nat}
    {target : String} (route : Route files items positions target)
    (subset : ∀ item ∈ items, item ∈ more) :
    ∃ positions', Route files more positions' target := by
  cases route with
  | last found imports =>
      have member := subset _ (List.mem_of_getElem? found)
      obtain ⟨position, found'⟩ := List.mem_iff_getElem?.mp member
      exact ⟨[position], .last found' imports⟩
  | through found imports holds route =>
      have member := subset _ (List.mem_of_getElem? found)
      obtain ⟨position, found'⟩ := List.mem_iff_getElem?.mp member
      exact ⟨_, .through found' imports holds route⟩

namespace Unused

variable {files : Files} {items part : List Tree} {path : String}

theorem of_subset (unused : Unused files items path) (subset : ∀ item ∈ part, item ∈ items) :
    Unused files part path where
  root := fun item member => unused.root item (subset item member)
  reached := by
    intro positions via module route holds
    obtain ⟨positions', route'⟩ := route.of_subset subset
    exact unused.reached positions' via module route' holds

theorem of_import {item module : Tree} {via : String} (unused : Unused files items path)
    (member : item ∈ items) (imports : ImportsFile item via)
    (holds : moduleAt? files via = some module) : Unused files module.items path := by
  obtain ⟨position, found⟩ := List.mem_iff_getElem?.mp member
  refine ⟨unused.reached _ via module (.last found imports) holds, ?_⟩
  intro positions via' module' route
  exact unused.reached _ via' module' (.through found imports holds route)

theorem of_fullExpansion {expanded : List Tree} (unused : Unused files items path)
    (expands : FullExpansion files items expanded) : ∀ item ∈ expanded, ¬ Names item path := by
  intro item member
  rcases expands.mem_cases member with isRoot | ⟨positions, via, module, route, holds, isItem⟩
  · exact unused.root item isRoot
  · exact unused.reached positions via module route holds item isItem

end Unused

namespace Expands

variable {files files' : Files} {chain : List String} {items expanded : List Tree}

theorem append {more expandedMore : List Tree} (expands : Expands files chain items expanded)
    (expandsMore : Expands files chain more expandedMore) :
    Expands files chain (items ++ more) (expanded ++ expandedMore) := by
  induction expands with
  | nil => exact expandsMore
  | keep isOther _ ih => exact .keep isOther (ih expandsMore)
  | splice imports fresh holds inner _ _ ih =>
      rw [List.append_assoc]
      exact .splice imports fresh holds inner (ih expandsMore)

theorem append_inv {more : List Tree} (expands : Expands files chain (items ++ more) expanded) :
    ∃ first second, expanded = first ++ second ∧ Expands files chain items first ∧
      Expands files chain more second := by
  induction items generalizing expanded with
  | nil => exact ⟨[], expanded, rfl, .nil, expands⟩
  | cons item items ih =>
      cases expands with
      | keep isOther rest =>
          obtain ⟨first, second, rfl, expandsFirst, expandsSecond⟩ := ih rest
          exact ⟨_, second, rfl, .keep isOther expandsFirst, expandsSecond⟩
      | splice imports fresh holds inner rest =>
          obtain ⟨first, second, rfl, expandsFirst, expandsSecond⟩ := ih rest
          exact ⟨_, second, (List.append_assoc _ _ _).symm,
            .splice imports fresh holds inner expandsFirst, expandsSecond⟩

/-- An expansion that never names a path does not depend on what is there, nor
on whether it is on the chain. -/
theorem transport {path : String} {chain' : List String}
    (expands : Expands files chain items expanded) (unused : Unused files items path)
    (same : SameElsewhere path files files')
    (chains : ∀ other ∈ chain', other ∈ chain ∨ other = path) :
    Expands files' chain' items expanded := by
  induction expands generalizing chain' with
  | nil => exact .nil
  | keep isOther _ ih =>
      exact .keep isOther (ih (unused.of_subset (by simp_all)) chains)
  | @splice chain item module via rest _ _ imports fresh holds _ _ innerIH restIH =>
      have different : via ≠ path := by
        rintro rfl
        exact unused.root item (by simp) (.inl imports)
      -- The path may be on the new chain, but no import names it.
      have fresh' : via ∉ chain' := by
        intro member
        rcases chains via member with onChain | isPath
        · exact fresh onChain
        · exact different isPath
      refine .splice imports fresh' ((same.moduleAt? different).trans holds) (innerIH ?_ ?_)
        (restIH (unused.of_subset (by simp_all)) chains)
      · exact unused.of_import (by simp) imports holds
      · intro other member
        rcases List.mem_append.mp member with before | last
        · rcases chains other before with onChain | isPath
          · exact .inl (by simp [onChain])
          · exact .inr isPath
        · exact .inl (by simp [last])

theorem exists_of_forms (expands : Expands files chain (items.filter Tree.isList) expanded) :
    ∃ whole, Expands files chain items whole ∧ whole.filter Tree.isList = expanded := by
  induction items generalizing expanded with
  | nil =>
      cases expands
      exact ⟨[], .nil, rfl⟩
  | cons item items ih =>
      cases item with
      | atom text =>
          obtain ⟨whole, expandsItems, same⟩ := ih expands
          exact ⟨.atom text :: whole, .keep rfl expandsItems, same⟩
      | list inner =>
          rw [List.filter_cons_of_pos rfl] at expands
          cases expands with
          | keep isOther rest =>
              obtain ⟨whole, expandsItems, rfl⟩ := ih rest
              exact ⟨.list inner :: whole, .keep isOther expandsItems, rfl⟩
          | splice imports fresh holds expandsInner rest =>
              obtain ⟨whole, expandsItems, rfl⟩ := ih rest
              exact ⟨_, .splice imports fresh holds expandsInner expandsItems, by simp⟩

end Expands

/-- The import of a file by its path atom. -/
def fileImport (text : String) : Tree :=
  .form "import" [.atom text, .form "file" []]

theorem importsFile_fileImport {text path : String} (unquoted : unquoted? text = some path) :
    ImportsFile (fileImport text) path :=
  ⟨text, by simp [fileImport?, importAtom?, fileImport, Tree.form], unquoted⟩

/-- A split of a module: a block of its forms is replaced by one import of a new
file, whose module has exactly these forms, at a path that nothing else
uses. -/
structure Split (files files' : Files) (origin : Option String) (path : String)
    (module module' : Tree) (before block behind : List Tree) (text : String) : Prop where
  whole : module = .form "module" (before ++ block ++ behind)
  split : module' = .form "module" (before ++ fileImport text :: behind)
  named : unquoted? text = some path
  holds : ∃ added, moduleAt? files' path = some added ∧ added.forms = block
  sameElsewhere : SameElsewhere path files files'
  unused : Unused files module.items path
  notOrigin : origin ≠ some path

/-- A split module expands to what the whole module expands to. -/
theorem Split.expands {files files' : Files} {origin : Option String} {path text : String}
    {module module' : Tree} {before block behind expanded : List Tree}
    (split : Split files files' origin path module module' before block behind text)
    (expands : Expands files origin.toList module.items expanded) :
    Expands files' origin.toList module'.items expanded := by
  have items : module.items = (.atom "module" :: before) ++ (block ++ behind) := by
    simp [split.whole, Tree.form, Tree.items]
  have items' : module'.items = (.atom "module" :: before) ++ (fileImport text :: behind) := by
    simp [split.split, Tree.form, Tree.items]
  have unused := split.unused
  rw [items] at expands unused
  obtain ⟨front, others, rfl, expandsFront, expandsOthers⟩ := expands.append_inv
  obtain ⟨middle, back, rfl, expandsBlock, expandsBack⟩ := expandsOthers.append_inv
  have sameChain : ∀ other ∈ origin.toList, other ∈ origin.toList ∨ other = path :=
    fun other member => .inl member
  have longerChain : ∀ other ∈ origin.toList ++ [path], other ∈ origin.toList ∨ other = path :=
    fun other member => by simpa using member
  have front' := expandsFront.transport (unused.of_subset (by simp_all)) split.sameElsewhere
    sameChain
  have back' := expandsBack.transport (unused.of_subset (by simp_all)) split.sameElsewhere
    sameChain
  have block' := expandsBlock.transport (unused.of_subset (by simp_all)) split.sameElsewhere
    longerChain
  obtain ⟨added, holds, rfl⟩ := split.holds
  obtain ⟨inner, expandsInner, rfl⟩ := block'.exists_of_forms
  have fresh : path ∉ origin.toList := by
    simpa [eq_comm] using split.notOrigin
  rw [items']
  exact front'.append
    (.splice (importsFile_fileImport split.named) fresh holds expandsInner back')

/-! ## Linking a split module -/

theorem expands_of_run {files : Files} {journal : Array Event} {origin : Option String}
    {module : Tree}
    (succeeded : (Pass.run .expandImports origin
      ⟨module, ⟨.memory files, journal⟩, none⟩).failure = none) :
    ∃ expanded journal', Expands files origin.toList module.items expanded ∧
      Pass.run .expandImports origin ⟨module, ⟨.memory files, journal⟩, none⟩ =
        ⟨.list expanded, ⟨.memory files, journal'⟩, none⟩ := by
  unfold Pass.run at succeeded ⊢
  by_cases isModule : module.isModule = true
  · simp only [LinkState.report, isModule, if_true, Pass.apply, EStateM.run] at succeeded ⊢
    cases done : Module.expandImports module origin
        ⟨.memory files, journal.push (.runningPass .expandImports)⟩ with
    | error fault session => simp [done] at succeeded
    | ok tree session =>
        obtain ⟨⟨journal', rfl⟩, expanded, rfl, expands⟩ := expands_of_expandImports done
        exact ⟨expanded, journal', expands, rfl⟩
  · simp [LinkState.report, LinkState.fail, isModule] at succeeded

theorem run_of_expands {files : Files} {origin : Option String} {module : Tree}
    {expanded : List Tree} (isModule : module.isModule = true)
    (expands : Expands files origin.toList module.items expanded) (journal : Array Event) :
    ∃ journal', Pass.run .expandImports origin ⟨module, ⟨.memory files, journal⟩, none⟩ =
      ⟨.list expanded, ⟨.memory files, journal'⟩, none⟩ := by
  obtain ⟨journal', done⟩ := expandImports_of_expands expands
    (journal.push (.runningPass .expandImports))
  refine ⟨journal', ?_⟩
  simp only [Pass.run, LinkState.report, isModule, if_true, Pass.apply, EStateM.run, done]

theorem sameOutcome_inlineData {path : String} {files files' : Files}
    (same : SameElsewhere path files files') {items : List Tree}
    (unnamed : ∀ item ∈ items, ¬ Names item path) (origin : Option String)
    (journal journal' : Array Event) :
    SameOutcome (Pass.run .inlineData origin ⟨.list items, ⟨.memory files, journal⟩, none⟩)
      (Pass.run .inlineData origin ⟨.list items, ⟨.memory files', journal'⟩, none⟩) := by
  unfold Pass.run
  by_cases isModule : (Tree.list items).isModule = true
  · have unnamedData : ∀ form ∈ items, ¬ NamesRaw form path :=
      fun form member names => unnamed form member (.inr names)
    simp only [LinkState.report, isModule, if_true, Pass.apply, Module.inlineData, Tree.items,
      inlineForms_memory_eq unnamedData same _ (journal'.push (.runningPass .inlineData))]
    exact ⟨rfl, rfl⟩
  · simp only [LinkState.report, LinkState.fail, isModule]
    exact ⟨rfl, rfl⟩

/-- Linking a split module gives what linking the whole module gives, with every
selection that expands imports. -/
theorem Split.sameOutcome_link {files files' : Files} {origin : Option String}
    {path text : String} {module module' : Tree} {before block behind : List Tree}
    (split : Split files files' origin path module module' before block behind text)
    {names : List String} {passes : List Pass} (selected : Pass.select names = .ok passes)
    (expandsImports : .expandImports ∈ passes) {journal : Array Event}
    (succeeded : (Link.link passes origin ⟨.memory files, journal⟩ module).failure = none)
    (journal' : Array Event) :
    SameOutcome (Link.link passes origin ⟨.memory files, journal⟩ module)
      (Link.link passes origin ⟨.memory files', journal'⟩ module') := by
  obtain ⟨inlining, others, rfl, isInlining, noFiles⟩ :=
    Pass.select_expandImports selected expandsImports
  unfold Link.link at succeeded ⊢
  rw [Link.runPasses_cons rfl] at succeeded
  obtain ⟨expanded, middle, expands, expanding⟩ :=
    expands_of_run (Link.failure_eq_none_of_runPasses succeeded)
  have isModule' : module'.isModule = true := by
    rw [split.split]
    rfl
  obtain ⟨middle', expanding'⟩ := run_of_expands isModule' (split.expands expands) journal'
  rw [Link.runPasses_cons rfl, Link.runPasses_cons rfl, expanding, expanding',
    Link.runPasses_append, Link.runPasses_append]
  -- Only the tree of the expansion matters from here on, up to the inlined files.
  refine SameOutcome.runPasses ?_ noFiles origin
  rcases isInlining with rfl | rfl
  · exact ⟨rfl, rfl⟩
  · have unnamed := split.unused.of_fullExpansion expands.full
    exact sameOutcome_inlineData split.sameElsewhere unnamed origin _ _

theorem Split.run_eq_ok {files files' : Files} {origin : Option String}
    {path text : String} {module module' : Tree} {before block behind : List Tree}
    (split : Split files files' origin path module module' before block behind text)
    {names : List String} {passes : List Pass} (selected : Pass.select names = .ok passes)
    (expandsImports : .expandImports ∈ passes) {source source' output : String}
    (parsed : Tree.parse source = .ok module) (parsed' : Tree.parse source' = .ok module')
    {journal : Array Event} {session : Session}
    (succeeded : Link.run names origin source ⟨.memory files, journal⟩ = .ok output session)
    (journal' : Array Event) :
    ∃ session', Link.run names origin source' ⟨.memory files', journal'⟩ =
      .ok output session' := by
  have selected' : Link.selectPasses names = .ok passes := by
    rw [Link.selectPasses, selected]
    rfl
  obtain ⟨passes', tree, isSelected, isParsed, notFailed, rfl, -⟩ :=
    Link.run_eq_ok_iff.mp succeeded
  obtain rfl := Except.ok.inj (selected'.symm.trans isSelected)
  obtain rfl := Except.ok.inj (parsed.symm.trans isParsed)
  have same := split.sameOutcome_link selected expandsImports notFailed journal'
  exact ⟨_, Link.run_eq_ok_iff.mpr ⟨passes, module', selected', parsed',
    same.failure.symm.trans notFailed, by rw [same.tree], rfl⟩⟩

/-- Expanding the file imports of a module gives its full expansion.  It is the
only one, holds no file import, and consists of what the module keeps and, for
every route of imports once, of what the file at its end keeps, all as it was.
It is found if no import closes a cycle.  Hence a block of forms can be moved
into a file of its own: every run that expands imports prints the same. -/
theorem expandImports_full_and_run_split_eq :
    (∀ (files : Files) (origin : Option String) (module : Tree) (journal : Array Event),
      (∀ tree session',
        Module.expandImports module origin ⟨.memory files, journal⟩ = .ok tree session' →
          ∃ expanded routes, tree = .list expanded ∧
            (∀ other, FullExpansion files module.items other ↔ other = expanded) ∧
            (∀ item ∈ expanded, fileImport? item = none) ∧
            RouteList files module.items routes ∧
            expanded.Perm (keptItems module.items ++ contributed files routes)) ∧
      ∀ expanded, Expands files origin.toList module.items expanded →
        ∃ session', Module.expandImports module origin ⟨.memory files, journal⟩ =
          .ok (.list expanded) session') ∧
    ∀ (files files' : Files) (origin : Option String) (path text : String)
      (module module' : Tree) (before block behind : List Tree) (names : List String)
      (passes : List Pass) (source source' output : String) (journal journal' : Array Event)
      (session : Session),
      Split files files' origin path module module' before block behind text →
        Pass.select names = .ok passes → .expandImports ∈ passes →
          Tree.parse source = .ok module → Tree.parse source' = .ok module' →
            Link.run names origin source ⟨.memory files, journal⟩ = .ok output session →
              ∃ session', Link.run names origin source' ⟨.memory files', journal'⟩ =
                .ok output session' := by
  refine ⟨fun files origin module journal => ⟨?_, ?_⟩, ?_⟩
  · intro tree session' done
    obtain ⟨-, expanded, rfl, expands⟩ := expands_of_expandImports done
    obtain ⟨routes, list, perm⟩ := expands.full.exists_routes
    refine ⟨expanded, routes, rfl, fun other => ⟨?_, ?_⟩, expands.full.no_imports, list, perm⟩
    · exact fun expandsOther => expandsOther.unique expands.full
    · rintro rfl
      exact expands.full
  · intro expanded expands
    obtain ⟨journal', done⟩ := expandImports_of_expands expands journal
    exact ⟨_, done⟩
  · intro files files' origin path text module module' before block behind names passes source
      source' output journal journal' session split selected expandsImports parsed parsed'
      succeeded
    exact split.run_eq_ok selected expandsImports parsed parsed' succeeded journal'

/-- A store with one file. -/
def oneFile : Files :=
  [("a", Text.encodeUtf8 "(module $a (func))")]

/-- The same store with a file that imports the first one. -/
def twoFiles : Files :=
  ("b", Text.encodeUtf8 "(module (import \"a\" (file)) (memory 1))") :: oneFile

theorem moduleAt?_oneFile :
    moduleAt? oneFile "a" = some (.form "module" [.atom "$a", .form "func" []]) := by
  cbv

theorem moduleAt?_twoFiles :
    moduleAt? twoFiles "b" =
      some (.form "module" [fileImport "\"a\"", .form "memory" [.atom "1"]]) := by
  cbv

theorem unused_oneFile {items : List Tree} (root : ∀ item ∈ items, ¬ Names item "b") :
    Unused oneFile items "b" := by
  refine ⟨root, fun positions via module _ holds => ?_⟩
  by_cases isFirst : via = "a"
  · subst isFirst
    obtain rfl := Option.some.inj (moduleAt?_oneFile.symm.trans holds)
    decide
  · have missing : moduleAt? oneFile via = none := by
      simp [moduleAt?, oneFile, List.lookup, beq_false_of_ne isFirst]
    rw [missing] at holds
    cases holds

theorem split_oneFile :
    Split oneFile twoFiles none "b"
      (.form "module" [fileImport "\"a\"", .form "memory" [.atom "1"], fileImport "\"a\""])
      (.form "module" [fileImport "\"b\"", fileImport "\"a\""])
      [] [fileImport "\"a\"", .form "memory" [.atom "1"]] [fileImport "\"a\""] "\"b\"" where
  whole := rfl
  split := rfl
  named := by decide
  holds := ⟨_, moduleAt?_twoFiles, rfl⟩
  sameElsewhere := fun other different => by
    simp [twoFiles, List.lookup, beq_false_of_ne different]
  unused := unused_oneFile (by decide)
  notOrigin := by simp

theorem expands_twoFiles :
    Expands twoFiles [] [.atom "module", fileImport "\"b\"", fileImport "\"a\""]
      [.atom "module", .form "func" [], .form "memory" [.atom "1"], .form "func" []] := by
  have importsFirst : ImportsFile (fileImport "\"a\"") "a" := by decide
  have importsSecond : ImportsFile (fileImport "\"b\"") "b" := by decide
  have first : moduleAt? twoFiles "a" = some (.form "module" [.atom "$a", .form "func" []]) :=
    (split_oneFile.sameElsewhere.moduleAt? (by decide)).trans moduleAt?_oneFile
  have ownItems : ∀ chain, Expands twoFiles chain [.atom "$a", .form "func" []]
      [.atom "$a", .form "func" []] := fun chain => .keep rfl (.keep rfl .nil)
  have memory : Expands twoFiles ["b"] [.form "memory" [.atom "1"]] [.form "memory" [.atom "1"]] :=
    .keep rfl .nil
  have inner := Expands.splice importsFirst (by decide : "a" ∉ ["b"]) first
    (.keep rfl (ownItems _)) memory
  have behind := Expands.splice importsFirst (by decide : "a" ∉ []) first
    (.keep rfl (ownItems _)) .nil
  have through := Expands.splice importsSecond (by decide : "b" ∉ []) moduleAt?_twoFiles
    (.keep rfl inner) behind
  exact .keep rfl through

theorem run_split_oneFile :
    (∃ session, Link.run ["import"] none
      "(module (import \"a\" (file)) (memory 1) (import \"a\" (file)))"
        ⟨.memory oneFile, #[]⟩ = .ok "(module (func) (memory 1) (func))" session) ∧
    (∃ session, Link.run ["import"] none "(module (import \"b\" (file)) (import \"a\" (file)))"
      ⟨.memory twoFiles, #[]⟩ = .ok "(module (func) (memory 1) (func))" session) ∧
    FullExpansion twoFiles [.atom "module", fileImport "\"b\"", fileImport "\"a\""]
      [.atom "module", .form "func" [], .form "memory" [.atom "1"], .form "func" []] := by
  have parsed : Tree.parse "(module (import \"a\" (file)) (memory 1) (import \"a\" (file)))" =
      .ok (.form "module" [fileImport "\"a\"", .form "memory" [.atom "1"], fileImport "\"a\""]) := by
    cbv
  have parsed' : Tree.parse "(module (import \"b\" (file)) (import \"a\" (file)))" =
      .ok (.form "module" [fileImport "\"b\"", fileImport "\"a\""]) := by
    cbv
  have whole : ∃ session, Link.run ["import"] none
      "(module (import \"a\" (file)) (memory 1) (import \"a\" (file)))"
        ⟨.memory oneFile, #[]⟩ = .ok "(module (func) (memory 1) (func))" session := by
    refine ⟨_, Link.run_eq_ok_iff.mpr ⟨[.expandImports], _, rfl, parsed, ?_, ?_, rfl⟩⟩
    · decide +kernel
    · decide +kernel
  obtain ⟨session, succeeded⟩ := whole
  obtain ⟨_, expanding⟩ := (expandImports_full_and_run_split_eq.1 twoFiles none
    (.form "module" [fileImport "\"b\"", fileImport "\"a\""]) #[]).2 _ expands_twoFiles
  obtain ⟨expanded, _, same, full, -⟩ :=
    (expandImports_full_and_run_split_eq.1 _ _ _ _).1 _ _ expanding
  refine ⟨⟨session, succeeded⟩, ?_, ?_⟩
  · exact expandImports_full_and_run_split_eq.2 _ _ _ _ _ _ _ _ _ _ _ _ _ _ _ _ _ _
      split_oneFile rfl (by decide) parsed parsed' succeeded
  · exact (full _).mpr (Tree.list.inj same)

end WatLink
