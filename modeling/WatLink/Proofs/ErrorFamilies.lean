import WatLink.Proofs.ConstantErrors
import WatLink.Proofs.DataSizes
import WatLink.Proofs.PrintableOutput

/-!
# Families of link errors

A run fails with an error of the linker, unless something that it reads exceeds
the limits of a conversion: an oversized atom, or a data form with more bytes
than can be counted.  Passes keep modules within the limits as long as a pass is
to come that looks at numbers.  Conversely, every oversized atom makes some run
fail in another way.
-/

namespace WatLink

/-- The family of an error. -/
def LinkError.family : LinkError → ErrorFamily
  | .undecodableSource _ => .decoding
  | .numeral _ => .value
  | .escapeBeyondWord => .overflow
  | .constant error => error.family
  | .importUnreadable _ fault => if fault.isSystemFault then .system else .value
  | _ => .linker

/-- Whether a tree goes beyond a limit, with the files that its data forms
import. -/
def Exceeds (files : Files) (tree : Tree) : Prop :=
  (∃ text, .atom text ∈ tree.subtrees ∧ Oversized text) ∨
    ∃ form ∈ tree.items, form.hasTag "data" = true ∧ 10 ^ digitLimit ≤ dataLength files form.items

/-- Whether a tree stays within the limits. -/
structure Moderate (files : Files) (tree : Tree) : Prop where
  atoms : tree.Obeys limitLaw
  data : ∀ form ∈ tree.items, form.hasTag "data" = true →
    dataLength files form.items < 10 ^ digitLimit

namespace Moderate

variable {files : Files} {tree tree' : Tree}

theorem of_not_exceeds (within : ¬ Exceeds files tree) : Moderate files tree := by
  refine ⟨fun part member => ⟨fun text isText oversized => ?_, fun _ _ => trivial⟩, ?_⟩
  · cases part with
    | list items => cases isText
    | atom other =>
        cases isText
        exact within (.inl ⟨text, member, oversized⟩)
  · intro form member isData
    by_contra large
    exact within (.inr ⟨form, member, isData, Nat.le_of_not_lt large⟩)

theorem not_oversized (moderate : Moderate files tree) {text : String}
    (member : .atom text ∈ tree.subtrees) : ¬ Oversized text :=
  (moderate.atoms _ member).1 text rfl

theorem withoutFiles (moderate : Moderate files tree) : Moderate [] tree :=
  ⟨moderate.atoms, fun form member isData =>
    (dataLength_nil_le files form.items).trans_lt (moderate.data form member isData)⟩

/-- A list of items from moderate trees is moderate. -/
theorem of_items {items : List Tree}
    (sources : ∀ item ∈ items, ∃ tree, Moderate files tree ∧ item ∈ tree.items) :
    Moderate files (.list items) := by
  refine ⟨(Tree.obeys_list_iff limitLaw_anyTag).mpr fun item member => ?_,
    fun form member isData => ?_⟩
  · obtain ⟨tree, moderate, inTree⟩ := sources item member
    exact moderate.atoms.items item inTree
  · obtain ⟨tree, moderate, inTree⟩ := sources form member
    exact moderate.data form inTree isData

/-- Rewriting keeps a tree moderate if its replacements are, and are no data. -/
theorem rewritten {keeps : Tree → Prop} {replaces : Tree → Tree → Prop}
    (moderate : Moderate [] tree) (rewritten : Rewritten keeps replaces tree tree')
    (noImports : MakesNoImports replaces)
    (replacements : ∀ item item', replaces item item' → item.Obeys limitLaw → item'.Obeys limitLaw)
    (noData : ∀ item item', replaces item item' → itemLength [] item' = 0) :
    Moderate [] tree' := by
  refine ⟨(rewritten.obeys fun item item' replaced obeys => ?_).2 moderate.atoms,
    fun form' member isData' => ?_⟩
  · exact ⟨replacements item item' replaced obeys, fun text _ => trivial⟩
  · have tagged' : form'.tag? = some "data" := by simpa [Tree.hasTag] using isData'
    obtain ⟨form, inTree, written⟩ := rewritten.exists_of_mem member
    obtain ⟨tagged, rewrittenForm⟩ :=
      Rewritten.tag_of_importWord noImports (by simp [importWords]) written tagged'
    exact (rewrittenForm.dataLength_le noData).trans_lt
      (moderate.data form inTree (by simp [Tree.hasTag, tagged]))

theorem decimalNumerals (moderate : Moderate [] tree)
    (isRewritten : Rewritten decimalReviser.Keeps decimalReviser.Replaces tree tree') :
    Moderate [] tree' := by
  refine moderate.rewritten isRewritten decimalReviser_makesNoImports ?_ ?_
  · intro item item' replaces obeys
    obtain ⟨text, inserted, rfl, spelled, rfl, -⟩ := exists_of_decimalReviser_replaces replaces
    exact Tree.obeys_atom.mpr (not_oversized_of_spelling spelled (Tree.obeys_atom.mp obeys))
  · intro item item' replaces
    obtain ⟨text, inserted, -, -, rfl, inserts⟩ := exists_of_decimalReviser_replaces replaces
    exact (inserts.isBare_of_ne (by simp)).itemLength_eq_zero []

theorem foldConstants {before : List Global} (moderate : Moderate [] tree)
    (isRewritten : Rewritten (Constant.foldReviser before).Keeps
      (Constant.foldReviser before).Replaces tree tree') : Moderate [] tree' := by
  refine moderate.rewritten isRewritten (foldReviser_makesNoImports before) ?_ ?_
  · intro item item' replaces _
    obtain ⟨type, value, -, rfl⟩ := exists_of_foldReviser_replaces replaces
    refine Tree.obeys_tagged.mpr ⟨⟨not_oversized_of_inserts (.constantTag type), trivial⟩, ?_⟩
    exact List.forall_mem_singleton.mpr
      (Tree.obeys_atom.mpr (not_oversized_of_inserts (.constant value)))
  · intro item item' replaces
    obtain ⟨type, value, -, rfl⟩ := exists_of_foldReviser_replaces replaces
    exact itemLength_nil_list _

/-- Inlining makes the files of a moderate module a part of it. -/
theorem inlineData {module : Tree} {journal : Array Event} {origin : Option String}
    (moderate : Moderate files module)
    (succeeded : (Pass.run .inlineData origin ⟨module, ⟨.memory files, journal⟩, none⟩).failure =
      none) :
    Moderate [] (Pass.run .inlineData origin ⟨module, ⟨.memory files, journal⟩, none⟩).tree := by
  obtain ⟨isModule, effect⟩ := Pass.effect_of_run succeeded
  refine ⟨effect.obeys isModule (fun text inserts => ?_) (by simp) moderate.atoms, ?_⟩
  · cases inserts with
    | data bytes => exact ⟨StringLiteral.not_oversized_ofBytes bytes, trivial⟩
  · rw [(outcome_inlineData isModule files journal origin).tree]
    intro form' member isData'
    obtain ⟨form, inModule, isData, smaller⟩ := exists_of_mem_inlinedForms member isData'
    exact smaller.trans_lt (moderate.data form inModule isData)

end Moderate

/-! ## Faults -/

/-- Whether a pass looks at the numbers of a module. -/
def Pass.ReadsNumbers (pass : Pass) : Prop :=
  pass ∈ [.decimalNumerals, .foldConstants, .sizeMemories]

theorem ImportFault.family {error : LinkError} (fault : ImportFault error) :
    error.family = .linker := by
  cases fault <;> rfl

/-- Files in memory are served, or not there. -/
theorem UnservedFault.family_memory {files : Files} {error : LinkError}
    (fault : UnservedFault (.memory files) error) : error.family = .linker := by
  obtain ⟨unserved⟩ := fault
  rename_i path fault
  cases found : files.lookup path with
  | some bytes => simp [FileStore.load, found] at unserved
  | none =>
      simp only [FileStore.load, found] at unserved
      cases unserved
      rfl

theorem UnservedFault.family_ne_decoding {store : FileStore} {error : LinkError}
    (fault : UnservedFault store error) : error.family ≠ .decoding := by
  obtain ⟨-⟩ := fault
  rename_i path fault
  cases fault with
  | missing => simp [LinkError.ofLoad, LinkError.family]
  | unreadable file fault =>
      simp only [LinkError.ofLoad, LinkError.family]
      split <;> simp

theorem MergeFault.family {error : LinkError} (fault : MergeFault error) :
    error.family = .linker := by
  cases fault <;> rfl

/-- A number that can be read but not written is oversized. -/
theorem oversized_of_writeInt {text : String} {number : Int} {fault : NumeralFault}
    (reads : parseInt text = .ok number) (unwritten : writeInt number = .error fault) :
    Oversized text := by
  obtain ⟨literal, isLiteral, short, rfl⟩ := exists_of_parseInt reads
  obtain ⟨-, long⟩ := writeInt_eq_error_iff.mp unwritten
  by_cases isDecimal : literal.radix = .decimal
  · have fewDigits : literal.digits.length ≤ digitLimit := by
      simpa [IntLiteral.isTooLong, isDecimal] using short
    have below := (IntLiteral.bounds_of_ofText? isLiteral).2 isDecimal
    have limits : 10 ^ literal.digits.length ≤ 10 ^ digitLimit :=
      Nat.pow_le_pow_right (by decide) fewDigits
    omega
  · refine .numeral ?_ isDecimal long
    rwa [IntLiteral.spanKeys_of_ofText? isLiteral, String.ofList_toList]

theorem SizingFault.family {module : Tree} {error : LinkError} (fault : SizingFault module error)
    (moderate : Moderate [] module) : error.family = .linker := by
  cases fault with
  | malformed _ _ => rfl
  | undeclared _ => rfl
  | limit _ _ _ => rfl
  | unreadable member isLiteral unread =>
      exact absurd (oversized_of_parseInt isLiteral unread) (moderate.not_oversized member)
  | unwritable member reads unwritten =>
      exact absurd (oversized_of_writeInt reads unwritten) (moderate.not_oversized member)
  | pages member isSegment unwritten =>
      obtain ⟨isData, large⟩ := large_of_pages isSegment unwritten []
      exact absurd (moderate.data _ member isData) (Nat.not_lt_of_le large)
  | escape member isLiteral beyond =>
      exact absurd (.escape isLiteral beyond) (moderate.not_oversized member)

theorem oversized_of_decimalSpelling? {text : String} {fault : NumeralFault}
    (unwritten : decimalSpelling? text = some (.error fault)) : Oversized text := by
  obtain ⟨literal, reads, notDecimal, written⟩ := exists_of_decimalSpelling? unwritten
  obtain ⟨-, long⟩ := writeInt_eq_error_iff.mp (exceptMap_eq_error_iff.mp written)
  exact .numeral reads notDecimal long

/-- A pass fails with an error of the linker, if the files that it reads are in
memory, and the module is moderate or the pass does not look at its numbers. -/
theorem Pass.Fault.family {pass : Pass} {store : FileStore} {module : Tree} {error : LinkError}
    (fault : pass.Fault store module error)
    (inMemory : pass.ReadsFiles → ∃ files, store = .memory files)
    (moderate : pass.ReadsNumbers → Moderate [] module) : error.family = .linker := by
  cases fault with
  | notAModule => rfl
  | imports readsFiles fault =>
      obtain ⟨files, rfl⟩ := inMemory readsFiles
      exact fault.elim ImportFault.family UnservedFault.family_memory
  | decimalNumerals member unwritten =>
      have within := (moderate (by simp [Pass.ReadsNumbers])).not_oversized member
      exact absurd (oversized_of_decimalSpelling? unwritten) within
  | foldConstants fails =>
      exact Constant.family_of_failsIn (moderate (by simp [Pass.ReadsNumbers])).atoms fails
  | sizeMemories fault => exact fault.family (moderate (by simp [Pass.ReadsNumbers]))
  | mergeStarts fault => exact fault.family

theorem Pass.Fault.family_ne_decoding {pass : Pass} {store : FileStore} {module : Tree}
    {error : LinkError} (fault : pass.Fault store module error) : error.family ≠ .decoding := by
  cases fault with
  | notAModule => simp [LinkError.family]
  | imports _ fault =>
      exact fault.elim (fun fault => by simp [fault.family]) UnservedFault.family_ne_decoding
  | decimalNumerals _ _ => simp [LinkError.family]
  | @foldConstants error _ => cases error <;> simp [LinkError.family, EvalError.family]
  | sizeMemories fault => cases fault <;> simp [LinkError.family]
  | mergeStarts fault => simp [fault.family]

/-! ## Runs -/

namespace Link

variable {origin : Option String} {error : LinkError}

/-- What a run of passes fails with is what one of them fails with. -/
theorem exists_fault_of_runPasses {passes : List Pass} {state : LinkState}
    (notFailed : state.failure = none)
    (failed : (runPasses origin passes state).failure = some error) :
    ∃ pass ∈ passes, ∃ store module, pass.Fault store module error := by
  induction passes generalizing state with
  | nil => simp [runPasses, notFailed] at failed
  | cons pass rest ih =>
      rw [runPasses_cons notFailed] at failed
      cases stopped : (pass.run origin state).failure with
      | some other =>
          rw [runPasses_of_failure stopped, stopped] at failed
          cases failed
          exact ⟨pass, by simp, _, state.tree, Pass.fault_of_run notFailed stopped⟩
      | none =>
          obtain ⟨later, member, fault⟩ := ih stopped failed
          exact ⟨later, List.mem_cons_of_mem pass member, fault⟩

/-- In front of a pass that looks at numbers, a pass that reads no files keeps a
module moderate. -/
theorem moderate_of_effect {loads : Tree → Prop} {pass later : Pass} {module module' : Tree}
    (effect : pass.Effect loads module module') (noFiles : ¬ pass.ReadsFiles)
    (before : pass.Before later) (readsNumbers : later.ReadsNumbers)
    (moderate : pass.ReadsNumbers → Moderate [] module) : Moderate [] module' := by
  have notLate : pass ≠ .sizeMemories ∧ pass ≠ .mergeStarts ∧ pass ≠ .sortForms := by
    simp only [Pass.ReadsNumbers, List.mem_cons, List.not_mem_nil, or_false] at readsNumbers
    rcases readsNumbers with rfl | rfl | rfl
    all_goals
      revert before
      cases pass <;> decide
  cases effect with
  | expandImports _ => exact absurd (.inl rfl) noFiles
  | inlineData _ => exact absurd (.inr rfl) noFiles
  | decimalNumerals rewritten =>
      exact (moderate (by simp [Pass.ReadsNumbers])).decimalNumerals rewritten
  | foldConstants rewritten =>
      exact (moderate (by simp [Pass.ReadsNumbers])).foldConstants rewritten
  | sizeMemories _ => exact absurd rfl notLate.1
  | mergeStarts _ => exact absurd rfl notLate.2.1
  | sortForms => exact absurd rfl notLate.2.2

/-- Passes that read no files fail with errors of the linker, if the module is
moderate or none of them looks at its numbers. -/
theorem family_of_runPasses {passes : List Pass} (inOrder : passes.Pairwise Pass.Before)
    (noFiles : ∀ pass ∈ passes, ¬ pass.ReadsFiles) {state : LinkState}
    (notFailed : state.failure = none)
    (moderate : ∀ pass ∈ passes, pass.ReadsNumbers → Moderate [] state.tree)
    (failed : (runPasses origin passes state).failure = some error) : error.family = .linker := by
  induction passes generalizing state with
  | nil => simp [runPasses, notFailed] at failed
  | cons pass rest ih =>
      obtain ⟨before, inOrderRest⟩ := List.pairwise_cons.mp inOrder
      obtain ⟨noFile, noFilesRest⟩ := List.forall_mem_cons.mp noFiles
      have moderatePass := moderate pass (by simp)
      rw [runPasses_cons notFailed] at failed
      cases stopped : (pass.run origin state).failure with
      | some other =>
          rw [runPasses_of_failure stopped, stopped] at failed
          cases failed
          exact (Pass.fault_of_run notFailed stopped).family (absurd · noFile) moderatePass
      | none =>
          refine ih inOrderRest noFilesRest stopped (fun later member readsNumbers => ?_) failed
          exact moderate_of_effect (Pass.effect_of_run stopped).2 noFile (before later member)
            readsNumbers moderatePass

/-- The same with inlining in front, for a module that is moderate with its
files. -/
theorem family_of_inlining {inlining others : List Pass}
    (isInlining : inlining = [] ∨ inlining = [.inlineData])
    (inOrder : others.Pairwise Pass.Before) (noFiles : ∀ pass ∈ others, ¬ pass.ReadsFiles)
    {files : Files} {journal : Array Event} {module : Tree} (moderate : Moderate files module)
    (failed : (runPasses origin (inlining ++ others)
      ⟨module, ⟨.memory files, journal⟩, none⟩).failure = some error) :
    error.family = .linker := by
  rcases isInlining with rfl | rfl
  · exact family_of_runPasses inOrder noFiles rfl (fun _ _ _ => moderate.withoutFiles) failed
  · rw [List.singleton_append, runPasses_cons rfl] at failed
    cases stopped : (Pass.run .inlineData origin
        ⟨module, ⟨.memory files, journal⟩, none⟩).failure with
    | some other =>
        rw [runPasses_of_failure stopped, stopped] at failed
        cases failed
        exact (Pass.fault_of_run rfl stopped).family (fun _ => ⟨files, rfl⟩)
          fun _ => moderate.withoutFiles
    | none =>
        exact family_of_runPasses inOrder noFiles stopped
          (fun _ _ _ => moderate.inlineData stopped) failed

theorem moderate_of_expandImports {files : Files} {passes : List Pass} {source : String}
    {journal : Array Event} {tree : Tree} (parsed : Tree.parse source = .ok tree)
    (member : .expandImports ∈ passes)
    (moderate : ∀ tree, Reads files passes source tree → Moderate files tree)
    (succeeded : (Pass.run .expandImports origin ⟨tree, ⟨.memory files, journal⟩, none⟩).failure =
      none) :
    Moderate files
      (Pass.run .expandImports origin ⟨tree, ⟨.memory files, journal⟩, none⟩).tree := by
  obtain ⟨-, effect⟩ := effect_of_run_expandImports parsed member succeeded
  generalize (Pass.run .expandImports origin ⟨tree, ⟨.memory files, journal⟩, none⟩).tree = module
    at effect
  cases effect with
  | expandImports expanded =>
      refine .of_items fun item inItems => ?_
      rcases expanded.sources item inItems with own | ⟨file, reads, inFile⟩
      · exact ⟨tree, moderate tree (.source parsed), own⟩
      · exact ⟨file, moderate file reads, inFile⟩

/-- Linking a source fails with an error of the linker, if all that is read is
moderate. -/
theorem family_of_link {names : List String} {passes : List Pass} {files : Files}
    {journal : Array Event} {source : String} {tree : Tree}
    (selects : selectPasses names = .ok passes) (parsed : Tree.parse source = .ok tree)
    (moderate : ∀ tree, Reads files passes source tree → Moderate files tree)
    (failed : (link passes origin ⟨.memory files, journal⟩ tree).failure = some error) :
    error.family = .linker := by
  obtain ⟨selected, rfl⟩ := exists_of_selectPasses selects
  obtain ⟨inlining, others, passes_eq, isInlining, noFiles⟩ := Pass.filter_all selected
  have inOrderOthers : others.Pairwise Pass.Before := by
    have inOrder := Pass.inOrder_filter selected
    rw [passes_eq] at inOrder
    exact (List.pairwise_append.mp (List.pairwise_append.mp inOrder).2.1).2.1
  cases isSelected : selected .expandImports with
  | false =>
      rw [link, passes_eq, List.filter_cons_of_neg (by simp [isSelected])] at failed
      exact family_of_inlining isInlining inOrderOthers noFiles
        (moderate tree (.source parsed)) failed
  | true =>
      have member : .expandImports ∈ Pass.all.filter selected :=
        List.mem_filter.mpr ⟨by simp [Pass.all], isSelected⟩
      obtain ⟨module, failure, -, runs⟩ := outcome_expandImports files origin tree
      obtain ⟨journal', expands⟩ := runs journal
      rw [link, passes_eq, List.filter_cons_of_pos isSelected, List.filter_nil,
        List.singleton_append, runPasses_cons rfl, expands] at failed
      cases failure with
      | some other =>
          rw [runPasses_of_failure rfl] at failed
          cases failed
          refine (Pass.fault_of_run rfl (congrArg LinkState.failure expands)).family
            (fun _ => ⟨files, rfl⟩) fun reads => ?_
          simp [Pass.ReadsNumbers] at reads
      | none =>
          refine family_of_inlining isInlining inOrderOthers noFiles ?_ failed
          have expanded := moderate_of_expandImports parsed member moderate
            (congrArg LinkState.failure expands)
          rwa [expands] at expanded

/-- A run fails if its names select no passes, if its source is malformed, or if
linking fails. -/
theorem run_eq_error_cases {names : List String} {source : String} {session session' : Session}
    (failed : run names origin source session = .error error session') :
    error.family = .linker ∨ ∃ passes tree, selectPasses names = .ok passes ∧
      Tree.parse source = .ok tree ∧ (link passes origin session tree).failure = some error := by
  unfold run at failed
  cases selects : selectPasses names with
  | error fault =>
      simp only [selects, EStateM.Result.error.injEq] at failed
      obtain ⟨name, -, unknown⟩ := mapError_eq_error_iff.mp selects
      rw [← failed.1, ← unknown]
      exact .inl rfl
  | ok passes =>
      cases parsed : Tree.parse source with
      | error fault =>
          simp only [selects, linkSource, parsed, EStateM.Result.error.injEq] at failed
          rw [← failed.1]
          exact .inl rfl
      | ok tree =>
          cases stopped : (link passes origin session tree).failure with
          | none => simp [selects, linkSource, parsed, stopped] at failed
          | some fault =>
              simp only [selects, linkSource, parsed, stopped, EStateM.Result.error.injEq] at failed
              exact .inr ⟨passes, tree, rfl, rfl, failed.1 ▸ stopped⟩

/-! ## Oversized atoms -/

/-- A pass that fails on a module fails when it is run alone on its text. -/
theorem run_eq_error_of_apply {pass : Pass} {items : List Tree} {store : FileStore}
    {journal : Array Event} (printable : (Tree.form "module" items).Obeys printableLaw)
    (failed : (pass.apply origin
      ⟨.form "module" items, ⟨store, journal.push (.runningPass pass)⟩, none⟩).failure =
        some error) :
    ∃ session, run [pass.name] origin (Tree.form "module" items).print ⟨store, journal⟩ =
      .error error session := by
  have selects : selectPasses [pass.name] = .ok [pass] := by
    cases pass <;> rfl
  have isModule : (Tree.form "module" items).isModule = true := rfl
  have stopped : (link [pass] origin ⟨store, journal⟩ (Tree.form "module" items)).failure =
      some error := by
    simp only [link, runPasses, Pass.run, LinkState.report, isModule, if_true]
    exact failed
  refine ⟨(link [pass] origin ⟨store, journal⟩ (Tree.form "module" items)).session, ?_⟩
  simp only [run, selects, linkSource, Tree.parse_print_of_obeys printable, stopped]

section Failures

variable {session : Session} {text : String}

theorem failure_of_second {ε : Type} {revise : Reviser ε} {first item : Tree} {fault : ε}
    (keeps : ∀ whole, revise whole first = none)
    (fails : ∀ whole, revise whole item = some (.error fault)) :
    ((Tree.list [first, item]).revise revise).failure = some fault := by
  simp [Tree.revise, Tree.reviseWithin, Tree.reviseItems, keeps, fails]

/-- A number that cannot be written makes rewriting numerals fail. -/
theorem failure_of_numeral {literal : IntLiteral}
    (reads : IntLiteral.ofText? (String.ofList (spanKeys text.toList).2) = some literal)
    (notDecimal : literal.radix ≠ .decimal) (long : 10 ^ digitLimit ≤ literal.value.natAbs) :
    (Pass.apply .decimalNumerals origin
      ⟨.form "module" [.atom text], session, none⟩).failure = some (.numeral .tooLongToWrite) := by
  have unwritten : writeInt literal.value = .error .tooLongToWrite :=
    writeInt_eq_error_iff.mpr ⟨rfl, long⟩
  have spelled : decimalSpelling? text = some (.error .tooLongToWrite) := by
    simp [decimalSpelling?, reads, notDecimal, unwritten, Except.map]
  have notString : isStringLiteral text = false := by
    refine Bool.eq_false_iff.mpr fun isString => ?_
    have starts := head?_of_unquoted? (if_pos isString : unquoted? text = some _)
    obtain ⟨rest, text_eq⟩ := List.head?_eq_some_iff.mp starts
    have noKeys : (spanKeys text.toList).2 = text.toList := by
      rw [text_eq]
      rfl
    rw [noKeys, String.ofList_toList,
      IntLiteral.ofText?_eq_none starts (by decide) (by decide)] at reads
    cases reads
  have revised : (Tree.form "module" [.atom text]).decimalNumerals.failure =
      some .tooLongToWrite :=
    failure_of_second (fun _ => rfl)
      fun _ => by simp [decimalReviser, notString, spelled, Except.map]
  simp only [Pass.apply, LinkState.adopt, revised, LinkState.fail]

/-- A literal without a nearest number makes folding fail. -/
theorem failure_of_literal {fault : FloatFault}
    (tooLarge : Constant.literal (.float .double) text = .error (.tooLarge fault)) :
    (Pass.apply .foldConstants origin ⟨.form "module"
      [.form "f64.constexpr" [.form "f64.const" [.atom text]]], session, none⟩).failure =
        some (.constant (.tooLarge fault)) := by
  have isConstexpr : Constant.constexprType? "f64.constexpr" = some "f64" := by decide
  have noConstexpr : Constant.constexprType? "f64.const" = none := by decide
  have isDouble : ValueType.ofName? "f64" = some (.float .double) := by decide
  have isConst : Constant.instruction? "f64.const" = some (.float .double, "const") := by decide
  have stopped : ∀ globals, Constant.evaluate globals
      (.form "f64.constexpr" [.form "f64.const" [.atom text]]) = .error (.tooLarge fault) := by
    intro globals
    simp [Constant.evaluate, Tree.form, Constant.eval, isConstexpr, noConstexpr, isDouble, isConst,
      tooLarge, bind, Except.bind]
  have asks : Constant.constexprName? (.form "f64.constexpr" [.form "f64.const" [.atom text]]) =
      some "f64" := isConstexpr
  have revised : (Module.foldConstants (.form "module"
      [.form "f64.constexpr" [.form "f64.const" [.atom text]]])).failure =
        some (.tooLarge fault) := by
    refine failure_of_second (fun _ => rfl) (fun whole => ?_)
    simp only [Constant.foldReviser, asks, stopped, Option.map_some, Except.map]
  simp only [Pass.apply, LinkState.adopt, revised, LinkState.fail]

theorem ofForm?_of_offset {form expression : Tree} (isData : form.hasTag "data" = true)
    (noMemory : form.find? ["memory"] = none) (found : offsetExpression? form = some expression) :
    Segment.ofForm? form = (do
      let size ← segmentSize form
      let offset ← (constantOffset expression).mapError LinkError.numeral
      .ok (some ⟨form, "0", offset, size⟩)) := by
  simp only [Segment.ofForm?, isData, if_true, noMemory, found]
  rfl

theorem failure_of_segment {items : List Tree}
    (malformed : Segment.ofForm? (.form "data" items) = .error error) :
    (Pass.apply .sizeMemories origin
      ⟨.form "module" [.form "data" items], session, none⟩).failure = some error := by
  have forms_eq : (Tree.form "module" [.form "data" items]).forms = [.form "data" items] := rfl
  simp only [Pass.apply, Module.sizeMemories, forms_eq, measureForms, measureForm, malformed]

end Failures

/-- Whether a text among the atoms of some source makes a run fail with an error
that is not the linker's. -/
def Breaks (text : String) : Prop :=
  ∃ names source tree error session, Tree.parse source = .ok tree ∧ .atom text ∈ tree.subtrees ∧
    run names none source ⟨.empty, #[]⟩ = .error error session ∧ error.family ≠ .linker

theorem obeys_form {tag : String} {items : List Tree} (parsed : Tree.parse tag = .ok (.atom tag))
    (plain : tag.toList.head? ≠ some ';') (obeysItems : ∀ item ∈ items, item.Obeys printableLaw) :
    (Tree.form tag items).Obeys printableLaw := by
  have complete := Tree.completeAtoms_of_parse parsed _ (Tree.mem_subtrees_self _) tag rfl
  exact Tree.obeys_tagged.mpr ⟨⟨complete, plain⟩, obeysItems⟩

section Breaks

variable {text : String}

theorem breaks_of_apply {pass : Pass} {items : List Tree}
    (member : .atom text ∈ (Tree.form "module" items).subtrees)
    (obeysItems : ∀ item ∈ items, item.Obeys printableLaw)
    (failed : (pass.apply none
      ⟨.form "module" items, ⟨.empty, Array.push #[] (.runningPass pass)⟩, none⟩).failure =
        some error)
    (foreign : error.family ≠ .linker) : Breaks text := by
  have printable : (Tree.form "module" items).Obeys printableLaw :=
    obeys_form (by cbv) (by decide) obeysItems
  obtain ⟨session, runs⟩ := run_eq_error_of_apply printable failed
  exact ⟨_, _, _, error, session, Tree.parse_print_of_obeys printable, member, runs, foreign⟩

variable (complete : Lexeme.CompleteToken text.toList)

include complete

theorem breaks_of_tooLong {literal : IntLiteral} (reads : IntLiteral.ofText? text = some literal)
    (isTooLong : literal.isTooLong = true) : Breaks text := by
  have isLiteral : isIntLiteral text = true := Option.isSome_iff_exists.mpr ⟨literal, reads⟩
  have unread : parseInt text = .error (.tooLongToRead literal.digits.length) := by
    simp [parseInt, reads, isTooLong]
  have offset : (Tree.form "i32.const" [.atom text]).Obeys printableLaw :=
    obeys_form (by cbv) (by decide) (List.forall_mem_singleton.mpr (Tree.obeys_atom.mpr complete))
  have segment : (Tree.form "data" [.form "i32.const" [.atom text]]).Obeys printableLaw :=
    obeys_form (by cbv) (by decide) (List.forall_mem_singleton.mpr offset)
  have beyond : constantOffset (.form "i32.const" [.atom text]) =
      .error (.tooLongToRead literal.digits.length) := by
    simp [Tree.form, constantOffset, offsetOfWords, constantWidth?, isLiteral, unread, Except.map]
  have malformed : Segment.ofForm? (.form "data" [.form "i32.const" [.atom text]]) =
      .error (.numeral (.tooLongToRead literal.digits.length)) := by
    rw [ofForm?_of_offset rfl rfl rfl, beyond]
    rfl
  exact breaks_of_apply (by simp [Tree.form, Tree.subtrees, Tree.subtreesOfItems])
    (List.forall_mem_singleton.mpr segment) (failure_of_segment malformed)
    (by simp [LinkError.family])

theorem breaks_of_escape {body : String} (isLiteral : unquoted? text = some body)
    (beyond : StringLiteral.byteLength body = .error .negativeBeyondWord) : Breaks text := by
  have offset : (Tree.form "i32.const" [.atom "0"]).Obeys printableLaw := by
    have zero : IsBare "0" := .of_all (by decide) (by decide)
    exact obeys_form (by cbv) (by decide)
      (List.forall_mem_singleton.mpr (Tree.obeys_atom.mpr zero.completeToken))
  have segment : (Tree.form "data" [.form "i32.const" [.atom "0"], .atom text]).Obeys
      printableLaw :=
    obeys_form (by cbv) (by decide) (List.forall_mem_cons.mpr
      ⟨offset, List.forall_mem_singleton.mpr (Tree.obeys_atom.mpr complete)⟩)
  have malformed : Segment.ofForm? (.form "data" [.form "i32.const" [.atom "0"], .atom text]) =
      .error .escapeBeyondWord := by
    have unmeasured : segmentSize (.form "data" [.form "i32.const" [.atom "0"], .atom text]) =
        .error .escapeBeyondWord := by
      have atoms_eq : (Tree.form "data" [.form "i32.const" [.atom "0"], .atom text]).atoms =
          [text] := rfl
      simp [segmentSize, atoms_eq, literalsLength, isLiteral, beyond]
    rw [ofForm?_of_offset rfl rfl rfl, unmeasured]
    rfl
  exact breaks_of_apply (by simp [Tree.form, Tree.subtrees, Tree.subtreesOfItems])
    (List.forall_mem_singleton.mpr segment) (failure_of_segment malformed)
    (by simp [LinkError.family])

theorem breaks_of_literal {fault : FloatFault}
    (tooLarge : Constant.literal (.float .double) text = .error (.tooLarge fault)) :
    Breaks text := by
  have constant : (Tree.form "f64.const" [.atom text]).Obeys printableLaw :=
    obeys_form (by cbv) (by decide) (List.forall_mem_singleton.mpr (Tree.obeys_atom.mpr complete))
  have expression : (Tree.form "f64.constexpr" [.form "f64.const" [.atom text]]).Obeys
      printableLaw := obeys_form (by cbv) (by decide) (List.forall_mem_singleton.mpr constant)
  exact breaks_of_apply (by simp [Tree.form, Tree.subtrees, Tree.subtreesOfItems])
    (List.forall_mem_singleton.mpr expression) (failure_of_literal tooLarge)
    (by simp [LinkError.family, EvalError.family])

/-- Every oversized text that can be an atom breaks some run. -/
theorem breaks_of_oversized (oversized : Oversized text) : Breaks text := by
  cases oversized with
  | digits reads isTooLong => exact breaks_of_tooLong complete reads isTooLong
  | numeral reads notDecimal long =>
      exact breaks_of_apply (by simp [Tree.form, Tree.subtrees, Tree.subtreesOfItems])
        (List.forall_mem_singleton.mpr (Tree.obeys_atom.mpr complete))
        (failure_of_numeral reads notDecimal long) (by simp [LinkError.family])
  | @integer literal reads noNearest =>
      by_cases isTooLong : literal.isTooLong = true
      · exact breaks_of_tooLong complete reads isTooLong
      · have tooLarge : Constant.literal (.float .double) text =
            .error (.tooLarge .integerTooLarge) := by
          simp [Constant.literal, isIntLiteral, parseInt, reads, isTooLong, Binary64.ofInteger,
            noNearest]
        exact breaks_of_literal complete tooLarge
  | hexadecimal noInteger tooLarge =>
      have tooLarge' : Constant.literal (.float .double) text =
          .error (.tooLarge .hexadecimalTooLarge) := by
        simp [Constant.literal, isIntLiteral, noInteger, tooLarge]
      exact breaks_of_literal complete tooLarge'
  | escape isLiteral beyond => exact breaks_of_escape complete isLiteral beyond

end Breaks

/-- No error of a run is one of decoding, and one that is not the linker's comes
from a tree that is read and exceeds a limit.  Every oversized atom gives rise to
such an error. -/
theorem exceeds_of_run_error_and_breaks (names : List String) (origin : Option String)
    (source : String) (files : Files) (journal : Array Event) :
    (∀ error session, run names origin source ⟨.memory files, journal⟩ = .error error session →
      error.family ≠ .decoding ∧
        (error.family ≠ .linker → ∃ passes tree, selectPasses names = .ok passes ∧
          Reads files passes source tree ∧ Exceeds files tree)) ∧
      ∀ text, Lexeme.CompleteToken text.toList → Oversized text → Breaks text := by
  refine ⟨fun error session failed => ?_, fun text complete => breaks_of_oversized complete⟩
  rcases run_eq_error_cases failed with isOwn | ⟨passes, tree, selects, parsed, stopped⟩
  · exact ⟨by simp [isOwn], fun foreign => absurd isOwn foreign⟩
  · refine ⟨?_, fun foreign => ⟨passes, ?_⟩⟩
    · obtain ⟨pass, -, store, module, fault⟩ := exists_fault_of_runPasses rfl stopped
      exact fault.family_ne_decoding
    · by_contra within
      refine foreign (family_of_link selects parsed (fun other reads => ?_) stopped)
      exact .of_not_exceeds fun exceeds => within ⟨other, selects, reads, exceeds⟩

/-- A source with a hexadecimal number that is too large. -/
def largeConstant : String :=
  "(module (f64.constexpr (f64.const 0x1p1024)))"

/-- The tree of the source. -/
def largeConstantTree : Tree :=
  .form "module" [.form "f64.constexpr" [.form "f64.const" [.atom "0x1p1024"]]]

theorem run_largeConstant :
    ∃ session, run ["constexpr"] none largeConstant ⟨.memory [], #[]⟩ =
        .error (.constant (.tooLarge .hexadecimalTooLarge)) session ∧
      (∃ passes tree, selectPasses ["constexpr"] = .ok passes ∧
        Reads [] passes largeConstant tree ∧ Exceeds [] tree) ∧
      Breaks "0x1p1024" := by
  have parsed : Tree.parse largeConstant = .ok largeConstantTree := by cbv
  have tooLarge : Constant.literal (.float .double) "0x1p1024" =
      .error (.tooLarge .hexadecimalTooLarge) := rfl
  have complete : Lexeme.CompleteToken "0x1p1024".toList :=
    Tree.completeAtoms_of_parse parsed (.atom "0x1p1024") (by decide +kernel) _ rfl
  have printable : largeConstantTree.Obeys printableLaw :=
    Tree.obeys_printableLaw_iff.mpr ⟨Tree.completeAtoms_of_parse parsed, by decide +kernel⟩
  have stopped : (Pass.apply .foldConstants none ⟨largeConstantTree, ⟨.memory [],
      Array.push #[] (.runningPass .foldConstants)⟩, none⟩).failure =
        some (.constant (.tooLarge .hexadecimalTooLarge)) := failure_of_literal tooLarge
  obtain ⟨session, failed⟩ := run_eq_error_of_apply printable stopped
  have print_eq : largeConstantTree.print = largeConstant := by decide +kernel
  have source_eq : (Tree.form "module" _).print = largeConstant := print_eq
  rw [source_eq] at failed
  have foreign : (LinkError.constant (.tooLarge .hexadecimalTooLarge)).family ≠ .linker := by
    decide
  obtain ⟨causes, breaks⟩ := exceeds_of_run_error_and_breaks ["constexpr"] none largeConstant [] #[]
  refine ⟨session, failed, (causes _ _ failed).2 foreign, breaks _ complete ?_⟩
  exact .hexadecimal (by decide +kernel) (by decide +kernel)

end Link

end WatLink
