import WatLink.Proofs.ImportRoutes
import WatLink.Proofs.SettledModules

/-!
# Printable output

A tree whose atoms are complete tokens and whose tags do not start with a
semicolon is read back from its printed form.  Every pass keeps trees so, because
all that it inserts is.  So the text that a run prints stands for the tree that
linking gives, if this holds of the trees that are read from the source and from
the imported files.
-/

namespace WatLink

/-- Atoms can be read as atoms, and tags do not open block comments. -/
def printableLaw : NodeLaw where
  atom text := Lexeme.CompleteToken text.toList
  tag text := text.toList.head? ≠ some ';'

namespace Tree

theorem obeys_printableLaw_iff {tree : Tree} :
    tree.Obeys printableLaw ↔ tree.CompleteAtoms ∧ tree.PlainHeads := by
  constructor
  · intro obeys
    exact ⟨fun part member => (obeys part member).1, fun part member => (obeys part member).2⟩
  · rintro ⟨complete, plain⟩ part member
    exact ⟨complete part member, plain part member⟩

/-- A printable tree is read back from its printed form. -/
theorem parse_print_of_obeys {tree : Tree} (printable : tree.Obeys printableLaw) :
    parse tree.print = .ok tree := by
  obtain ⟨complete, plain⟩ := obeys_printableLaw_iff.mp printable
  exact (parse_eq_ok_iff_isLayout _ _).mpr (isLayout_print complete plain)

theorem parse_of_completeToken {text : String} (complete : Lexeme.CompleteToken text.toList) :
    parse text = .ok (.atom text) := by
  have print_eq : (Tree.atom text).print = text := by rw [print_eq_text, Tree.text]
  have reads := parse_print_of_obeys (obeys_atom.mpr complete : (Tree.atom text).Obeys printableLaw)
  rwa [print_eq] at reads

end Tree

theorem printableLaw_accepts {pass : Pass} {text : String} (inserts : pass.Inserts text) :
    printableLaw.Accepts text := by
  rcases inserts.isBare with bare | ⟨-, bytes, rfl⟩
  · exact ⟨bare.completeToken, bare.head_ne_semicolon⟩
  · refine ⟨StringLiteral.completeToken_ofBytes bytes, ?_⟩
    simp [printableLaw, StringLiteral.head_ofBytes]

/-! ## What a run reads -/

/-- The trees that linking a source reads: the source, and the modules of the
files that its imports lead to, if imports are expanded. -/
inductive Reads (files : Files) (passes : List Pass) (source : String) : Tree → Prop
  | source {tree : Tree} : Tree.parse source = .ok tree → Reads files passes source tree
  | file {tree module : Tree} {positions : List Nat} {path : String} :
      Tree.parse source = .ok tree → .expandImports ∈ passes →
        Route files tree.items positions path → moduleAt? files path = some module →
          Reads files passes source module

/-- What is read comes from some text. -/
theorem Reads.exists_parse {files : Files} {passes : List Pass} {source : String} {tree : Tree}
    (reads : Reads files passes source tree) : ∃ text, Tree.parse text = .ok tree := by
  cases reads with
  | source parsed => exact ⟨source, parsed⟩
  | file _ _ _ found =>
      obtain ⟨bytes, -, holds⟩ := moduleAt?_eq_some_iff.mp found
      unfold moduleOfBytes at holds
      split at holds
      · cases holds
      · rename_i text _
        split at holds
        · cases holds
        · rename_i parsed
          split at holds
          · cases holds
            exact ⟨text, parsed⟩
          · cases holds

/-- Every atom is in a tree that is read, or a pass inserts it. -/
def originLaw (files : Files) (passes : List Pass) (source : String) : NodeLaw where
  atom text := (∃ tree, Reads files passes source tree ∧ .atom text ∈ tree.subtrees) ∨
    ∃ pass ∈ passes, pass.Inserts text
  tag _ := True

theorem Reads.obeys_originLaw {files : Files} {passes : List Pass} {source : String} {tree : Tree}
    (reads : Reads files passes source tree) : tree.Obeys (originLaw files passes source) := by
  intro part member
  refine ⟨fun text isText => .inl ⟨tree, reads, ?_⟩, fun _ _ => trivial⟩
  cases part with
  | list items => simp [Tree.text?] at isText
  | atom other =>
      obtain rfl := Option.some.inj isText
      exact member

namespace Link

/-- Without imports, a run keeps a law that accepts all that its passes insert. -/
theorem obeys_of_runPasses {law : NodeLaw} {passes : List Pass} {origin : Option String}
    {state : LinkState} (noImports : .expandImports ∉ passes)
    (accepts : ∀ pass ∈ passes, ∀ text, pass.Inserts text → law.Accepts text)
    (succeeded : (runPasses origin passes state).failure = none) (obeys : state.tree.Obeys law) :
    (runPasses origin passes state).tree.Obeys law := by
  refine runPasses_induct (Tree.Obeys law) ?_ succeeded obeys
  intro pass member module module' isModule effect
  refine effect.obeys isModule (accepts pass member) fun isImport => ?_
  exact absurd (isImport ▸ member) noImports

/-- Expanding the imports of a source brings in what is read from files. -/
theorem effect_of_run_expandImports {files : Files} {passes : List Pass} {source : String}
    {journal : Array Event} {tree : Tree} {origin : Option String}
    (parsed : Tree.parse source = .ok tree) (member : .expandImports ∈ passes)
    (succeeded : (Pass.run .expandImports origin ⟨tree, ⟨.memory files, journal⟩, none⟩).failure =
      none) :
    tree.isModule = true ∧ Pass.Effect (Reads files passes source) tree .expandImports
      (Pass.run .expandImports origin ⟨tree, ⟨.memory files, journal⟩, none⟩).tree := by
  refine Pass.effect_of_run_of (fun module journal' session' _ expands => ?_) succeeded
  obtain ⟨items', rfl, expanded⟩ := expandImports_expanded expands
  obtain ⟨-, _, same, inOrder⟩ := expands_of_expandImports expands
  obtain rfl := Tree.list.inj same
  refine ⟨items', rfl, expanded.noImports, fun item inItems => ?_, expanded.first⟩
  refine (inOrder.full.mem_cases inItems).imp id ?_
  rintro ⟨positions, path, file, route, found, inFile⟩
  exact ⟨file, .file parsed member route found, inFile⟩

/-- Linking a source keeps a law that accepts all that the passes insert, if what
is read obeys it. -/
theorem obeys_of_linkSource {law : NodeLaw} {files : Files} {journal : Array Event}
    {passes : List Pass} {origin : Option String} {source : String} {linked : Tree}
    {session' : Session} (inOrder : passes.Pairwise Pass.Before)
    (accepts : ∀ pass ∈ passes, ∀ text, pass.Inserts text → law.Accepts text)
    (read : ∀ tree, Reads files passes source tree → tree.Obeys law)
    (links : linkSource passes origin source ⟨.memory files, journal⟩ = .ok linked session') :
    linked.Obeys law := by
  obtain ⟨tree, parsed, succeeded, rfl, -⟩ := linkSource_eq_ok_iff.mp links
  have obeys := read tree (.source parsed)
  -- Imports are expanded first or not at all, so what they lead to from the source is
  -- what they lead to from the tree at hand.
  by_cases isFirst : ∃ rest, passes = .expandImports :: rest
  · obtain ⟨rest, rfl⟩ := isFirst
    have notInRest : .expandImports ∉ rest := fun member =>
      absurd ((List.pairwise_cons.mp inOrder).1 _ member) (by decide)
    have notFailed : (LinkState.mk tree ⟨.memory files, journal⟩ none).failure = none := rfl
    rw [link, runPasses_cons notFailed] at succeeded ⊢
    obtain ⟨isModule, effect⟩ := effect_of_run_expandImports parsed List.mem_cons_self
      (failure_eq_none_of_runPasses succeeded)
    refine obeys_of_runPasses notInRest (fun pass member => accepts pass (by simp [member]))
      succeeded ?_
    exact effect.obeys isModule (accepts _ List.mem_cons_self) (fun _ => read) obeys
  · refine obeys_of_runPasses (fun member => isFirst ?_) accepts succeeded obeys
    obtain ⟨front, rest, rfl⟩ := List.append_of_mem member
    cases front with
    | nil => exact ⟨rest, rfl⟩
    | cons pass front =>
        have before := (List.pairwise_cons.mp inOrder).1 .expandImports (by simp)
        exact absurd before (Nat.not_lt_zero _)

theorem exists_of_selectPasses {names : List String} {passes : List Pass}
    (selects : selectPasses names = .ok passes) : ∃ selected, passes = Pass.all.filter selected := by
  unfold selectPasses Pass.select at selects
  cases asked : Pass.requested names with
  | error name => simp [asked, Except.map, Except.mapError] at selects
  | ok requested =>
      simp only [asked, Except.map, Except.mapError, Except.ok.injEq] at selects
      exact ⟨requested.contains, selects.symm⟩

theorem inOrder_of_selectPasses {names : List String} {passes : List Pass}
    (selects : selectPasses names = .ok passes) : passes.Pairwise Pass.Before := by
  obtain ⟨selected, rfl⟩ := exists_of_selectPasses selects
  exact Pass.inOrder_filter selected

/-- An empty selection prints what it reads. -/
theorem run_nil {text : String} {tree : Tree} (parsed : Tree.parse text = .ok tree)
    (origin : Option String) (session : Session) :
    run [] origin text session = .ok tree.print session :=
  run_eq_ok_iff.mpr ⟨[], tree, rfl, parsed, rfl, rfl, rfl⟩

/-- The text of a run stands for the linked tree, if no list that is read starts
with a semicolon: it parses as this tree and is not changed by a run without
passes.  Every atom of the tree was read or inserted by a pass, and whatever a
pass can insert reads as one atom. -/
theorem parse_run_output {names : List String} {passes : List Pass} {origin : Option String}
    {source output : String} {files : Files} {journal : Array Event} {linked : Tree}
    {session' session'' : Session} (selects : selectPasses names = .ok passes)
    (plain : ∀ tree, Reads files passes source tree → tree.PlainHeads)
    (runs : run names origin source ⟨.memory files, journal⟩ = .ok output session')
    (links : linkSource passes origin source ⟨.memory files, journal⟩ = .ok linked session'') :
    Tree.parse output = .ok linked ∧
      (∀ origin session, run [] origin output session = .ok output session) ∧
      (∀ text, .atom text ∈ linked.subtrees → Tree.parse text = .ok (.atom text) ∧
        ((∃ tree, Reads files passes source tree ∧ .atom text ∈ tree.subtrees) ∨
          ∃ pass ∈ passes, pass.Inserts text)) ∧
      ∀ (pass : Pass) text, pass.Inserts text → Tree.parse text = .ok (.atom text) := by
  have inOrder := inOrder_of_selectPasses selects
  have printable : linked.Obeys printableLaw := by
    refine obeys_of_linkSource inOrder (fun _ _ _ => printableLaw_accepts) ?_ links
    intro tree reads
    obtain ⟨text, parsed⟩ := reads.exists_parse
    exact Tree.obeys_printableLaw_iff.mpr ⟨Tree.completeAtoms_of_parse parsed, plain tree reads⟩
  have origins : linked.Obeys (originLaw files passes source) :=
    obeys_of_linkSource inOrder (fun pass member text inserts => ⟨.inr ⟨pass, member, inserts⟩, trivial⟩)
      (fun _ reads => reads.obeys_originLaw) links
  have output_eq : output = linked.print := by
    obtain ⟨_, _, selects', links', same⟩ := run_eq_ok_iff_linkSource.mp runs
    cases selects.symm.trans selects'
    cases links.symm.trans links'
    exact same
  have parsed : Tree.parse output = .ok linked := output_eq ▸ Tree.parse_print_of_obeys printable
  refine ⟨parsed, fun origin session => ?_, fun text member => ⟨?_, ?_⟩, fun pass text inserts => ?_⟩
  · rw [run_nil parsed, ← output_eq]
  · exact Tree.parse_of_completeToken ((printable _ member).1 text rfl)
  · exact (origins _ member).1 text rfl
  · exact Tree.parse_of_completeToken (printableLaw_accepts inserts).1

/-- A file with a start entry. -/
def startFile : Files :=
  [("lib", Text.encodeUtf8 "(module (start $b))")]

/-- A source that imports the file and has a start entry of its own. -/
def startSource : String :=
  "(module (import \"lib\" (file)) (start $a) (elem 0x2))"

/-- The tree of the source. -/
def startTree : Tree :=
  .form "module" [.form "import" [.atom "\"lib\"", .form "file" []],
    .form "start" [.atom "$a"], .form "elem" [.atom "0x2"]]

/-- The source with the file spliced in, a decimal numeral and one start entry. -/
def startOutput : String :=
  "(module (elem 2) (func $_swl_start_merger (call $b) (call $a)) (start $_swl_start_merger))"

theorem plainHeads_of_reads_startSource {passes : List Pass} {tree : Tree}
    (reads : Reads startFile passes startSource tree) : tree.PlainHeads := by
  have parsed' : Tree.parse startSource = .ok startTree := by cbv
  have found' : moduleAt? startFile "lib" =
      some (.form "module" [.form "start" [.atom "$b"]]) := by
    cbv
  cases reads with
  | source parsed =>
      cases parsed'.symm.trans parsed
      decide
  | @file _ _ _ path _ _ _ found =>
      by_cases isFile : path = "lib"
      · subst isFile
        cases found'.symm.trans found
        decide
      · have missing : moduleAt? startFile path = none := by
          simp [moduleAt?, startFile, List.lookup, beq_false_of_ne isFile]
        rw [missing] at found
        cases found

theorem parse_startOutput :
    ∃ passes linked session,
      selectPasses ["import", "numerals", "start_merge"] = .ok passes ∧
      run ["import", "numerals", "start_merge"] none startSource ⟨.memory startFile, #[]⟩ =
        .ok startOutput session ∧
      linkSource passes none startSource ⟨.memory startFile, #[]⟩ = .ok linked session ∧
      Tree.parse startOutput = .ok linked ∧
      run [] none startOutput ⟨.empty, #[]⟩ = .ok startOutput ⟨.empty, #[]⟩ ∧
      (.atom "2" ∈ linked.subtrees ∧ Tree.parse "2" = .ok (.atom "2")) ∧
      Tree.parse startIdentifier = .ok (.atom startIdentifier) := by
  have runs : ∃ session, run ["import", "numerals", "start_merge"] none startSource
      ⟨.memory startFile, #[]⟩ = .ok startOutput session := by
    refine ⟨_, run_eq_ok_iff.mpr ⟨[.expandImports, .decimalNumerals, .mergeStarts], startTree,
      rfl, ?_, ?_, ?_, rfl⟩⟩
    · cbv
    · decide +kernel
    · decide +kernel
  obtain ⟨session, runs⟩ := runs
  obtain ⟨passes, linked, selects, links, -⟩ := run_eq_ok_iff_linkSource.mp runs
  obtain ⟨parsed, unchanged, atoms, inserted⟩ := parse_run_output selects
    (fun _ reads => plainHeads_of_reads_startSource reads) runs links
  have member : .atom "2" ∈ linked.subtrees := by
    have parsed' : Tree.parse startOutput = .ok (.form "module" [.form "elem" [.atom "2"],
        startFunction startIdentifier ["$b", "$a"], .form "start" [.atom startIdentifier]]) := by
      cbv
    cases parsed'.symm.trans parsed
    decide
  exact ⟨passes, linked, session, selects, runs, links, parsed, unchanged none ⟨.empty, #[]⟩,
    ⟨member, (atoms "2" member).1⟩, inserted .mergeStarts _ .identifier⟩

end Link

end WatLink
