import WatLink.Proofs.FileExpansion

/-!
# Runs of an expansion

Expanding goes depth first along a chain of paths and refuses a path that is on
the chain already.  `ExpansionRun` describes such a run, failures included, with
no bound but a limit on the length of its chains.  Every module with files in
memory has a run, because every file entered takes a path off those that are
left, and expanding a module gives the outcome of its run.
-/

namespace WatLink

/-- The module at a path, or why there is none. -/
def importedModule (files : Files) (path : String) : Except LinkError Tree :=
  match files.lookup path with
  | none => .error (.importNotFound path)
  | some bytes => moduleOfBytes path bytes

/-- What a run does at an item. -/
inductive ItemStep where
  | keep
  | stop (error : LinkError)
  | enter (path : String) (module : Tree)

/-- What a run behind a chain does at an item.  The chain is looked at before
the file. -/
def stepAt (files : Files) (chain : List String) (item : Tree) : ItemStep :=
  match fileImport? item with
  | none => .keep
  | some text =>
      match unquoted? text with
      | none => .stop (.malformedForm .filePath item)
      | some path =>
          if path ∈ chain then .stop (.cyclicImport (chain ++ [path]))
          else
            match importedModule files path with
            | .error error => .stop error
            | .ok module => .enter path module

theorem importedModule_eq_ok_iff {files : Files} {path : String} {module : Tree} :
    importedModule files path = .ok module ↔ moduleAt? files path = some module := by
  rw [moduleAt?_eq_some_iff, importedModule]
  cases files.lookup path with
  | none => simp
  | some bytes => simp

theorem importedModule_ne_cyclicImport (files : Files) (path : String) (chain : List String) :
    importedModule files path ≠ .error (.cyclicImport chain) := by
  unfold importedModule moduleOfBytes
  intro same
  split at same
  · cases same
  · split at same
    · cases same
    · split at same
      · cases same
      · split at same <;> cases same

theorem stepAt_cases (files : Files) (chain : List String) (item : Tree) :
    (fileImport? item = none ∧ stepAt files chain item = .keep) ∨
      (∃ text, fileImport? item = some text ∧ unquoted? text = none ∧
        stepAt files chain item = .stop (.malformedForm .filePath item)) ∨
      ∃ path, ImportsFile item path ∧
        ((path ∈ chain ∧ stepAt files chain item = .stop (.cyclicImport (chain ++ [path]))) ∨
          (path ∉ chain ∧ ∃ error, importedModule files path = .error error ∧
            stepAt files chain item = .stop error) ∨
          (path ∉ chain ∧ ∃ module, moduleAt? files path = some module ∧
            stepAt files chain item = .enter path module)) := by
  cases isImport : fileImport? item with
  | none => exact .inl ⟨rfl, by simp only [stepAt, isImport]⟩
  | some text =>
      cases unquoted : unquoted? text with
      | none => exact .inr (.inl ⟨text, rfl, unquoted, by simp only [stepAt, isImport, unquoted]⟩)
      | some path =>
          refine .inr (.inr ⟨path, ⟨text, isImport, unquoted⟩, ?_⟩)
          by_cases onChain : path ∈ chain
          · exact .inl ⟨onChain, by simp only [stepAt, isImport, unquoted, onChain, if_true]⟩
          · cases loaded : importedModule files path with
            | error error =>
                exact .inr (.inl ⟨onChain, error, rfl,
                  by simp only [stepAt, isImport, unquoted, onChain, if_false, loaded]⟩)
            | ok module =>
                exact .inr (.inr ⟨onChain, module, importedModule_eq_ok_iff.mp loaded,
                  by simp only [stepAt, isImport, unquoted, onChain, if_false, loaded]⟩)

theorem stepAt_enter {files : Files} {chain : List String} {item module : Tree} {path : String}
    (enters : stepAt files chain item = .enter path module) :
    ImportsFile item path ∧ path ∉ chain ∧ moduleAt? files path = some module := by
  rcases stepAt_cases files chain item with ⟨-, step⟩ | ⟨_, -, -, step⟩ |
      ⟨other, imports, ⟨-, step⟩ | ⟨-, _, -, step⟩ | ⟨fresh, _, holds, step⟩⟩
  all_goals
    rw [enters] at step
    cases step
  exact ⟨imports, fresh, holds⟩

theorem stepAt_eq_enter {files : Files} {chain : List String} {item module : Tree} {path : String}
    (imports : ImportsFile item path) (fresh : path ∉ chain)
    (holds : moduleAt? files path = some module) :
    stepAt files chain item = .enter path module := by
  obtain ⟨text, isImport, unquoted⟩ := imports
  simp only [stepAt, isImport, unquoted, fresh, if_false, importedModule_eq_ok_iff.mpr holds]

theorem stepAt_stop_cyclic {files : Files} {chain cycle : List String} {item : Tree}
    (stops : stepAt files chain item = .stop (.cyclicImport cycle)) :
    ∃ path, ImportsFile item path ∧ path ∈ chain ∧ cycle = chain ++ [path] := by
  rcases stepAt_cases files chain item with ⟨-, step⟩ | ⟨_, -, -, step⟩ |
      ⟨path, imports, ⟨onChain, step⟩ | ⟨-, error, failed, step⟩ | ⟨-, _, -, step⟩⟩
  all_goals
    rw [stops] at step
    cases step
  · exact ⟨path, imports, onChain, rfl⟩
  · exact absurd failed (importedModule_ne_cyclicImport files path cycle)

/-! ## Runs -/

/-- A run through items behind a chain and its outcome.  No chain of the run has
more paths than the limit. -/
inductive ExpansionRun (files : Files) (limit : Nat) :
    List String → List Tree → Except LinkError (List Tree) → Prop
  | nil {chain : List String} : ExpansionRun files limit chain [] (.ok [])
  | keep {chain : List String} {item : Tree} {rest : List Tree}
      {outcome : Except LinkError (List Tree)} :
      stepAt files chain item = .keep → ExpansionRun files limit chain rest outcome →
        ExpansionRun files limit chain (item :: rest) (outcome.map (item :: ·))
  | stop {chain : List String} {item : Tree} {rest : List Tree} {error : LinkError} :
      stepAt files chain item = .stop error →
        ExpansionRun files limit chain (item :: rest) (.error error)
  | stopInside {chain : List String} {item module : Tree} {rest : List Tree} {path : String}
      {error : LinkError} :
      stepAt files chain item = .enter path module → (chain ++ [path]).length ≤ limit →
        ExpansionRun files limit (chain ++ [path]) module.items (.error error) →
          ExpansionRun files limit chain (item :: rest) (.error error)
  | splice {chain : List String} {item module : Tree} {rest inner : List Tree} {path : String}
      {outcome : Except LinkError (List Tree)} :
      stepAt files chain item = .enter path module → (chain ++ [path]).length ≤ limit →
        ExpansionRun files limit (chain ++ [path]) module.items (.ok inner) →
          ExpansionRun files limit chain rest outcome →
            ExpansionRun files limit chain (item :: rest)
              (outcome.map (inner.filter Tree.isList ++ ·))

/-- The paths of files that are not on a chain. -/
def pathsLeft (files : Files) (chain : List String) : Finset String :=
  (files.map Prod.fst).toFinset \ chain.toFinset

theorem card_pathsLeft_enter {files : Files} {chain : List String} {path : String} {module : Tree}
    (fresh : path ∉ chain) (holds : moduleAt? files path = some module) :
    (pathsLeft files (chain ++ [path])).card + 1 = (pathsLeft files chain).card := by
  obtain ⟨bytes, found, -⟩ := moduleAt?_eq_some_iff.mp holds
  have isPath : path ∈ (files.map Prod.fst).toFinset := by
    obtain ⟨before, behind, rfl, -⟩ := List.lookup_eq_some_iff.mp found
    simp
  have isLeft : path ∈ pathsLeft files chain := by
    simp only [pathsLeft, Finset.mem_sdiff, List.mem_toFinset] at isPath ⊢
    exact ⟨isPath, fresh⟩
  have erased : pathsLeft files (chain ++ [path]) = (pathsLeft files chain).erase path := by
    ext other
    simp only [pathsLeft, Finset.mem_sdiff, Finset.mem_erase, List.mem_toFinset, List.mem_append,
      List.mem_singleton]
    tauto
  rw [erased, Finset.card_erase_add_one isLeft]

theorem exists_expansionRun_of_enter {files : Files} {limit : Nat} {chain : List String}
    (room : chain.length + (pathsLeft files chain).card ≤ limit)
    (enters : ∀ path module, path ∉ chain → moduleAt? files path = some module →
      ∃ outcome, ExpansionRun files limit (chain ++ [path]) module.items outcome)
    (items : List Tree) : ∃ outcome, ExpansionRun files limit chain items outcome := by
  induction items with
  | nil => exact ⟨.ok [], .nil⟩
  | cons item rest ih =>
      obtain ⟨outcome, runRest⟩ := ih
      cases step : stepAt files chain item with
      | keep => exact ⟨_, .keep step runRest⟩
      | stop error => exact ⟨_, .stop step⟩
      | enter path module =>
          obtain ⟨-, fresh, holds⟩ := stepAt_enter step
          have fewer := card_pathsLeft_enter fresh holds
          have short : (chain ++ [path]).length ≤ limit := by
            rw [List.length_append, List.length_singleton]
            omega
          obtain ⟨inside, runInside⟩ := enters path module fresh holds
          cases inside with
          | error error => exact ⟨_, .stopInside step short runInside⟩
          | ok inner => exact ⟨_, .splice step short runInside runRest⟩

/-- Behind every chain there is a run.  A path that is entered leaves fewer
paths to enter, so the chain never outgrows the files. -/
theorem exists_expansionRun {files : Files} {limit : Nat} {chain : List String}
    (room : chain.length + (pathsLeft files chain).card ≤ limit) (items : List Tree) :
    ∃ outcome, ExpansionRun files limit chain items outcome := by
  induction left : (pathsLeft files chain).card using Nat.strong_induction_on
    generalizing chain items with
  | _ left ih =>
      refine exists_expansionRun_of_enter room (fun path module fresh holds => ?_) items
      have fewer := card_pathsLeft_enter fresh holds
      have roomInside : (chain ++ [path]).length + (pathsLeft files (chain ++ [path])).card ≤
          limit := by
        rw [List.length_append, List.length_singleton]
        omega
      exact ih _ (by omega) roomInside module.items rfl

/-- Items that have a full expansion behind a chain have a run that finds it. -/
theorem Expands.run {files : Files} {chain : List String} {items expanded : List Tree}
    (expands : Expands files chain items expanded) {limit : Nat}
    (room : chain.length + (pathsLeft files chain).card ≤ limit) :
    ExpansionRun files limit chain items (.ok expanded) := by
  induction expands with
  | nil => exact .nil
  | keep isOther _ ih => exact .keep (by simp only [stepAt, isOther]) (ih room)
  | @splice chain item module path _ _ _ imports fresh holds _ _ insideIH restIH =>
      have fewer := card_pathsLeft_enter fresh holds
      have longer : (chain ++ [path]).length = chain.length + 1 := by simp
      exact .splice (stepAt_eq_enter imports fresh holds) (by omega) (insideIH (by omega))
        (restIH room)

/-! ## Expanding follows the run -/

/-- The result of a computation with files in memory. -/
def finished {α : Type} (files : Files) (journal : Array Event) :
    Except LinkError α → EStateM.Result LinkError Session α
  | .ok value => .ok value ⟨.memory files, journal⟩
  | .error error => .error error ⟨.memory files, journal⟩

theorem finished_injective {α : Type} {files : Files} {journal journal' : Array Event}
    {outcome outcome' : Except LinkError α}
    (same : finished files journal outcome = finished files journal' outcome') :
    outcome = outcome' := by
  cases outcome <;> cases outcome' <;> simp_all [finished]

theorem SessionM.bind_of_ok {α β : Type} {first : SessionM α} {session between : Session}
    {value : α} (done : first session = .ok value between) (next : α → SessionM β) :
    (first >>= next) session = next value between := by
  simp only [bind, EStateM.bind, done]

theorem SessionM.bind_of_error {α β : Type} {first : SessionM α} {session between : Session}
    {error : LinkError} (failed : first session = .error error between) (next : α → SessionM β) :
    (first >>= next) session = .error error between := by
  simp only [bind, EStateM.bind, failed]

section Expanding

variable {files : Files} {chain : List String} {item : Tree}
  (expandModule : List String → List Tree → SessionM (List Tree)) (journal : Array Event)

theorem expandItem_of_noImport (isOther : fileImport? item = none) (session : Session) :
    expandItem expandModule chain item session = .ok [item] session := by
  simp only [expandItem, isOther]
  rfl

theorem expandItem_keep (keeps : stepAt files chain item = .keep) (session : Session) :
    expandItem expandModule chain item session = .ok [item] session := by
  rcases stepAt_cases files chain item with ⟨isOther, -⟩ | ⟨_, -, -, step⟩ |
      ⟨_, -, ⟨-, step⟩ | ⟨-, _, -, step⟩ | ⟨-, _, -, step⟩⟩
  case inl => exact expandItem_of_noImport expandModule isOther session
  all_goals
    rw [keeps] at step
    cases step

theorem expandItem_import {path : String} (imports : ImportsFile item path) :
    expandItem expandModule chain item ⟨.memory files, journal⟩ =
      if path ∈ chain then .error (.cyclicImport (chain ++ [path])) ⟨.memory files, journal⟩
      else
        let journal' := journal.push (.expandingImport path chain.length)
        match importedModule files path with
        | .error error => .error error ⟨.memory files, journal'⟩
        | .ok module =>
            (expandModule (chain ++ [path]) module.items >>= fun items =>
              pure (items.filter Tree.isList)) ⟨.memory files, journal'⟩ := by
  obtain ⟨text, isImport, unquoted⟩ := imports
  have named : importPath item text = .ok path := importPath_eq_ok_iff.mpr unquoted
  have taken : expandItem.ofExcept (.ok path) (⟨.memory files, journal⟩ : Session) =
      .ok path ⟨.memory files, journal⟩ := rfl
  simp only [expandItem, isImport, named]
  rw [SessionM.bind_of_ok taken]
  by_cases onChain : path ∈ chain
  · have contained : chain.contains path = true := by simpa using onChain
    simp only [onChain, contained, if_true]
    rfl
  · have notContained : ¬ chain.contains path = true := by simpa using onChain
    have reported : SessionM.report (.expandingImport path chain.length)
        (⟨.memory files, journal⟩ : Session) =
          .ok () ⟨.memory files, journal.push (.expandingImport path chain.length)⟩ := rfl
    rw [if_neg onChain, if_neg notContained, SessionM.bind_of_ok reported, importedModule]
    have loading := SessionM.loadBytes_memory files
      (journal.push (.expandingImport path chain.length)) path
    cases found : files.lookup path with
    | none =>
        rw [found] at loading
        rw [SessionM.bind_of_error loading]
    | some bytes =>
        rw [found] at loading
        rw [SessionM.bind_of_ok loading]
        dsimp only
        cases moduleOfBytes path bytes with
        | error error => rfl
        | ok module => rfl

theorem expandItem_stop {error : LinkError} (stops : stepAt files chain item = .stop error) :
    ∃ journal', expandItem expandModule chain item ⟨.memory files, journal⟩ =
      .error error ⟨.memory files, journal'⟩ := by
  rcases stepAt_cases files chain item with ⟨-, step⟩ | ⟨text, isImport, unquoted, step⟩ |
      ⟨path, imports, ⟨onChain, step⟩ | ⟨fresh, _, failed, step⟩ | ⟨-, _, -, step⟩⟩
  all_goals
    rw [stops] at step
    cases step
  · refine ⟨journal, ?_⟩
    simp only [expandItem, isImport, importPath, unquoted]
    rfl
  · exact ⟨journal, by rw [expandItem_import expandModule journal imports, if_pos onChain]⟩
  · rw [expandItem_import expandModule journal imports, if_neg fresh, failed]
    exact ⟨_, rfl⟩

theorem expandItem_enter {path : String} {module : Tree}
    (enters : stepAt files chain item = .enter path module) :
    expandItem expandModule chain item ⟨.memory files, journal⟩ =
      (expandModule (chain ++ [path]) module.items >>= fun items =>
        pure (items.filter Tree.isList))
          ⟨.memory files, journal.push (.expandingImport path chain.length)⟩ := by
  obtain ⟨imports, fresh, holds⟩ := stepAt_enter enters
  rw [expandItem_import expandModule journal imports, if_neg fresh,
    importedModule_eq_ok_iff.mpr holds]

end Expanding

theorem expandEach_of_error {expandItem : Tree → SessionM (List Tree)} {item : Tree}
    {session between : Session} {error : LinkError}
    (failed : expandItem item session = .error error between) (rest : List Tree) :
    expandEach expandItem (item :: rest) session = .error error between := by
  rw [expandEach, SessionM.bind_of_error failed]

theorem expandEach_of_ok {expandItem : Tree → SessionM (List Tree)} {item : Tree}
    {rest first : List Tree} {files : Files} {session between : Session} {journal : Array Event}
    {outcome : Except LinkError (List Tree)}
    (done : expandItem item session = .ok first between)
    (doneRest : expandEach expandItem rest between = finished files journal outcome) :
    expandEach expandItem (item :: rest) session =
      finished files journal (outcome.map (first ++ ·)) := by
  rw [expandEach, SessionM.bind_of_ok done]
  cases outcome with
  | error error => rw [SessionM.bind_of_error doneRest]; rfl
  | ok others => rw [SessionM.bind_of_ok doneRest]; rfl

/-- Expanding items gives the outcome of their run; the bound is not reached as
long as there is room for the paths that are left. -/
theorem expandItems_of_run {files : Files} {limit : Nat} {chain : List String}
    {items : List Tree} {outcome : Except LinkError (List Tree)}
    (run : ExpansionRun files limit chain items outcome) {bound : Nat}
    (room : (pathsLeft files chain).card ≤ bound) (journal : Array Event) :
    ∃ journal', expandItems bound chain items ⟨.memory files, journal⟩ =
      finished files journal' outcome := by
  induction run generalizing bound journal with
  | nil => cases bound <;> exact ⟨journal, rfl⟩
  | keep keeps _ ih =>
      obtain ⟨journal', doneRest⟩ := ih room journal
      refine ⟨journal', ?_⟩
      cases bound <;> exact expandEach_of_ok (expandItem_keep _ keeps _) doneRest
  | stop stops =>
      cases bound with
      | zero =>
          obtain ⟨journal', failed⟩ := expandItem_stop _ journal stops
          exact ⟨journal', expandEach_of_error failed _⟩
      | succ bound =>
          obtain ⟨journal', failed⟩ := expandItem_stop (expandItems bound) journal stops
          exact ⟨journal', expandEach_of_error failed _⟩
  | @stopInside chain item module rest path error enters _ _ ih =>
      obtain ⟨-, fresh, holds⟩ := stepAt_enter enters
      have fewer := card_pathsLeft_enter fresh holds
      obtain ⟨bound, rfl⟩ : ∃ smaller, bound = smaller + 1 := ⟨bound - 1, by omega⟩
      obtain ⟨journal', failed⟩ := @ih bound (by omega)
        (journal.push (.expandingImport path chain.length))
      refine ⟨journal', expandEach_of_error ?_ rest⟩
      rw [expandItem_enter _ _ enters, SessionM.bind_of_error failed]
  | @splice chain item module rest inner path outcome enters _ _ _ insideIH restIH =>
      obtain ⟨-, fresh, holds⟩ := stepAt_enter enters
      have fewer := card_pathsLeft_enter fresh holds
      obtain ⟨bound, rfl⟩ : ∃ smaller, bound = smaller + 1 := ⟨bound - 1, by omega⟩
      obtain ⟨between, doneInside⟩ := @insideIH bound (by omega)
        (journal.push (.expandingImport path chain.length))
      obtain ⟨journal', doneRest⟩ := restIH room between
      refine ⟨journal', expandEach_of_ok ?_ doneRest⟩
      rw [expandItem_enter _ _ enters, SessionM.bind_of_ok doneInside]
      rfl

/-- The number of files in memory, by their paths. -/
def fileCount (files : Files) : Nat :=
  (files.map Prod.fst).toFinset.card

theorem card_pathsLeft_le (files : Files) (chain : List String) :
    (pathsLeft files chain).card ≤ fileCount files :=
  Finset.card_le_card Finset.sdiff_subset

theorem fileCount_le_length (files : Files) : fileCount files ≤ files.length := by
  have bound := (files.map Prod.fst).toFinset_card_le
  rwa [List.length_map] at bound

theorem expandImports_of_run {files : Files} {limit : Nat} {origin : Option String}
    {module : Tree} {outcome : Except LinkError (List Tree)}
    (run : ExpansionRun files limit origin.toList module.items outcome) (journal : Array Event) :
    ∃ journal', Module.expandImports module origin ⟨.memory files, journal⟩ =
      finished files journal' (outcome.map Tree.list) := by
  have room : (pathsLeft files origin.toList).card ≤ files.length + 1 := by
    have few := card_pathsLeft_le files origin.toList
    have fewer := fileCount_le_length files
    omega
  obtain ⟨journal', done⟩ := expandItems_of_run run room journal
  refine ⟨journal', ?_⟩
  rw [expandImports_memory]
  cases outcome with
  | error error => rw [SessionM.bind_of_error done]; rfl
  | ok expanded => rw [SessionM.bind_of_ok done]; rfl

/-- A module that has a full expansion behind its origin expands to it. -/
theorem expandImports_of_expands {files : Files} {module : Tree} {origin : Option String}
    {expanded : List Tree} (expands : Expands files origin.toList module.items expanded)
    (journal : Array Event) :
    ∃ journal', Module.expandImports module origin ⟨.memory files, journal⟩ =
      .ok (.list expanded) ⟨.memory files, journal'⟩ :=
  expandImports_of_run (expands.run le_rfl) journal

end WatLink
