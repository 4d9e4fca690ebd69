import WatLink.Proofs.ExpansionRun

/-!
# Cycles of imports

A trail is the sequence of paths that imports meet one behind the other.  As
long as nothing else is wrong with the imports of a module, expanding it is
refused as cyclic exactly if some trail meets a path twice; the chain of the
refusal is such a trail, up to the first path that repeats.  A path that several
trails meet, but none twice, closes no cycle.
-/

namespace WatLink

/-! ## Trails -/

/-- The paths that a sequence of imports meets, each imported by the module at
the path before it and the first one by the given items. -/
inductive Trail (files : Files) : List Tree → List String → Prop
  | last {items : List Tree} {item : Tree} {path : String} :
      item ∈ items → ImportsFile item path → Trail files items [path]
  | through {items : List Tree} {item module : Tree} {path : String} {paths : List String} :
      item ∈ items → ImportsFile item path → moduleAt? files path = some module →
        Trail files module.items paths → Trail files items (path :: paths)

theorem Trail.of_subset {files : Files} {items more : List Tree} {paths : List String}
    (trail : Trail files items paths) (subset : ∀ item ∈ items, item ∈ more) :
    Trail files more paths := by
  cases trail with
  | last member imports => exact .last (subset _ member) imports
  | through member imports holds inside => exact .through (subset _ member) imports holds inside

theorem Trail.cons_cases {files : Files} {item : Tree} {rest : List Tree} {paths : List String}
    (trail : Trail files (item :: rest) paths) :
    (∃ path, ImportsFile item path ∧ (paths = [path] ∨ ∃ module others,
      moduleAt? files path = some module ∧ Trail files module.items others ∧
        paths = path :: others)) ∨ Trail files rest paths := by
  cases trail with
  | last member imports =>
      rcases List.mem_cons.mp member with rfl | member
      · exact .inl ⟨_, imports, .inl rfl⟩
      · exact .inr (.last member imports)
  | through member imports holds inside =>
      rcases List.mem_cons.mp member with rfl | member
      · exact .inl ⟨_, imports, .inr ⟨_, _, holds, inside, rfl⟩⟩
      · exact .inr (.through member imports holds inside)

/-- Whatever expands has only trails that meet every path once. -/
theorem Expands.nodup_trail {files : Files} {chain paths : List String}
    {items expanded : List Tree} (expands : Expands files chain items expanded)
    (trail : Trail files items paths) (distinct : chain.Nodup) : (chain ++ paths).Nodup := by
  induction expands generalizing paths with
  | nil =>
      cases trail with
      | last member _ => simp at member
      | through member _ _ _ => simp at member
  | keep isOther _ ih =>
      rcases trail.cons_cases with ⟨_, imports, -⟩ | trailRest
      · exact absurd isOther imports.ne_none
      · exact ih trailRest distinct
  | @splice chain item module path _ _ _ imports fresh holds _ _ insideIH restIH =>
      have longer : (chain ++ [path]).Nodup := by simpa using distinct.concat fresh
      rcases trail.cons_cases with ⟨other, imports', ends⟩ | trailRest
      · obtain rfl := imports.unique imports'
        rcases ends with rfl | ⟨module', others, holds', inside, rfl⟩
        · exact longer
        · obtain rfl := Option.some.inj (holds.symm.trans holds')
          simpa using insideIH inside longer
      · exact restIH trailRest distinct

/-- What a refusal of a cycle tells: its chain goes on along a trail that meets
new paths up to the last one, which it has met before. -/
structure ClosesCycle (files : Files) (chain : List String) (items : List Tree)
    (cycle paths : List String) (last : String) : Prop where
  chain_eq : cycle = chain ++ paths ++ [last]
  nodup : (chain ++ paths).Nodup
  count_last : (chain ++ paths).count last = 1
  trail : Trail files items (paths ++ [last])

theorem ClosesCycle.repeats {files : Files} {chain cycle paths : List String}
    {items : List Tree} {last : String} (closes : ClosesCycle files chain items cycle paths last) :
    ¬ (chain ++ (paths ++ [last])).Nodup := by
  have met : last ∈ chain ++ paths :=
    List.count_pos_iff.mp (by rw [closes.count_last]; exact Nat.one_pos)
  rw [← List.append_assoc, List.nodup_append]
  intro distinct
  exact distinct.2.2 last met last (by simp) rfl

/-- A run that is refused as cyclic has found a trail that closes a cycle. -/
theorem ExpansionRun.closesCycle {files : Files} {limit : Nat} {chain cycle : List String}
    {items : List Tree} {outcome : Except LinkError (List Tree)}
    (run : ExpansionRun files limit chain items outcome) (distinct : chain.Nodup)
    (refused : outcome = .error (.cyclicImport cycle)) :
    ∃ paths last, ClosesCycle files chain items cycle paths last := by
  induction run with
  | nil => cases refused
  | @keep chain item rest outcome _ _ ih =>
      cases outcome with
      | ok others => cases refused
      | error error =>
          obtain ⟨paths, last, closes⟩ := ih distinct refused
          exact ⟨paths, last, { closes with trail := closes.trail.of_subset (by simp_all) }⟩
  | @stop chain item rest error stops =>
      cases refused
      obtain ⟨path, imports, onChain, rfl⟩ := stepAt_stop_cyclic stops
      exact ⟨[], path, by simp, by simpa using distinct,
        by simpa using List.count_eq_one_of_mem distinct onChain, .last (by simp) imports⟩
  | @stopInside chain item module rest path error enters _ _ ih =>
      obtain ⟨imports, fresh, holds⟩ := stepAt_enter enters
      have longer : (chain ++ [path]).Nodup := by simpa using distinct.concat fresh
      obtain ⟨paths, last, closes⟩ := ih longer refused
      exact ⟨path :: paths, last, by simpa using closes.chain_eq, by simpa using closes.nodup,
        by simpa using closes.count_last, .through (by simp) imports holds closes.trail⟩
  | @splice chain item module rest inner path outcome _ _ _ _ _ restIH =>
      cases outcome with
      | ok others => cases refused
      | error error =>
          obtain ⟨paths, last, closes⟩ := restIH distinct refused
          exact ⟨paths, last, { closes with trail := closes.trail.of_subset (by simp_all) }⟩

/-! ## Imports that are in order -/

/-- The items of a module and of the files that it leads to. -/
inductive Reachable (files : Files) (items : List Tree) : Tree → Prop
  | root {item : Tree} : item ∈ items → Reachable files items item
  | inside {importer module item : Tree} {path : String} :
      Reachable files items importer → ImportsFile importer path →
        moduleAt? files path = some module → item ∈ module.items → Reachable files items item

theorem Reachable.trans {files : Files} {items more : List Tree} {item : Tree}
    (reached : Reachable files items item)
    (reachable : ∀ other ∈ items, Reachable files more other) : Reachable files more item := by
  induction reached with
  | root member => exact reachable _ member
  | inside _ imports holds member ih => exact .inside ih imports holds member

/-- Whether every import that items lead to names a path by a string, and a
module is there. -/
structure ImportsInOrder (files : Files) (items : List Tree) : Prop where
  named : ∀ item text, Reachable files items item → fileImport? item = some text →
    ∃ path, unquoted? text = some path
  holds : ∀ item path, Reachable files items item → ImportsFile item path →
    ∃ module, moduleAt? files path = some module

namespace ImportsInOrder

variable {files : Files} {item module : Tree} {rest : List Tree} {path : String}

theorem of_reachable {items more : List Tree} (inOrder : ImportsInOrder files more)
    (reachable : ∀ item ∈ items, Reachable files more item) : ImportsInOrder files items :=
  ⟨fun item text reached => inOrder.named item text (reached.trans reachable),
    fun item path reached => inOrder.holds item path (reached.trans reachable)⟩

theorem tail (inOrder : ImportsInOrder files (item :: rest)) : ImportsInOrder files rest :=
  inOrder.of_reachable fun _ member => .root (List.mem_cons_of_mem item member)

theorem enter (inOrder : ImportsInOrder files (item :: rest)) (imports : ImportsFile item path)
    (holds : moduleAt? files path = some module) : ImportsInOrder files module.items :=
  inOrder.of_reachable fun _ member => .inside (.root List.mem_cons_self) imports holds member

/-- Imports are in order if all that they lead to is among items with imports in
order. -/
theorem of_closed {items : List Tree} (known : List Tree) (root : ∀ item ∈ items, item ∈ known)
    (closed : ∀ item ∈ known, ∀ text, fileImport? item = some text →
      ∃ path module, unquoted? text = some path ∧ moduleAt? files path = some module ∧
        ∀ inner ∈ module.items, inner ∈ known) : ImportsInOrder files items := by
  have isKnown : ∀ item, Reachable files items item → item ∈ known := by
    intro item reached
    induction reached with
    | root member => exact root _ member
    | inside _ imports holds member ih =>
        obtain ⟨text, isImport, unquoted⟩ := imports
        obtain ⟨path, module, unquoted', holds', inside⟩ := closed _ ih text isImport
        obtain rfl := Option.some.inj (unquoted.symm.trans unquoted')
        obtain rfl := Option.some.inj (holds.symm.trans holds')
        exact inside _ member
  constructor
  · intro item text reached isImport
    obtain ⟨path, _, unquoted, -⟩ := closed item (isKnown item reached) text isImport
    exact ⟨path, unquoted⟩
  · intro item path reached imports
    obtain ⟨text, isImport, unquoted⟩ := imports
    obtain ⟨path', module, unquoted', holds, -⟩ := closed item (isKnown item reached) text isImport
    obtain rfl := Option.some.inj (unquoted.symm.trans unquoted')
    exact ⟨module, holds⟩

end ImportsInOrder

/-- If the imports are in order, only a cycle can stop a run. -/
theorem ExpansionRun.cyclic_of_error {files : Files} {limit : Nat} {chain : List String}
    {items : List Tree} {outcome : Except LinkError (List Tree)} {error : LinkError}
    (run : ExpansionRun files limit chain items outcome) (inOrder : ImportsInOrder files items)
    (refused : outcome = .error error) : ∃ cycle, error = .cyclicImport cycle := by
  induction run with
  | nil => cases refused
  | @keep chain item rest outcome _ _ ih =>
      cases outcome with
      | ok others => cases refused
      | error error' => exact ih inOrder.tail refused
  | @stop chain item rest error' stops =>
      cases refused
      rcases stepAt_cases files chain item with ⟨-, step⟩ | ⟨text, isImport, unquoted, -⟩ |
          ⟨path, imports, ⟨-, step⟩ | ⟨-, _, failed, -⟩ | ⟨-, _, -, step⟩⟩
      · rw [stops] at step
        cases step
      · obtain ⟨path, named⟩ := inOrder.named item text (.root (by simp)) isImport
        rw [unquoted] at named
        cases named
      · rw [stops] at step
        cases step
        exact ⟨_, rfl⟩
      · obtain ⟨module, holds⟩ := inOrder.holds item path (.root (by simp)) imports
        rw [importedModule_eq_ok_iff.mpr holds] at failed
        cases failed
      · rw [stops] at step
        cases step
  | stopInside enters _ _ ih =>
      obtain ⟨imports, -, holds⟩ := stepAt_enter enters
      exact ih (inOrder.enter imports holds) refused
  | @splice chain item module rest inner path outcome _ _ _ _ _ restIH =>
      cases outcome with
      | ok others => cases refused
      | error error' => exact restIH inOrder.tail refused

/-- Expanding a module with files in memory ends, on chains of at most one path
more than there are files.  If its imports are in order, it is refused as cyclic
exactly if some trail of imports meets a path twice, its origin counted as met,
and expands otherwise.  Whenever it is refused as cyclic, the chain is a trail
behind the origin that meets new paths up to its last one, which closes the
cycle. -/
theorem expandImports_ends_and_refuses_exactly_cycles (files : Files) (origin : Option String)
    (module : Tree) (journal : Array Event) :
    (∃ outcome journal',
      ExpansionRun files (fileCount files + 1) origin.toList module.items outcome ∧
        (∀ limit other, ExpansionRun files limit origin.toList module.items other →
          other = outcome) ∧
        Module.expandImports module origin ⟨.memory files, journal⟩ =
          finished files journal' (outcome.map Tree.list)) ∧
    (ImportsInOrder files module.items →
      ((∃ cycle session', Module.expandImports module origin ⟨.memory files, journal⟩ =
          .error (.cyclicImport cycle) session') ↔
        ∃ paths, Trail files module.items paths ∧ ¬ (origin.toList ++ paths).Nodup) ∧
      ((¬ ∃ paths, Trail files module.items paths ∧ ¬ (origin.toList ++ paths).Nodup) →
        ∃ tree session', Module.expandImports module origin ⟨.memory files, journal⟩ =
          .ok tree session')) ∧
    ∀ cycle session', Module.expandImports module origin ⟨.memory files, journal⟩ =
        .error (.cyclicImport cycle) session' →
      ∃ paths last, ClosesCycle files origin.toList module.items cycle paths last := by
  have room : origin.toList.length + (pathsLeft files origin.toList).card ≤ fileCount files + 1 := by
    have few := card_pathsLeft_le files origin.toList
    have short : origin.toList.length ≤ 1 := by cases origin <;> simp
    omega
  have distinct : origin.toList.Nodup := by cases origin <;> simp
  obtain ⟨outcome, run⟩ := exists_expansionRun room module.items
  obtain ⟨journal', done⟩ := expandImports_of_run run journal
  have closes : ∀ cycle session', Module.expandImports module origin ⟨.memory files, journal⟩ =
      .error (.cyclicImport cycle) session' →
        ∃ paths last, ClosesCycle files origin.toList module.items cycle paths last := by
    intro cycle session' refused
    rw [done] at refused
    cases outcome with
    | ok expanded => cases refused
    | error error =>
        cases refused
        exact run.closesCycle distinct rfl
  refine ⟨⟨outcome, journal', run, ?_, done⟩, fun inOrder => ⟨⟨?_, ?_⟩, ?_⟩, closes⟩
  · intro limit other runOther
    obtain ⟨_, doneRun⟩ := expandItems_of_run run (Nat.le_refl _) journal
    obtain ⟨_, doneOther⟩ := expandItems_of_run runOther (Nat.le_refl _) journal
    exact finished_injective (doneOther.symm.trans doneRun)
  · rintro ⟨cycle, session', refused⟩
    obtain ⟨paths, last, found⟩ := closes cycle session' refused
    exact ⟨paths ++ [last], found.trail, found.repeats⟩
  · rintro ⟨paths, trail, repeats⟩
    cases outcome with
    | ok expanded =>
        obtain ⟨-, _, -, expands⟩ := expands_of_expandImports done
        exact absurd (expands.nodup_trail trail distinct) repeats
    | error error =>
        obtain ⟨cycle, rfl⟩ := run.cyclic_of_error inOrder rfl
        exact ⟨cycle, _, done⟩
  · intro noRepeat
    cases outcome with
    | ok expanded => exact ⟨_, _, done⟩
    | error error =>
        obtain ⟨cycle, rfl⟩ := run.cyclic_of_error inOrder rfl
        obtain ⟨paths, last, found⟩ := closes cycle _ done
        exact absurd ⟨paths ++ [last], found.trail, found.repeats⟩ noRepeat

/-- Two files that import each other. -/
def mutualFiles : Files :=
  [("a", Text.encodeUtf8 "(module (import \"b\" (file)))"),
    ("b", Text.encodeUtf8 "(module (import \"a\" (file)))")]

/-- A module that only imports a file. -/
def importingModule (text : String) : Tree :=
  .form "module" [.form "import" [.atom text, .form "file" []]]

theorem moduleAt?_mutualFiles :
    moduleAt? mutualFiles "a" = some (importingModule "\"b\"") ∧
      moduleAt? mutualFiles "b" = some (importingModule "\"a\"") := by
  constructor <;> cbv

theorem importsInOrder_mutualFiles :
    ImportsInOrder mutualFiles (importingModule "\"a\"").items := by
  obtain ⟨first, second⟩ := moduleAt?_mutualFiles
  refine .of_closed ((importingModule "\"a\"").items ++ (importingModule "\"b\"").items)
    (fun item member => List.mem_append_left _ member) ?_
  intro item member text isImport
  simp only [importingModule, Tree.form, Tree.items, List.cons_append, List.nil_append,
    List.mem_cons, List.not_mem_nil, or_false] at member
  rcases member with rfl | rfl | rfl | rfl
  · cases isImport
  · cases isImport
    exact ⟨"a", _, by decide, first, fun inner member => List.mem_append_right _ member⟩
  · cases isImport
  · cases isImport
    exact ⟨"b", _, by decide, second, fun inner member => List.mem_append_left _ member⟩

/-- A module that imports the first of two files that import each other. -/
theorem expandImports_mutualFiles_refused :
    ImportsInOrder mutualFiles (importingModule "\"a\"").items ∧
      Trail mutualFiles (importingModule "\"a\"").items ["a", "b", "a"] ∧
        ∃ cycle session', Module.expandImports (importingModule "\"a\"") none
          ⟨.memory mutualFiles, #[]⟩ = .error (.cyclicImport cycle) session' := by
  obtain ⟨first, second⟩ := moduleAt?_mutualFiles
  have importsFirst : ImportsFile (.form "import" [.atom "\"a\"", .form "file" []]) "a" :=
    ⟨_, rfl, by decide⟩
  have importsSecond : ImportsFile (.form "import" [.atom "\"b\"", .form "file" []]) "b" :=
    ⟨_, rfl, by decide⟩
  have trail : Trail mutualFiles (importingModule "\"a\"").items ["a", "b", "a"] :=
    .through (.tail _ (.head _)) importsFirst first
      (.through (.tail _ (.head _)) importsSecond second
        (.last (.tail _ (.head _)) importsFirst))
  refine ⟨importsInOrder_mutualFiles, trail, ?_⟩
  have exact_cycles := expandImports_ends_and_refuses_exactly_cycles mutualFiles none
    (importingModule "\"a\"") #[]
  exact (exact_cycles.2.1 importsInOrder_mutualFiles).1.mpr ⟨_, trail, by decide⟩

end WatLink
