import Mathlib
import WatLink.Import.Expansion

/-!
# Full expansions of file imports

The full expansion of the items of a module replaces every file import among
them by the forms of the full expansion of the imported module.  It is stated as
a relation on item lists, without chains, bounds or sessions.

Expanding with files in memory is tied to it through `Expands`, the same
relation along a chain of paths that may not be imported again.
-/

namespace WatLink

/-- Files in memory by their paths. -/
abbrev Files := List (String × Bytes)

/-- The module that the file at a path holds. -/
def moduleAt? (files : Files) (path : String) : Option Tree :=
  (files.lookup path).bind fun bytes => (moduleOfBytes path bytes).toOption

/-- Whether an item is a file import of a path. -/
def ImportsFile (item : Tree) (path : String) : Prop :=
  ∃ text, fileImport? item = some text ∧ unquoted? text = some path

/-- The full expansion of items. -/
inductive FullExpansion (files : Files) : List Tree → List Tree → Prop
  | nil : FullExpansion files [] []
  | keep {item : Tree} {rest expandedRest : List Tree} :
      fileImport? item = none → FullExpansion files rest expandedRest →
        FullExpansion files (item :: rest) (item :: expandedRest)
  | splice {item module : Tree} {path : String} {rest expanded expandedRest : List Tree} :
      ImportsFile item path → moduleAt? files path = some module →
        FullExpansion files module.items expanded →
          FullExpansion files rest expandedRest →
            FullExpansion files (item :: rest) (expanded.filter Tree.isList ++ expandedRest)

/-- The full expansion of items behind a chain of paths, none of which is
imported again. -/
inductive Expands (files : Files) : List String → List Tree → List Tree → Prop
  | nil {chain : List String} : Expands files chain [] []
  | keep {chain : List String} {item : Tree} {rest expandedRest : List Tree} :
      fileImport? item = none → Expands files chain rest expandedRest →
        Expands files chain (item :: rest) (item :: expandedRest)
  | splice {chain : List String} {item module : Tree} {path : String}
      {rest expanded expandedRest : List Tree} :
      ImportsFile item path → path ∉ chain → moduleAt? files path = some module →
        Expands files (chain ++ [path]) module.items expanded →
          Expands files chain rest expandedRest →
            Expands files chain (item :: rest) (expanded.filter Tree.isList ++ expandedRest)

theorem ImportsFile.ne_none {item : Tree} {path : String} (imports : ImportsFile item path) :
    fileImport? item ≠ none := by
  obtain ⟨text, isImport, -⟩ := imports
  simp [isImport]

theorem ImportsFile.unique {item : Tree} {path path' : String}
    (imports : ImportsFile item path) (imports' : ImportsFile item path') : path = path' := by
  obtain ⟨text, isImport, unquoted⟩ := imports
  obtain ⟨text', isImport', unquoted'⟩ := imports'
  rw [isImport, Option.some.injEq] at isImport'
  rw [← isImport', unquoted] at unquoted'
  exact Option.some.inj unquoted'

namespace FullExpansion

variable {files : Files} {items expanded : List Tree}

theorem unique (expands : FullExpansion files items expanded) {other : List Tree}
    (expandsOther : FullExpansion files items other) : expanded = other := by
  induction expands generalizing other with
  | nil => cases expandsOther; rfl
  | keep isOther _ ih =>
      cases expandsOther with
      | keep _ rest => rw [ih rest]
      | splice imports _ _ _ => exact absurd isOther imports.ne_none
  | splice imports holds _ _ innerIH restIH =>
      cases expandsOther with
      | keep isOther _ => exact absurd isOther imports.ne_none
      | splice imports' holds' inner' rest' =>
          obtain rfl := imports.unique imports'
          rw [holds, Option.some.injEq] at holds'
          subst holds'
          rw [innerIH inner', restIH rest']

theorem no_imports (expands : FullExpansion files items expanded) :
    ∀ item ∈ expanded, fileImport? item = none := by
  induction expands with
  | nil => simp
  | keep isOther _ ih => simpa using ⟨isOther, ih⟩
  | splice _ _ _ _ innerIH restIH =>
      intro item member
      rcases List.mem_append.mp member with inner | rest
      · exact innerIH item (List.mem_of_mem_filter inner)
      · exact restIH item rest

end FullExpansion

theorem Expands.full {files : Files} {chain : List String} {items expanded : List Tree}
    (expands : Expands files chain items expanded) : FullExpansion files items expanded := by
  induction expands with
  | nil => exact .nil
  | keep isOther _ ih => exact .keep isOther ih
  | splice imports _ holds _ _ innerIH restIH => exact .splice imports holds innerIH restIH

/-! ## Expanding in a session -/

namespace SessionM

theorem bind_eq_ok_iff {α β : Type} {first : SessionM α} {next : α → SessionM β}
    {session session' : Session} {result : β} :
    (first >>= next) session = .ok result session' ↔
      ∃ value between, first session = .ok value between ∧
        next value between = .ok result session' := by
  simp only [bind, EStateM.bind]
  cases first session with
  | ok value between => simp
  | error fault between => simp

theorem pure_eq_ok_iff {α : Type} {value result : α} {session session' : Session} :
    (pure value : SessionM α) session = .ok result session' ↔
      result = value ∧ session' = session := by
  simp [pure, EStateM.pure, eq_comm]

theorem report_eq_ok_iff {event : Event} {session session' : Session} {result : Unit} :
    report event session = .ok result session' ↔
      session' = { session with journal := session.journal.push event } := by
  simp [report, modify, modifyGet, MonadStateOf.modifyGet, EStateM.modifyGet, eq_comm]

theorem ofExcept_eq_ok_iff {α : Type} {computed : Except LinkError α} {result : α}
    {session session' : Session} :
    expandItem.ofExcept computed session = .ok result session' ↔
      computed = .ok result ∧ session' = session := by
  cases computed with
  | ok value => simp [expandItem.ofExcept, pure_eq_ok_iff, eq_comm]
  | error fault => simp [expandItem.ofExcept, throw, throwThe, MonadExceptOf.throw, EStateM.throw]

theorem loadBytes_of_ok {session : Session} {path : String} {bytes : Bytes}
    (found : (session.store.load path).1 = .ok bytes) :
    loadBytes path session =
      .ok bytes ⟨(session.store.load path).2.1, session.journal ++ (session.store.load path).2.2⟩ := by
  simp only [loadBytes, bind, EStateM.bind, get, getThe, MonadStateOf.get, EStateM.get, set,
    EStateM.set, found, pure, EStateM.pure]

theorem loadBytes_of_error {session : Session} {path : String} {fault : LoadFault}
    (fails : (session.store.load path).1 = .error fault) :
    loadBytes path session = .error (.ofLoad path fault)
      ⟨(session.store.load path).2.1, session.journal ++ (session.store.load path).2.2⟩ := by
  simp only [loadBytes, bind, EStateM.bind, get, getThe, MonadStateOf.get, EStateM.get, set,
    EStateM.set, fails, throw, throwThe, MonadExceptOf.throw, EStateM.throw]

theorem loadBytes_memory (files : Files) (journal : Array Event) (path : String) :
    loadBytes path ⟨.memory files, journal⟩ =
      match files.lookup path with
      | some bytes => .ok bytes ⟨.memory files, journal⟩
      | none => .error (.importNotFound path) ⟨.memory files, journal⟩ := by
  cases found : files.lookup path with
  | none => simp [loadBytes_of_error, FileStore.load, found, LinkError.ofLoad]
  | some bytes => simp [loadBytes_of_ok, FileStore.load, found]

theorem loadBytes_memory_eq_ok_iff {files : Files} {journal : Array Event} {path : String}
    {bytes : Bytes} {session' : Session} :
    loadBytes path ⟨.memory files, journal⟩ = .ok bytes session' ↔
      files.lookup path = some bytes ∧ session' = ⟨.memory files, journal⟩ := by
  rw [loadBytes_memory]
  cases files.lookup path with
  | none => simp
  | some found => simp [eq_comm]

end SessionM

theorem importPath_eq_ok_iff {item : Tree} {text path : String} :
    importPath item text = .ok path ↔ unquoted? text = some path := by
  cases found : unquoted? text with
  | none => simp [importPath, found]
  | some path' => simp [importPath, found]

theorem moduleAt?_eq_some_iff {files : Files} {path : String} {module : Tree} :
    moduleAt? files path = some module ↔
      ∃ bytes, files.lookup path = some bytes ∧ moduleOfBytes path bytes = .ok module := by
  rw [moduleAt?, Option.bind_eq_some_iff]
  refine exists_congr fun bytes => and_congr_right fun _ => ?_
  cases moduleOfBytes path bytes with
  | ok module' => simp [Except.toOption]
  | error fault => simp [Except.toOption]

theorem expandItem_eq_ok_iff {expandModule : List String → List Tree → SessionM (List Tree)}
    {chain : List String} {item : Tree} {files : Files} {journal : Array Event}
    {expanded : List Tree} {session' : Session} :
    expandItem expandModule chain item ⟨.memory files, journal⟩ = .ok expanded session' ↔
      (fileImport? item = none ∧ expanded = [item] ∧ session' = ⟨.memory files, journal⟩) ∨
        ∃ path module inner, ImportsFile item path ∧ path ∉ chain ∧
          moduleAt? files path = some module ∧
          expandModule (chain ++ [path]) module.items
            ⟨.memory files, journal.push (.expandingImport path chain.length)⟩ =
              .ok inner session' ∧
          expanded = inner.filter Tree.isList := by
  rw [expandItem]
  cases isImport : fileImport? item with
  | none => simp [SessionM.pure_eq_ok_iff, ImportsFile, isImport]
  | some text =>
      simp only [reduceCtorEq, false_and, false_or, ImportsFile, isImport, Option.some.injEq,
        exists_eq_left', SessionM.bind_eq_ok_iff, SessionM.ofExcept_eq_ok_iff,
        importPath_eq_ok_iff, moduleAt?_eq_some_iff]
      constructor
      · rintro ⟨path, between, ⟨unquoted, rfl⟩, done⟩
        by_cases onChain : path ∈ chain
        · rw [if_pos (by simpa using onChain), SessionM.bind_eq_ok_iff] at done
          obtain ⟨_, _, thrown, -⟩ := done
          simp [throw, throwThe, MonadExceptOf.throw, EStateM.throw] at thrown
        · rw [if_neg (by simpa using onChain)] at done
          simp only [SessionM.bind_eq_ok_iff, SessionM.report_eq_ok_iff,
            SessionM.ofExcept_eq_ok_iff, SessionM.pure_eq_ok_iff] at done
          obtain ⟨-, _, rfl, bytes, _, loaded, module, _, ⟨holds, rfl⟩, inner, _, expands, rfl,
            rfl⟩ := done
          obtain ⟨found, rfl⟩ := SessionM.loadBytes_memory_eq_ok_iff.mp loaded
          exact ⟨path, module, inner, unquoted, onChain, ⟨bytes, found, holds⟩, expands, rfl⟩
      · rintro ⟨path, module, inner, unquoted, fresh, ⟨bytes, found, holds⟩, expands, rfl⟩
        refine ⟨path, _, ⟨unquoted, rfl⟩, ?_⟩
        rw [if_neg (by simpa using fresh)]
        simp only [SessionM.bind_eq_ok_iff, SessionM.report_eq_ok_iff,
          SessionM.ofExcept_eq_ok_iff, SessionM.pure_eq_ok_iff]
        exact ⟨(), _, rfl, bytes, _, SessionM.loadBytes_memory_eq_ok_iff.mpr ⟨found, rfl⟩, module, _,
          ⟨holds, rfl⟩, inner, _, expands, rfl, rfl⟩

theorem expandEach_cons_eq_ok_iff {expandItem : Tree → SessionM (List Tree)} {item : Tree}
    {rest expanded : List Tree} {session session' : Session} :
    expandEach expandItem (item :: rest) session = .ok expanded session' ↔
      ∃ first between others, expandItem item session = .ok first between ∧
        expandEach expandItem rest between = .ok others session' ∧ expanded = first ++ others := by
  rw [expandEach]
  simp only [SessionM.bind_eq_ok_iff, SessionM.pure_eq_ok_iff]
  constructor
  · rintro ⟨first, between, expandsItem, others, _, expandsRest, rfl, rfl⟩
    exact ⟨first, between, others, expandsItem, expandsRest, rfl⟩
  · rintro ⟨first, between, others, expandsItem, expandsRest, rfl⟩
    exact ⟨first, between, expandsItem, others, _, expandsRest, rfl, rfl⟩

/-! ## Expanding gives the full expansion -/

/-- Whether a way to expand items keeps files in memory and gives full
expansions behind the chain. -/
def SoundExpansion (files : Files)
    (expandModule : List String → List Tree → SessionM (List Tree)) : Prop :=
  ∀ chain items journal expanded session',
    expandModule chain items ⟨.memory files, journal⟩ = .ok expanded session' →
      (∃ journal', session' = ⟨.memory files, journal'⟩) ∧ Expands files chain items expanded

theorem soundExpansion_expandEach {files : Files}
    {expandModule : List String → List Tree → SessionM (List Tree)}
    (sound : SoundExpansion files expandModule) :
    SoundExpansion files fun chain => expandEach (expandItem expandModule chain) := by
  intro chain items
  induction items with
  | nil =>
      intro journal expanded session' done
      obtain ⟨rfl, rfl⟩ := SessionM.pure_eq_ok_iff.mp done
      exact ⟨⟨journal, rfl⟩, .nil⟩
  | cons item rest ih =>
      intro journal expanded session' done
      obtain ⟨first, between, others, expandsItem, expandsRest, rfl⟩ :=
        expandEach_cons_eq_ok_iff.mp done
      rcases expandItem_eq_ok_iff.mp expandsItem with ⟨isOther, rfl, rfl⟩ |
          ⟨path, module, inner, imports, fresh, holds, expandsModule, rfl⟩
      · obtain ⟨kept, expands⟩ := ih journal others session' expandsRest
        exact ⟨kept, .keep isOther expands⟩
      · obtain ⟨⟨journal', rfl⟩, expandsInner⟩ := sound _ _ _ _ _ expandsModule
        obtain ⟨kept, expands⟩ := ih journal' others session' expandsRest
        exact ⟨kept, .splice imports fresh holds expandsInner expands⟩

theorem soundExpansion_expandItems (files : Files) (bound : Nat) :
    SoundExpansion files (expandItems bound) := by
  induction bound with
  | zero =>
      apply soundExpansion_expandEach
      intro chain items journal expanded session' done
      simp [throw, throwThe, MonadExceptOf.throw, EStateM.throw] at done
  | succ bound ih => exact soundExpansion_expandEach ih

theorem expandImports_memory (module : Tree) (origin : Option String) (files : Files)
    (journal : Array Event) :
    Module.expandImports module origin ⟨.memory files, journal⟩ =
      (expandItems (files.length + 1) origin.toList module.items >>= fun items =>
        pure (.list items)) ⟨.memory files, journal⟩ :=
  rfl

/-- What expanding a module with files in memory gives is its full expansion
behind the chain that starts at its origin. -/
theorem expands_of_expandImports {files : Files} {journal : Array Event} {module tree : Tree}
    {origin : Option String} {session' : Session}
    (done : Module.expandImports module origin ⟨.memory files, journal⟩ = .ok tree session') :
    (∃ journal', session' = ⟨.memory files, journal'⟩) ∧
      ∃ expanded, tree = .list expanded ∧
        Expands files origin.toList module.items expanded := by
  rw [expandImports_memory, SessionM.bind_eq_ok_iff] at done
  obtain ⟨expanded, between, expandsItems, finished⟩ := done
  obtain ⟨rfl, rfl⟩ := SessionM.pure_eq_ok_iff.mp finished
  obtain ⟨kept, expands⟩ := soundExpansion_expandItems files _ _ _ _ _ _ expandsItems
  exact ⟨kept, expanded, rfl, expands⟩

end WatLink
