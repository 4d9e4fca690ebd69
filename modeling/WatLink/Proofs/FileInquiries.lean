import WatLink.Import.Inlining
import WatLink.Proofs.ExpansionRun
import WatLink.Proofs.StoreSnapshots

/-!
# Computations that ask for files

Linking looks at files only by asking the store for paths, and gives up when one
cannot be read.  Such a computation is an inquiry, a tree of questions.  What it gives
depends on the files that it asks for and on nothing else in the store, so files in
memory that agree on these paths lead to the same result.  It fails with an error of
its own or because of a file.

Expanding and inlining imports are inquiries.  Inlining asks only for the paths that
data forms name.
-/

namespace WatLink

/-- A computation that asks for files and for a bound on chains of imports, and that
fails when a file cannot be read.  What it leaves when it fails is part of the
failure. -/
inductive Inquiry (τ α : Type) where
  | done (value : α)
  | failed (error : LinkError) (left : τ)
  | ask (path : String) (left : τ) (next : Bytes → Inquiry τ α)
  | bound (next : Nat → Inquiry τ α)

/-- What a computation gives: a value, or an error and what it leaves. -/
abbrev Result (τ α : Type) := Except (LinkError × τ) α

/-- Go on behind a success, and change what a failure leaves. -/
def Result.thenRun {σ τ τ' α β : Type} (ofLeft : τ → τ') (next : α → σ → Result τ' β × σ) :
    Result τ α × σ → Result τ' β × σ
  | (.ok value, state) => next value state
  | (.error (error, left), state) => (.error (error, ofLeft left), state)

/-- The errors of files that a store cannot serve. -/
inductive UnservedFault (store : FileStore) : LinkError → Prop
  | load {path : String} {fault : LoadFault} : (store.load path).1 = .error fault →
      UnservedFault store (.ofLoad path fault)

namespace Inquiry

variable {τ τ' α β : Type}

/-- Run an inquiry against a store. -/
def run : Inquiry τ α → FileStore → Result τ α × FileStore
  | .done value, store => (.ok value, store)
  | .failed error left, store => (.error (error, left), store)
  | .ask path left next, store =>
      match (store.load path).1 with
      | .error fault => (.error (.ofLoad path fault, left), (store.load path).2.1)
      | .ok bytes => (next bytes).run (store.load path).2.1
  | .bound next, store => (next store.chainBound).run store

/-- What an inquiry gives for a fixed list of files. -/
def onFiles (limit : Nat) (files : Files) : Inquiry τ α → Result τ α
  | .done value => .ok value
  | .failed error left => .error (error, left)
  | .ask path left next =>
      match files.lookup path with
      | none => .error (.importNotFound path, left)
      | some bytes => (next bytes).onFiles limit files
  | .bound next => (next limit).onFiles limit files

/-- Whether an inquiry asks only for certain paths, and fails on its own only with
certain errors. -/
def Within (paths : String → Prop) (errors : LinkError → Prop) : Inquiry τ α → Prop
  | .done _ => True
  | .failed error _ => errors error
  | .ask path _ next => paths path ∧ ∀ bytes, (next bytes).Within paths errors
  | .bound next => ∀ count, (next count).Within paths errors

/-- Go on with another inquiry behind a success. -/
def andThen (ofLeft : τ → τ') (next : α → Inquiry τ' β) : Inquiry τ α → Inquiry τ' β
  | .done value => next value
  | .failed error left => .failed error (ofLeft left)
  | .ask path left rest => .ask path (ofLeft left) fun bytes => (rest bytes).andThen ofLeft next
  | .bound rest => .bound fun count => (rest count).andThen ofLeft next

theorem run_andThen (ofLeft : τ → τ') (next : α → Inquiry τ' β) (inquiry : Inquiry τ α)
    (store : FileStore) :
    (inquiry.andThen ofLeft next).run store =
      Result.thenRun ofLeft (fun value => (next value).run) (inquiry.run store) := by
  induction inquiry generalizing store with
  | done value => rfl
  | failed error left => rfl
  | ask path left rest ih =>
      simp only [andThen, run]
      cases (store.load path).1 with
      | error fault => rfl
      | ok bytes => exact ih bytes _
  | bound rest ih => exact ih _ store

theorem onFiles_andThen (ofLeft : τ → τ') (next : α → Inquiry τ' β) (inquiry : Inquiry τ α)
    (limit : Nat) (files : Files) :
    (inquiry.andThen ofLeft next).onFiles limit files =
      (Result.thenRun ofLeft (fun value _ => ((next value).onFiles limit files, ()))
        (inquiry.onFiles limit files, ())).1 := by
  induction inquiry with
  | done value => rfl
  | failed error left => rfl
  | ask path left rest ih =>
      simp only [andThen, onFiles]
      cases files.lookup path with
      | none => rfl
      | some bytes => exact ih bytes
  | bound rest ih => exact ih limit

theorem within_andThen {paths : String → Prop} {errors : LinkError → Prop} {ofLeft : τ → τ'}
    {next : α → Inquiry τ' β} {inquiry : Inquiry τ α} (within : inquiry.Within paths errors)
    (withinNext : ∀ value, (next value).Within paths errors) :
    (inquiry.andThen ofLeft next).Within paths errors := by
  induction inquiry with
  | done value => exact withinNext value
  | failed error left => exact within
  | ask path left rest ih => exact ⟨within.1, fun bytes => ih bytes (within.2 bytes)⟩
  | bound rest ih => exact fun count => ih count (within count)

theorem Within.mono {paths paths' : String → Prop} {errors errors' : LinkError → Prop}
    {inquiry : Inquiry τ α} (within : inquiry.Within paths errors)
    (morePaths : ∀ path, paths path → paths' path)
    (moreErrors : ∀ error, errors error → errors' error) : inquiry.Within paths' errors' := by
  induction inquiry with
  | done value => trivial
  | failed error left => exact moreErrors error within
  | ask path left rest ih =>
      exact ⟨morePaths path within.1, fun bytes => ih bytes (within.2 bytes)⟩
  | bound rest ih => exact fun count => ih count (within count)

/-- What an inquiry fails with is an error of its own, or the error of a file that the
store cannot serve. -/
theorem error_of_run {paths : String → Prop} {errors : LinkError → Prop} {inquiry : Inquiry τ α}
    (within : inquiry.Within paths errors) {store : FileStore} {error : LinkError} {left : τ}
    (fails : (inquiry.run store).1 = .error (error, left)) :
    errors error ∨ UnservedFault store error := by
  induction inquiry generalizing store with
  | done value => cases fails
  | failed own left' =>
      cases fails
      exact .inl within
  | ask path left' next ih =>
      simp only [run] at fails
      split at fails
      · rename_i fault unserved
        cases fails
        exact .inr (.load unserved)
      · -- the store behind the answer serves what it served before
        rename_i bytes served
        refine (ih bytes (within.2 bytes) fails).imp_right ?_
        rintro ⟨unserved⟩
        exact .load ((store.load_load path _).symm.trans unserved)
  | bound next ih => exact ih _ (within _) fails

theorem run_memory (inquiry : Inquiry τ α) (files : Files) :
    inquiry.run (.memory files) = (inquiry.onFiles files.length files, .memory files) := by
  induction inquiry with
  | done value => rfl
  | failed error left => rfl
  | ask path left next ih =>
      simp only [run, onFiles, FileStore.load]
      cases files.lookup path with
      | none => rfl
      | some bytes => exact ih bytes
  | bound next ih => exact ih files.length

/-- Only the files that an inquiry asks for matter. -/
theorem onFiles_congr {paths : String → Prop} {errors : LinkError → Prop}
    {inquiry : Inquiry τ α} (within : inquiry.Within paths errors) {files files' : Files}
    (same : ∀ path, paths path → files'.lookup path = files.lookup path) (limit : Nat) :
    inquiry.onFiles limit files' = inquiry.onFiles limit files := by
  induction inquiry with
  | done value => rfl
  | failed error left => rfl
  | ask path left next ih =>
      simp only [onFiles, same path within.1]
      cases files.lookup path with
      | none => rfl
      | some bytes => exact ih bytes (within.2 bytes)
  | bound next ih => exact ih limit (within limit)

/-- Whether an inquiry is what a computation does with the store, and does not depend
on the bound for chains once that is as large as the number of files. -/
structure Answers (inquiry : Inquiry τ α) (computation : Session → Result τ α × Session) :
    Prop where
  runs : ∀ session, inquiry.run session.store =
    ((computation session).1, (computation session).2.store)
  steady : ∀ (files : Files) (limit : Nat), files.length ≤ limit →
    inquiry.onFiles limit files = inquiry.onFiles files.length files

theorem Answers.memory {inquiry : Inquiry τ α} {computation : Session → Result τ α × Session}
    (answers : inquiry.Answers computation) {files : Files} {limit : Nat}
    (enough : files.length ≤ limit) (journal : Array Event) :
    (computation ⟨.memory files, journal⟩).1 = inquiry.onFiles limit files := by
  have runs := answers.runs ⟨.memory files, journal⟩
  rw [run_memory] at runs
  rw [answers.steady files limit enough]
  exact (Prod.mk.inj runs).1.symm

end Inquiry

/-! ## Computations that inquire -/

/-- Whether a computation looks at the store only as an inquiry does that asks for
certain paths and fails on its own only with certain errors. -/
def Inquiring (paths : String → Prop) (errors : LinkError → Prop) {τ α : Type}
    (computation : Session → Result τ α × Session) : Prop :=
  ∃ inquiry : Inquiry τ α, inquiry.Answers computation ∧ inquiry.Within paths errors

namespace Inquiring

variable {paths : String → Prop} {errors : LinkError → Prop} {τ τ' α β : Type}

theorem of_ok {computation : Session → Result τ α × Session} (value : α)
    (gives : ∀ session, (computation session).1 = .ok value ∧
      (computation session).2.store = session.store) : Inquiring paths errors computation := by
  refine ⟨.done value, ⟨fun session => ?_, fun _ _ _ => rfl⟩, trivial⟩
  rw [(gives session).1, (gives session).2]
  rfl

theorem of_error {computation : Session → Result τ α × Session} {error : LinkError} {left : τ}
    (isError : errors error) (gives : ∀ session, (computation session).1 = .error (error, left) ∧
      (computation session).2.store = session.store) : Inquiring paths errors computation := by
  refine ⟨.failed error left, ⟨fun session => ?_, fun _ _ _ => rfl⟩, isError⟩
  rw [(gives session).1, (gives session).2]
  rfl

theorem congr {computation computation' : Session → Result τ α × Session}
    (inquires : Inquiring paths errors computation)
    (same : ∀ session, computation' session = computation session) :
    Inquiring paths errors computation' := by
  rwa [funext same]

theorem mono {paths' : String → Prop} {errors' : LinkError → Prop}
    {computation : Session → Result τ α × Session} (inquires : Inquiring paths errors computation)
    (morePaths : ∀ path, paths path → paths' path)
    (moreErrors : ∀ error, errors error → errors' error) :
    Inquiring paths' errors' computation := by
  obtain ⟨inquiry, answers, within⟩ := inquires
  exact ⟨inquiry, answers, within.mono morePaths moreErrors⟩

theorem andThen {first : Session → Result τ α × Session}
    {next : α → Session → Result τ' β × Session} (inquires : Inquiring paths errors first)
    (ofLeft : τ → τ') (inquiresNext : ∀ value, Inquiring paths errors (next value)) :
    Inquiring paths errors fun session => Result.thenRun ofLeft next (first session) := by
  obtain ⟨inquiry, ⟨runs, steady⟩, within⟩ := inquires
  choose nextInquiry answers withinNext using inquiresNext
  refine ⟨inquiry.andThen ofLeft nextInquiry, ⟨fun session => ?_, fun files limit enough => ?_⟩,
    Inquiry.within_andThen within withinNext⟩
  · rw [Inquiry.run_andThen, runs]
    cases first session with
    | mk result session' =>
        cases result with
        | ok value => exact (answers value).runs session'
        | error failure => rfl
  · rw [Inquiry.onFiles_andThen, Inquiry.onFiles_andThen, steady files limit enough]
    cases inquiry.onFiles files.length files with
    | ok value => exact (answers value).steady files limit enough
    | error failure => rfl

theorem comp {computation : Session → Result τ α × Session}
    (inquires : Inquiring paths errors computation) {change : Session → Session}
    (keepsStore : ∀ session, (change session).store = session.store) :
    Inquiring paths errors fun session => computation (change session) := by
  obtain ⟨inquiry, ⟨runs, steady⟩, within⟩ := inquires
  exact ⟨inquiry, ⟨fun session => keepsStore session ▸ runs (change session), steady⟩, within⟩

/-- A computation may take a bound for chains from the store if every larger one
leads to the same result. -/
theorem bound {computation : Nat → Session → Result τ α × Session}
    (inquires : ∀ count, Inquiring paths errors (computation count))
    (sameResult : ∀ (files : Files) (limit : Nat), files.length ≤ limit →
      (computation limit ⟨.memory files, #[]⟩).1 =
        (computation files.length ⟨.memory files, #[]⟩).1) :
    Inquiring paths errors fun session => computation session.store.chainBound session := by
  choose inquiry answers within using inquires
  refine ⟨.bound inquiry, ⟨fun session => (answers _).runs session, fun files limit enough => ?_⟩,
    within⟩
  calc (inquiry limit).onFiles limit files
      = (computation limit ⟨.memory files, #[]⟩).1 := ((answers limit).memory enough #[]).symm
    _ = (computation files.length ⟨.memory files, #[]⟩).1 := sameResult files limit enough
    _ = (inquiry files.length).onFiles files.length files := (answers _).memory le_rfl #[]

theorem error {computation : Session → Result τ α × Session}
    (inquires : Inquiring paths errors computation) {session : Session} {error : LinkError}
    {left : τ} (fails : (computation session).1 = .error (error, left)) :
    errors error ∨ UnservedFault session.store error := by
  obtain ⟨inquiry, ⟨runs, -⟩, within⟩ := inquires
  exact Inquiry.error_of_run within ((congrArg Prod.fst (runs session)).trans fails)

/-- Files in memory that agree on the paths that are asked for give the same. -/
theorem memory_eq {computation : Session → Result τ α × Session}
    (inquires : Inquiring paths errors computation) {files files' : Files}
    (same : ∀ path, paths path → files'.lookup path = files.lookup path)
    (journal journal' : Array Event) :
    (computation ⟨.memory files, journal⟩).1 = (computation ⟨.memory files', journal'⟩).1 := by
  obtain ⟨inquiry, answers, within⟩ := inquires
  rw [answers.memory (Nat.le_max_left files.length files'.length),
    answers.memory (Nat.le_max_right files.length files'.length),
    Inquiry.onFiles_congr within same]

end Inquiring

namespace SessionM

variable {paths : String → Prop} {errors : LinkError → Prop} {α β : Type}

/-- What a computation gives and the session behind it. -/
def outcome (computation : SessionM α) (session : Session) : Result Unit α × Session :=
  match computation session with
  | .ok value session' => (.ok value, session')
  | .error error session' => (.error (error, ()), session')

theorem inquiring_pure (value : α) : Inquiring paths errors (pure value : SessionM α).outcome :=
  .of_ok value fun _ => ⟨rfl, rfl⟩

theorem inquiring_throw {error : LinkError} (isError : errors error) :
    Inquiring paths errors (throw error : SessionM α).outcome :=
  .of_error isError fun _ => ⟨rfl, rfl⟩

theorem inquiring_report (event : Event) : Inquiring paths errors (report event).outcome :=
  .of_ok () fun _ => ⟨rfl, rfl⟩

theorem inquiring_ofExcept {result : Except LinkError α}
    (isError : ∀ error, result = .error error → errors error) :
    Inquiring paths errors (expandItem.ofExcept result).outcome := by
  cases result with
  | ok value => exact inquiring_pure value
  | error error => exact inquiring_throw (isError error rfl)

theorem inquiring_bind {first : SessionM α} {next : α → SessionM β}
    (inquires : Inquiring paths errors first.outcome)
    (inquiresNext : ∀ value, Inquiring paths errors (next value).outcome) :
    Inquiring paths errors (first >>= next).outcome := by
  refine (inquires.andThen id inquiresNext).congr fun session => ?_
  unfold outcome
  cases first_eq : first session with
  | ok value session' => simp only [bind, EStateM.bind, first_eq, Result.thenRun]
  | error error session' => simp only [bind, EStateM.bind, first_eq, Result.thenRun, id]

theorem inquiring_loadBytes {path : String} (isAsked : paths path) :
    Inquiring paths errors (loadBytes path).outcome := by
  refine ⟨.ask path () .done, ⟨fun session => ?_, fun _ _ _ => by simp only [Inquiry.onFiles]⟩,
    isAsked, fun _ => trivial⟩
  simp only [Inquiry.run, outcome, loadBytes, bind, EStateM.bind, get, getThe, MonadStateOf.get,
    EStateM.get, set, EStateM.set]
  cases (session.store.load path).1 <;> rfl

end SessionM

open SessionM

/-- The errors of imports whose files can be read. -/
inductive ImportFault : LinkError → Prop
  | path (defect : FormDefect) (form : Tree) : ImportFault (.malformedForm defect form)
  | cyclic (chain : List String) : ImportFault (.cyclicImport chain)
  | undecodable (path : String) (fault : Text.Utf8Fault) :
      ImportFault (.undecodableImport path fault)
  | malformed (path : String) (error : SyntaxError) : ImportFault (.malformedImport path error)
  | notAModule (path : String) : ImportFault (.importNotAModule path)

/-! ## Expanding -/

theorem importFault_of_importPath {item : Tree} {text : String} {error : LinkError}
    (failed : importPath item text = .error error) : ImportFault error := by
  unfold importPath at failed
  split at failed
  · cases failed
  · cases failed
    exact .path _ _

theorem importFault_of_moduleOfBytes {path : String} {bytes : Bytes} {error : LinkError}
    (failed : moduleOfBytes path bytes = .error error) : ImportFault error := by
  unfold moduleOfBytes at failed
  split at failed
  · cases failed
    exact .undecodable _ _
  · split at failed
    · cases failed
      exact .malformed _ _
    · split at failed
      · cases failed
      · cases failed
        exact .notAModule _

/-- Whether a computation looks at the store only as an inquiry does that fails on its
own only with errors of imports. -/
abbrev Importing {τ α : Type} (computation : Session → Result τ α × Session) : Prop :=
  Inquiring (fun _ => True) ImportFault computation

theorem inquiring_expandItem {expandModule : List String → List Tree → SessionM (List Tree)}
    (inquires : ∀ chain items, Importing (expandModule chain items).outcome)
    (chain : List String) (item : Tree) :
    Importing (expandItem expandModule chain item).outcome := by
  unfold expandItem
  cases fileImport? item with
  | none => exact inquiring_pure _
  | some text =>
      refine inquiring_bind (inquiring_ofExcept fun _ => importFault_of_importPath) fun path => ?_
      have onward : Importing (do
          report (.expandingImport path chain.length)
          let bytes ← loadBytes path
          let module ← expandItem.ofExcept (moduleOfBytes path bytes)
          let items ← expandModule (chain ++ [path]) module.items
          pure (items.filter Tree.isList)).outcome :=
        inquiring_bind (inquiring_report _) fun _ => inquiring_bind (inquiring_loadBytes trivial)
          fun _ => inquiring_bind (inquiring_ofExcept fun _ => importFault_of_moduleOfBytes)
            fun _ => inquiring_bind (inquires _ _) fun _ => inquiring_pure _
      split
      · exact inquiring_bind (inquiring_throw (.cyclic _)) fun _ => onward
      · exact onward

theorem inquiring_expandEach {expandItem : Tree → SessionM (List Tree)}
    (inquires : ∀ item, Importing (expandItem item).outcome) (items : List Tree) :
    Importing (expandEach expandItem items).outcome := by
  induction items with
  | nil => exact inquiring_pure []
  | cons item rest ih =>
      exact inquiring_bind (inquires item) fun _ => inquiring_bind ih fun _ => inquiring_pure _

theorem inquiring_expandItems (bound : Nat) (chain : List String) (items : List Tree) :
    Importing (expandItems bound chain items).outcome := by
  induction bound generalizing chain items with
  | zero =>
      exact inquiring_expandEach
        (inquiring_expandItem (fun chain' _ => inquiring_throw (.cyclic chain')) chain) items
  | succ bound ih => exact inquiring_expandEach (inquiring_expandItem ih chain) items

/-- Expanding gives the same for all bounds that are as large as the number of
files. -/
theorem outcome_expandItems_memory (files : Files) (chain : List String) (items : List Tree)
    {limit : Nat} (enough : files.length ≤ limit) :
    ((expandItems (limit + 1) chain items >>= fun items => pure (Tree.list items)).outcome
        ⟨.memory files, #[]⟩).1 =
      ((expandItems (files.length + 1) chain items >>= fun items => pure (Tree.list items)).outcome
        ⟨.memory files, #[]⟩).1 := by
  obtain ⟨result, run⟩ :=
    exists_expansionRun (le_refl (chain.length + (pathsLeft files chain).card)) items
  have few := card_pathsLeft_le files chain
  have fewer := fileCount_le_length files
  have gives : ∀ count, files.length ≤ count →
      ((expandItems (count + 1) chain items >>= fun items => pure (Tree.list items)).outcome
        ⟨.memory files, #[]⟩).1 = (result.map Tree.list).mapError (·, ()) := by
    intro count enough
    obtain ⟨journal, expands⟩ := expandItems_of_run run (by omega : _ ≤ count + 1) #[]
    unfold outcome
    cases result with
    | error error => rw [bind_of_error expands]; rfl
    | ok expanded => rw [bind_of_ok expands]; rfl
  rw [gives limit enough, gives files.length le_rfl]

theorem inquiring_expandImports (module : Tree) (origin : Option String) :
    Importing (Module.expandImports module origin).outcome :=
  Inquiring.bound
    (fun count => inquiring_bind (inquiring_expandItems (count + 1) origin.toList module.items)
      fun _ => inquiring_pure _)
    (fun files _ enough => outcome_expandItems_memory files origin.toList module.items enough)

/-! ## Inlining -/

/-- What inlining gives: the items, or the failure with the items as far as it got. -/
def Inlined.result : Inlined → Result (List Tree) (List Tree)
  | (items, none) => .ok items
  | (items, some error) => .error (error, items)

theorem Inlined.result_injective {inlined inlined' : Inlined}
    (same : inlined.result = inlined'.result) : inlined = inlined' := by
  obtain ⟨items, _ | error⟩ := inlined <;> obtain ⟨items', _ | error'⟩ := inlined' <;>
    simp_all [result]

/-- An item in front of what inlining gives. -/
theorem Inquiring.cons {paths : String → Prop} {errors : LinkError → Prop}
    {computation : Session → Inlined × Session}
    (inquires : Inquiring paths errors fun session =>
      ((computation session).1.result, (computation session).2)) (first : Tree) :
    Inquiring paths errors fun session =>
      (Inlined.result (first :: (computation session).1.1, (computation session).1.2),
        (computation session).2) := by
  have taken : ∀ items, Inquiring paths errors fun session : Session =>
      ((.ok (first :: items) : Result (List Tree) (List Tree)), session) :=
    fun items => .of_ok _ fun _ => ⟨rfl, rfl⟩
  refine (inquires.andThen (first :: ·) taken).congr fun session => ?_
  rcases computation session with ⟨⟨items, _ | error⟩, session'⟩ <;> rfl

section Items

variable {names : Tree → String → Prop} {errors : LinkError → Prop} {τ α : Type}
  {computation : Session → Result τ α × Session} {first : Tree} {rest : List Tree}

/-- What the first item names is named by the items. -/
theorem Inquiring.of_head (inquires : Inquiring (names first) errors computation) :
    Inquiring (fun path => ∃ item ∈ first :: rest, names item path) errors computation :=
  inquires.mono (fun _ named => ⟨first, List.mem_cons_self, named⟩) fun _ => id

theorem Inquiring.of_tail
    (inquires : Inquiring (fun path => ∃ item ∈ rest, names item path) errors computation) :
    Inquiring (fun path => ∃ item ∈ first :: rest, names item path) errors computation := by
  refine inquires.mono ?_ fun _ => id
  rintro path ⟨item, member, named⟩
  exact ⟨item, List.mem_cons_of_mem first member, named⟩

end Items

/-- Whether an item is a raw import of a path. -/
def InlinesFile (item : Tree) (path : String) : Prop :=
  ∃ text, rawImport? item = some text ∧ unquoted? text = some path

theorem inquiring_inlineImport {item : Tree} {text : String} (isRaw : rawImport? item = some text) :
    Inquiring (InlinesFile item) ImportFault (inlineImport item text).outcome := by
  unfold inlineImport
  cases unquoted : unquoted? text with
  | none => exact inquiring_throw (.path _ _)
  | some path =>
      exact inquiring_bind (inquiring_loadBytes ⟨text, isRaw, unquoted⟩) fun _ =>
        inquiring_bind (inquiring_report _) fun _ => inquiring_pure _

theorem inquiring_inlineItems (items : List Tree) :
    Inquiring (fun path => ∃ item ∈ items, InlinesFile item path) ImportFault fun session =>
      (Inlined.result (inlineItems session items).1, (inlineItems session items).2) := by
  induction items with
  | nil => exact .of_ok [] fun _ => ⟨rfl, rfl⟩
  | cons item rest ih =>
      cases isRaw : rawImport? item with
      | none =>
          refine (ih.of_tail.cons item).congr fun session => ?_
          simp only [inlineItems, isRaw]
      | some text =>
          have inquiresItem := inquiring_inlineImport isRaw
          refine (inquiresItem.of_head.andThen (fun _ => item :: rest) ih.of_tail.cons).congr
            fun session => ?_
          simp only [inlineItems, isRaw, outcome, EStateM.run]
          cases inlineImport item text session <;> rfl

/-- Whether a form is a data form that names a path. -/
def NamesRaw (form : Tree) (path : String) : Prop :=
  form.hasTag "data" = true ∧ ∃ item ∈ form.items, InlinesFile item path

/-- Inlining asks only for the paths that data forms name. -/
theorem inquiring_inlineForms (forms : List Tree) :
    Inquiring (fun path => ∃ form ∈ forms, NamesRaw form path) ImportFault fun session =>
      (Inlined.result (inlineForms session forms).1, (inlineForms session forms).2) := by
  induction forms with
  | nil => exact .of_ok [] fun _ => ⟨rfl, rfl⟩
  | cons form rest ih =>
      cases isData : form.hasTag "data" with
      | false =>
          refine (ih.of_tail.cons form).congr fun session => ?_
          simp only [inlineForms, isData, Bool.false_eq_true, if_false]
      | true =>
          have inquiresForm : Inquiring (NamesRaw form) ImportFault fun session =>
              (Inlined.result (inlineItems session form.items).1,
                (inlineItems session form.items).2) :=
            (inquiring_inlineItems form.items).mono (fun _ inlines => ⟨isData, inlines⟩) fun _ => id
          refine (inquiresForm.of_head.andThen (.list · :: rest)
            fun items => ih.of_tail.cons (.list items)).congr fun session => ?_
          simp only [inlineForms, isData, if_true]
          rcases inlineItems session form.items with ⟨⟨items, _ | error⟩, session'⟩ <;> rfl

/-- Whether two stores hold the same files except at one path. -/
def SameElsewhere (path : String) (files files' : Files) : Prop :=
  ∀ other, other ≠ path → files'.lookup other = files.lookup other

/-- Files in memory that differ only at a path which no data form names are inlined
alike. -/
theorem inlineForms_memory_eq {forms : List Tree} {path : String}
    (unnamed : ∀ form ∈ forms, ¬ NamesRaw form path) {files files' : Files}
    (same : SameElsewhere path files files')
    (journal journal' : Array Event) :
    (inlineForms ⟨.memory files, journal⟩ forms).1 =
      (inlineForms ⟨.memory files', journal'⟩ forms).1 := by
  refine Inlined.result_injective ((inquiring_inlineForms forms).memory_eq ?_ journal journal')
  rintro other ⟨form, member, names⟩
  refine same other ?_
  rintro rfl
  exact unnamed form member names

end WatLink
