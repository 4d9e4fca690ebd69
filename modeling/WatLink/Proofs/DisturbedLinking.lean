import WatLink.Proofs.ExpansionRun
import WatLink.Proofs.FileInquiries
import WatLink.Proofs.PassOutcome
import WatLink.Proofs.StoreSnapshots

/-!
# Linking while files change

Linking is an inquiry: it asks the store for paths and gives up when one cannot be
read.  It can be run against a directory store while something else changes the disk
before every reading.  This gives what the inquiry gives for the files that the store
remembers in the end.  So linking never mixes two states of a file, whatever happens
on the disk meanwhile.
-/

namespace WatLink

/-- Whether a result of reading from changing disks is that of files in memory.  A
file that cannot be read is reported as such, where memory has none. -/
inductive MatchesMemory {τ α : Type} (root : Path) (disks : Nat → Disk) :
    Result τ α → Result τ α → Prop
  | same (result : Result τ α) : MatchesMemory root disks result result
  | unreadable {path : String} {file : Path} {fault : DiskFault} {time : Nat} (left : τ) :
      FileStore.contents root (disks time) path = .error (.unreadable file fault) →
        MatchesMemory root disks (.error (.importUnreadable file.toText fault, left))
          (.error (.importNotFound path, left))

theorem MatchesMemory.of_later {τ α : Type} {root : Path} {disks : Nat → Disk}
    {result result' : Result τ α}
    (same : MatchesMemory root (fun time => disks (time + 1)) result result') :
    MatchesMemory root disks result result' := by
  cases same with
  | same => exact .same result
  | unreadable left denied => exact .unreadable left denied

namespace Inquiry

variable {τ α : Type}

/-- Run an inquiry against a store whose disk changes before every reading.  The
limit stands in for a bound on chains, which no state of the disk can give. -/
def disturbed (limit : Nat) :
    Inquiry τ α → (disks : Nat → Disk) → FileStore → Result τ α × FileStore
  | .done value, _, store => (.ok value, store)
  | .failed error left, _, store => (.error (error, left), store)
  | .ask path left next, disks, store =>
      match ((store.withDisk (disks 0)).load path).1 with
      | .error fault =>
          (.error (.ofLoad path fault, left), ((store.withDisk (disks 0)).load path).2.1)
      | .ok bytes =>
          (next bytes).disturbed limit (fun time => disks (time + 1))
            ((store.withDisk (disks 0)).load path).2.1
  | .bound next, disks, store => (next limit).disturbed limit disks store

/-- What a disturbed inquiry comes to: a result, and the files that the store
remembers.  The result is that of these files, those that were remembered before are
still, and the rest was on the disk at some time. -/
structure Snapshot (inquiry : Inquiry τ α) (limit : Nat) (disks : Nat → Disk) (root : Path)
    (cache : Files) (result : Result τ α) (files : Files) : Prop where
  result : MatchesMemory root disks result (inquiry.onFiles limit files)
  keeps : ∀ path bytes, cache.lookup path = some bytes → files.lookup path = some bytes
  comes : ∀ path bytes, files.lookup path = some bytes →
    cache.lookup path = some bytes ∨
      ∃ time, FileStore.contents root (disks time) path = .ok bytes

theorem snapshot_of_onFiles {inquiry : Inquiry τ α} {limit : Nat} {disks : Nat → Disk}
    {root : Path} {cache : Files} {result : Result τ α}
    (gives : MatchesMemory root disks result (inquiry.onFiles limit cache)) :
    inquiry.Snapshot limit disks root cache result cache :=
  ⟨gives, fun _ _ => id, fun _ _ => .inl⟩

/-- An inquiry that asks for a file has the snapshot of what it does with the file. -/
theorem Snapshot.ask {path : String} {left : τ} {next : Bytes → Inquiry τ α} {limit : Nat}
    {disks : Nat → Disk} {root : Path} {cache cache' files : Files} {bytes : Bytes}
    {result : Result τ α}
    (snapshot : (next bytes).Snapshot limit (fun time => disks (time + 1)) root cache' result files)
    (holds : cache'.lookup path = some bytes)
    (keeps : ∀ other found, cache.lookup other = some found → cache'.lookup other = some found)
    (comes : ∀ other found, cache'.lookup other = some found →
      cache.lookup other = some found ∨
        FileStore.contents root (disks 0) other = .ok found) :
    (Inquiry.ask path left next).Snapshot limit disks root cache result files where
  result := by
    simp only [onFiles, snapshot.keeps path bytes holds]
    exact snapshot.result.of_later
  keeps := fun other found cached => snapshot.keeps other found (keeps other found cached)
  comes := by
    intro other found served
    rcases snapshot.comes other found served with remembered | ⟨time, there⟩
    · exact (comes other found remembered).imp id fun there => ⟨0, there⟩
    · exact .inr ⟨time + 1, there⟩

/-- A disturbed inquiry gives what it gives for the files that are remembered in the
end. -/
theorem disturbed_directory (inquiry : Inquiry τ α) (limit : Nat) (disks : Nat → Disk)
    (root : Path) (disk : Disk) (cache : Files) :
    ∃ result disk' files, inquiry.disturbed limit disks (.directory root disk cache) =
        (result, .directory root disk' files) ∧
      inquiry.Snapshot limit disks root cache result files := by
  induction inquiry generalizing disks disk cache with
  | done value => exact ⟨_, disk, cache, rfl, snapshot_of_onFiles (.same _)⟩
  | failed error left => exact ⟨_, disk, cache, rfl, snapshot_of_onFiles (.same _)⟩
  | bound next ih =>
      obtain ⟨result, disk', files, gives, snapshot⟩ := ih limit disks disk cache
      exact ⟨result, disk', files, gives, snapshot.result, snapshot.keeps, snapshot.comes⟩
  | ask path left next ih =>
      simp only [disturbed, FileStore.withDisk]
      rcases FileStore.load_directory_cases root (disks 0) cache path with
        ⟨bytes, cached, answer, behind⟩ | ⟨fault, notCached, notThere, answer, behind⟩ |
          ⟨bytes, notCached, there, answer, behind⟩
      · rw [answer, behind]
        obtain ⟨result, disk', files, gives, snapshot⟩ :=
          ih bytes (fun time => disks (time + 1)) (disks 0) cache
        exact ⟨result, disk', files, gives,
          snapshot.ask cached (fun _ _ => id) fun _ _ => .inl⟩
      · rw [answer, behind]
        refine ⟨_, disks 0, cache, rfl, snapshot_of_onFiles ?_⟩
        simp only [onFiles, notCached]
        cases fault with
        | missing => exact .same _
        | unreadable file fault => exact .unreadable left notThere
      · rw [answer, behind]
        obtain ⟨result, disk', files, gives, snapshot⟩ :=
          ih bytes (fun time => disks (time + 1)) (disks 0) ((path, bytes) :: cache)
        refine ⟨result, disk', files, gives,
          snapshot.ask List.lookup_cons_self (fun other found cached => ?_)
            fun other found remembered => ?_⟩
        · have differs : (other == path) = false := by
            rw [beq_eq_false_iff_ne]
            rintro rfl
            cases notCached.symm.trans cached
          rwa [List.lookup_cons, differs]
        · rw [List.lookup_cons] at remembered
          split at remembered
          · rename_i same
            obtain rfl : other = path := by simpa using same
            cases remembered
            exact .inr there
          · exact .inl remembered

end Inquiry

/-! ## Linking inquires -/

open SessionM

/-- Whether a computation looks at the store only as an inquiry does. -/
abbrev InquiringAny {τ α : Type} (computation : Session → Result τ α × Session) : Prop :=
  Inquiring (fun _ => True) (fun _ => True) computation

theorem Importing.any {τ α : Type} {computation : Session → Result τ α × Session}
    (imports : Importing computation) : InquiringAny computation :=
  imports.mono (fun _ => id) fun _ _ => trivial

theorem InquiringAny.of_value {τ α : Type} {computation : Session → Result τ α × Session}
    (value : Result τ α) (gives : ∀ session, (computation session).1 = value ∧
      (computation session).2.store = session.store) : InquiringAny computation := by
  cases value with
  | ok value => exact .of_ok value gives
  | error failure => exact .of_error trivial gives

/-- What linking gives: the tree, or the failure with the tree as it was left. -/
def LinkState.result (state : LinkState) : Result Tree Tree × Session :=
  (match state.failure with
    | none => .ok state.tree
    | some error => .error (error, state.tree), state.session)

theorem store_adopt {ε : Type} (state : LinkState) (revision : Revision ε)
    (ofFailure : ε → LinkError) (event : Nat → Event) :
    (state.adopt revision ofFailure event).session.store = state.session.store := by
  unfold LinkState.adopt
  cases revision.failure <;> rfl

/-- Passes without files leave the store as it is. -/
theorem store_apply {pass : Pass} (noFiles : ¬ pass.ReadsFiles) (origin : Option String)
    (state : LinkState) : (pass.apply origin state).session.store = state.session.store := by
  cases pass with
  | expandImports => exact absurd (.inl rfl) noFiles
  | inlineData => exact absurd (.inr rfl) noFiles
  | decimalNumerals => exact store_adopt state _ _ _
  | foldConstants => exact store_adopt state _ _ _
  | sizeMemories => rfl
  | mergeStarts =>
      unfold Pass.apply
      dsimp only
      split <;> rfl
  | sortForms => rfl

theorem inquiring_apply (pass : Pass) (origin : Option String) (tree : Tree) :
    InquiringAny fun session => (pass.apply origin ⟨tree, session, none⟩).result := by
  have given : ∀ tree : Tree, InquiringAny fun session : Session =>
      ((.ok tree : Result Tree Tree), session) :=
    fun tree => .of_ok _ fun _ => ⟨rfl, rfl⟩
  by_cases readsFiles : pass.ReadsFiles
  · rcases readsFiles with rfl | rfl
    · refine ((inquiring_expandImports tree origin).any.andThen (fun _ => tree) given).congr
        fun session => ?_
      simp only [Pass.apply, outcome, EStateM.run]
      cases Module.expandImports tree origin session <;> rfl
    · have inquires := (inquiring_inlineForms tree.items).mono (fun _ _ => trivial) fun _ _ => trivial
      refine (inquires.andThen Tree.list fun items => given (.list items)).congr fun session => ?_
      simp only [Pass.apply, Module.inlineData]
      rcases inlineForms session tree.items with ⟨⟨items, _ | error⟩, session'⟩ <;> rfl
  · refine InquiringAny.of_value (pass.apply origin ⟨tree, ⟨.empty, #[]⟩, none⟩).result.1
      fun session => ?_
    have start : SameOutcome ⟨tree, session, none⟩ ⟨tree, ⟨.empty, #[]⟩, none⟩ := ⟨rfl, rfl⟩
    have same := start.apply readsFiles origin
    refine ⟨?_, store_apply readsFiles origin _⟩
    simp only [LinkState.result, same.tree, same.failure]

theorem inquiring_run (pass : Pass) (origin : Option String) (tree : Tree) :
    InquiringAny fun session => (pass.run origin ⟨tree, session, none⟩).result := by
  cases isModule : tree.isModule with
  | true =>
      have applied := (inquiring_apply pass origin tree).comp
        (fun session => (rfl : (Session.mk session.store
          (session.journal.push (.runningPass pass))).store = session.store))
      refine applied.congr fun session => ?_
      simp only [Pass.run, LinkState.report, isModule, if_true]
  | false =>
      refine InquiringAny.of_value (.error (.notAModule pass, tree)) fun session => ?_
      simp only [Pass.run, LinkState.report, isModule, Bool.false_eq_true, if_false]
      exact ⟨rfl, rfl⟩

theorem inquiring_link (passes : List Pass) (origin : Option String) (tree : Tree) :
    InquiringAny fun session => (Link.link passes origin session tree).result := by
  induction passes generalizing tree with
  | nil => exact .of_ok tree fun _ => ⟨rfl, rfl⟩
  | cons pass rest ih =>
      refine ((inquiring_run pass origin tree).andThen id ih).congr fun session => ?_
      simp only [Link.link]
      rw [Link.runPasses_cons rfl]
      rcases pass.run origin ⟨tree, session, none⟩ with ⟨tree', session', _ | error⟩
      · rfl
      · rw [Link.runPasses_of_failure rfl]
        rfl

/-- A directory store serves one snapshot of each path.  What a call has found is
found by every later one, as bytes and as text.  A call that fails is forgotten, so
that the next one sees what is there by then.  Calls for other paths do not matter.
And linking, with the disk changed in any way before each of its readings, gives what
it gives for one list of files: those that the store remembers, each as it was at
some time. -/
theorem directory_serves_snapshots (root : Path) (disk : Disk) :
    (∀ before path bytes,
      ((FileStore.after (.directory root disk []) before).load path).1 = .ok bytes →
        ∀ call : FileStore.Action, call.path? = some path → ∀ between,
          ((FileStore.after (.directory root disk []) (before ++ call :: between)).load path).1 =
              .ok bytes ∧
            ((FileStore.after (.directory root disk [])
              (before ++ call :: between)).loadText path).1 = .ok (Text.decodeUtf8 bytes)) ∧
    (∀ before path fault,
      ((FileStore.after (.directory root disk []) before).load path).1 = .error fault →
        ∀ call : FileStore.Action, call.path? = some path →
          FileStore.after (.directory root disk []) (before ++ [call]) =
              FileStore.after (.directory root disk []) before ∧
            (∀ between, (∀ action ∈ between, action.path? ≠ some path) →
              ((FileStore.after (.directory root disk []) (before ++ call :: between)).load path).1 =
                FileStore.contents root
                  (FileStore.diskAfter disk (before ++ call :: between)) path) ∧
            ∀ bytes disk',
              (FileStore.diskAfter disk before).write (FileStore.pathBelow root path) bytes =
                  .ok disk' →
                ((FileStore.after (.directory root disk [])
                  (before ++ [call, .outside fun _ => disk'])).load path).1 = .ok bytes) ∧
    (∀ (actions : List FileStore.Action) path,
      ((FileStore.after (.directory root disk []) (actions.filter fun action =>
          action.path? = none ∨ action.path? = some path)).load path).1 =
        ((FileStore.after (.directory root disk []) actions).load path).1) ∧
    ∀ passes origin tree,
      (∃ inquiry : Inquiry Tree Tree,
        inquiry.Answers fun session => (Link.link passes origin session tree).result) ∧
      ∀ inquiry : Inquiry Tree Tree,
        inquiry.Answers (fun session => (Link.link passes origin session tree).result) →
          ∀ limit disks, ∃ result disk' files,
            inquiry.disturbed limit disks (.directory root disk []) =
                (result, .directory root disk' files) ∧
              (∀ path bytes, files.lookup path = some bytes →
                ∃ time, FileStore.contents root (disks time) path = .ok bytes) ∧
              (files.length ≤ limit → ∀ journal, MatchesMemory root disks result
                (Link.link passes origin ⟨.memory files, journal⟩ tree).result.1) := by
  refine ⟨?_, ?_, fun actions path => FileStore.load_after_filter actions, ?_⟩
  · intro before path bytes found call isCall between
    have stays := FileStore.load_after_found found isCall between
    exact ⟨stays, by rw [FileStore.loadText, stays]; rfl⟩
  · intro before path fault failed call isCall
    refine ⟨FileStore.after_failure failed isCall,
      fun between noCalls => FileStore.load_after_failure failed isCall noCalls,
      fun bytes disk' written => ?_⟩
    rw [FileStore.load_after_failure failed isCall (by simp [FileStore.Action.path?]),
      FileStore.diskAfter_append, FileStore.contents]
    exact congrArg (Except.mapError _) (Disk.read_write written)
  · intro passes origin tree
    obtain ⟨linking, linkingAnswers, -⟩ := inquiring_link passes origin tree
    refine ⟨⟨linking, linkingAnswers⟩, fun inquiry answers limit disks => ?_⟩
    obtain ⟨result, disk', files, gives, snapshot⟩ :=
      inquiry.disturbed_directory limit disks root disk []
    refine ⟨result, disk', files, gives, fun path bytes served => ?_, fun enough journal => ?_⟩
    · exact (snapshot.comes path bytes served).resolve_left (by simp)
    · exact answers.memory enough journal ▸ snapshot.result

/-- A disk with one file. -/
def smallDisk : Disk where
  workingDirectory := ⟨"/", []⟩
  files := [(["a"], [97])]
  directories := []

/-- A data form of two items in a module. -/
def dataOfTwo (first second : Tree) : Tree :=
  .form "module" [.form "data" [first, second]]

/-- A raw import of the file on the disk. -/
def rawA : Tree :=
  .form "import" [.atom "\"a\"", .form "raw" []]

/-- The literal of the bytes of that file. -/
def literalA : Tree :=
  .atom (StringLiteral.ofBytes [97])

/-- The inquiry of a module that inlines a file twice. -/
def inlinesTwice : Inquiry Tree Tree :=
  .ask "a" (dataOfTwo rawA rawA) fun first =>
    .ask "a" (dataOfTwo (.atom (StringLiteral.ofBytes first)) rawA) fun second =>
      .done (dataOfTwo (.atom (StringLiteral.ofBytes first)) (.atom (StringLiteral.ofBytes second)))

theorem inlineImport_of_error {item : Tree} {text path : String} {session : Session}
    {fault : LoadFault} (unquoted : unquoted? text = some path)
    (fails : (session.store.load path).1 = .error fault) :
    ∃ journal, inlineImport item text session =
      .error (.ofLoad path fault) ⟨(session.store.load path).2.1, journal⟩ := by
  simp only [inlineImport, unquoted, bind_of_error (loadBytes_of_error fails)]
  exact ⟨_, rfl⟩

theorem inlineImport_of_ok {item : Tree} {text path : String} {session : Session} {bytes : Bytes}
    (unquoted : unquoted? text = some path) (found : (session.store.load path).1 = .ok bytes) :
    ∃ journal, inlineImport item text session =
      .ok (.atom (StringLiteral.ofBytes bytes)) ⟨(session.store.load path).2.1, journal⟩ := by
  simp only [inlineImport, unquoted, bind_of_ok (loadBytes_of_ok found)]
  exact ⟨_, rfl⟩

theorem answers_inlinesTwice :
    inlinesTwice.Answers fun session =>
      (Link.link [.inlineData] none session (dataOfTwo rawA rawA)).result where
  runs := by
    rintro ⟨store, journal⟩
    have isModule : (dataOfTwo rawA rawA).isModule = true := by decide +kernel
    have items : (dataOfTwo rawA rawA).items = [.atom "module", .form "data" [rawA, rawA]] := rfl
    have notData : (Tree.atom "module").hasTag "data" = false := by decide +kernel
    have isData : (Tree.form "data" [rawA, rawA]).hasTag "data" = true := by decide +kernel
    have dataItems : (Tree.form "data" [rawA, rawA]).items = [.atom "data", rawA, rawA] := rfl
    have notRaw : rawImport? (.atom "data") = none := by decide +kernel
    have isRaw : rawImport? rawA = some "\"a\"" := by decide +kernel
    have unquoted : unquoted? "\"a\"" = some "a" := by decide +kernel
    rw [Link.link, Link.runPasses_cons rfl, Link.runPasses]
    simp only [Pass.run, LinkState.report, isModule, if_true, Pass.apply, Module.inlineData, items,
      inlineForms, notData, isData, Bool.false_eq_true, if_false, dataItems, inlineItems, notRaw,
      isRaw, EStateM.run, inlinesTwice, Inquiry.run]
    -- the session changes with every reading, so the second one is looked at behind the first
    cases first : (store.load "a").1 with
    | error fault =>
        obtain ⟨_, fails⟩ := @inlineImport_of_error rawA _ _
          ⟨store, journal.push (.runningPass .inlineData)⟩ _ unquoted first
        simp only [fails]
        rfl
    | ok bytes =>
        obtain ⟨between, inlines⟩ := @inlineImport_of_ok rawA _ _
          ⟨store, journal.push (.runningPass .inlineData)⟩ _ unquoted first
        simp only [inlines]
        cases second : ((store.load "a").2.1.load "a").1 with
        | error fault =>
            obtain ⟨_, fails⟩ := @inlineImport_of_error rawA _ _
              ⟨(store.load "a").2.1, between⟩ _ unquoted second
            simp only [fails]
            rfl
        | ok bytes' =>
            obtain ⟨_, inlines'⟩ := @inlineImport_of_ok rawA _ _
              ⟨(store.load "a").2.1, between⟩ _ unquoted second
            simp only [inlines']
            rfl
  steady := fun files limit _ => by simp only [inlinesTwice, Inquiry.onFiles]

/-- A file that was read stays, one that was missing is seen once it is there, and a
module gets the same bytes twice although the file is removed in between. -/
theorem snapshots_smallDisk :
    ((FileStore.after (.directory ⟨"/", []⟩ smallDisk []) [.bytes "a",
        .outside (·.remove ⟨"/", ["a"]⟩)]).load "a").1 = .ok [97] ∧
      (∃ disk', smallDisk.write ⟨"/", ["b"]⟩ [98] = .ok disk' ∧
        ((FileStore.after (.directory ⟨"/", []⟩ smallDisk []) [.text "b",
          .outside fun _ => disk']).load "b").1 = .ok [98]) ∧
      inlinesTwice.disturbed 9
          (fun time => if time = 0 then smallDisk else smallDisk.remove ⟨"/", ["a"]⟩)
          (.directory ⟨"/", []⟩ smallDisk []) =
        (.ok (dataOfTwo literalA literalA),
          .directory ⟨"/", []⟩ (smallDisk.remove ⟨"/", ["a"]⟩) [("a", [97])]) ∧
      ∀ journal, (Link.link [.inlineData] none ⟨.memory [("a", [97])], journal⟩
        (dataOfTwo rawA rawA)).result.1 = .ok (dataOfTwo literalA literalA) := by
  obtain ⟨stays, forgets, -, links⟩ := directory_serves_snapshots ⟨"/", []⟩ smallDisk
  have found : ((FileStore.after (.directory ⟨"/", []⟩ smallDisk []) []).load "a").1 =
      .ok [97] := by
    cbv
  have missing : ((FileStore.after (.directory ⟨"/", []⟩ smallDisk []) []).load "b").1 =
      .error .missing := by
    cbv
  have ran : inlinesTwice.disturbed 9
      (fun time => if time = 0 then smallDisk else smallDisk.remove ⟨"/", ["a"]⟩)
      (.directory ⟨"/", []⟩ smallDisk []) =
        (.ok (dataOfTwo literalA literalA),
          .directory ⟨"/", []⟩ (smallDisk.remove ⟨"/", ["a"]⟩) [("a", [97])]) := by
    rfl
  obtain ⟨result, disk', files, gives, -, same⟩ :=
    (links [.inlineData] none (dataOfTwo rawA rawA)).2 inlinesTwice answers_inlinesTwice 9
      fun time => if time = 0 then smallDisk else smallDisk.remove ⟨"/", ["a"]⟩
  cases ran.symm.trans gives
  refine ⟨(stays [] "a" _ found (.bytes "a") rfl [_]).1,
    ⟨_, rfl, (forgets [] "b" _ missing (.text "b") rfl).2.2 [98] _ rfl⟩, ran, fun journal => ?_⟩
  generalize inMemory : (Link.link [.inlineData] none ⟨.memory [("a", [97])], journal⟩
    (dataOfTwo rawA rawA)).result.1 = memory
  have matches' := same (by decide) journal
  rw [inMemory] at matches'
  cases matches'
  rfl

end WatLink
