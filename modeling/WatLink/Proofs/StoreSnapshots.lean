import WatLink.Proofs.DiskWrites
import WatLink.Store.FileStore

/-!
# Snapshots of a directory store

A directory store is asked for paths while the disk changes outside of it.  What
it answers for a path is what the first successful call for that path found, and
what the disk holds now if there was none.  Everything else follows from this: an
answer stays, a failure is forgotten, and calls for other paths do not matter.
-/

namespace WatLink

namespace FileStore

/-- The text of the file at an import path, or why it has none, and the store behind
the reading. -/
def loadText (store : FileStore) (path : String) :
    Except LoadFault (Except Text.Utf8Fault String) × FileStore :=
  ((store.load path).1.map Text.decodeUtf8, (store.load path).2.1)

/-- What the disk holds for an import path below a root. -/
def contents (root : Path) (disk : Disk) (path : String) : Except LoadFault Bytes :=
  (disk.read (pathBelow root path)).mapError (.ofDisk (pathBelow root path))

/-- What can happen to a store: it is asked for bytes or text, or something else
changes the disk. -/
inductive Action where
  | bytes (path : String)
  | text (path : String)
  | outside (change : Disk → Disk)

namespace Action

/-- The path of a call. -/
def path? : Action → Option String
  | .bytes path => some path
  | .text path => some path
  | .outside _ => none

/-- The disk behind an action. -/
def disk : Action → Disk → Disk
  | .outside change, disk => change disk
  | _, disk => disk

/-- The store behind an action. -/
def apply : Action → FileStore → FileStore
  | .bytes path, store => (store.load path).2.1
  | .text path, store => (store.loadText path).2
  | .outside change, .directory root disk cache =>
      (FileStore.directory root disk cache).withDisk (change disk)
  | .outside _, store => store

end Action

/-- The store behind some actions. -/
def after (store : FileStore) (actions : List Action) : FileStore :=
  actions.foldl (fun store action => action.apply store) store

/-- The disk behind some actions. -/
def diskAfter (disk : Disk) (actions : List Action) : Disk :=
  actions.foldl (fun disk action => action.disk disk) disk

/-- What the first successful call for a path finds. -/
def firstRead (root : Path) (disk : Disk) : List Action → String → Option Bytes
  | [], _ => none
  | action :: rest, path =>
      (if action.path? = some path then (contents root disk path).toOption else none).or
        (firstRead root (action.disk disk) rest path)

/-- What a directory store can do with a path: serve what it remembers, fail to read
the file, or read the file and remember it. -/
theorem load_directory_cases (root : Path) (disk : Disk) (cache : List (String × Bytes))
    (path : String) :
    (∃ bytes, cache.lookup path = some bytes ∧
        ((directory root disk cache).load path).1 = .ok bytes ∧
        ((directory root disk cache).load path).2.1 = .directory root disk cache) ∨
      (∃ fault, cache.lookup path = none ∧ contents root disk path = .error fault ∧
        ((directory root disk cache).load path).1 = .error fault ∧
        ((directory root disk cache).load path).2.1 = .directory root disk cache) ∨
      ∃ bytes, cache.lookup path = none ∧ contents root disk path = .ok bytes ∧
        ((directory root disk cache).load path).1 = .ok bytes ∧
        ((directory root disk cache).load path).2.1 = .directory root disk ((path, bytes) :: cache) := by
  unfold contents
  cases cached : cache.lookup path with
  | some bytes => exact .inl ⟨bytes, rfl, by simp [load, cached], by simp [load, cached]⟩
  | none =>
      cases found : disk.read (pathBelow root path) with
      | error fault =>
          exact .inr (.inl ⟨_, rfl, rfl, by simp [load, cached, found],
            by simp [load, cached, found]⟩)
      | ok bytes =>
          exact .inr (.inr ⟨bytes, rfl, rfl, by simp [load, cached, found],
            by simp [load, cached, found]⟩)

theorem load_directory (root : Path) (disk : Disk) (cache : List (String × Bytes)) (path : String) :
    ((directory root disk cache).load path).1 =
      (cache.lookup path).elim (contents root disk path) .ok := by
  rcases load_directory_cases root disk cache path with ⟨bytes, cached, answer, -⟩ |
      ⟨fault, notCached, notThere, answer, -⟩ | ⟨bytes, notCached, there, answer, -⟩
  · rw [answer, cached]
    rfl
  · rw [answer, notCached, notThere]
    rfl
  · rw [answer, notCached, there]
    rfl

/-- A call adds what it finds to what is remembered. -/
theorem store_load_directory (root : Path) (disk : Disk) (cache : List (String × Bytes))
    (path : String) :
    ∃ cache', ((directory root disk cache).load path).2.1 = .directory root disk cache' ∧
      ∀ other, cache'.lookup other =
        (cache.lookup other).or
          (if path = other then (contents root disk other).toOption else none) := by
  rcases load_directory_cases root disk cache path with ⟨bytes, cached, -, behind⟩ |
      ⟨fault, notCached, notThere, -, behind⟩ | ⟨bytes, notCached, there, -, behind⟩
  · refine ⟨cache, behind, fun other => ?_⟩
    by_cases same : path = other
    · subst same
      simp [cached]
    · simp [same]
  · refine ⟨cache, behind, fun other => ?_⟩
    by_cases same : path = other
    · subst same
      simp [notCached, notThere, Except.toOption]
    · simp [same]
  · refine ⟨(path, bytes) :: cache, behind, fun other => ?_⟩
    by_cases same : path = other
    · subst same
      simp [notCached, there, Except.toOption]
    · have differs : (other == path) = false := by simp [Ne.symm same]
      rw [List.lookup_cons, differs]
      simp [same]

/-- Asking a store for a file changes no answer. -/
theorem load_load (store : FileStore) (other path : String) :
    ((store.load other).2.1.load path).1 = (store.load path).1 := by
  cases store with
  | empty => rfl
  | memory files => rfl
  | directory root disk cache =>
      obtain ⟨cache', behind, remembered⟩ := store_load_directory root disk cache other
      rw [behind, load_directory, load_directory, remembered]
      cases cache.lookup path with
      | some bytes => rfl
      | none =>
          split
          · cases contents root disk path <;> rfl
          · rfl

theorem apply_directory (root : Path) (disk : Disk) (cache : List (String × Bytes))
    (action : Action) :
    ∃ cache', action.apply (.directory root disk cache) = .directory root (action.disk disk) cache' ∧
      ∀ path, cache'.lookup path = (cache.lookup path).or
        (if action.path? = some path then (contents root disk path).toOption else none) := by
  cases action with
  | bytes path =>
      simp only [Action.path?, Option.some.injEq]
      exact store_load_directory root disk cache path
  | text path =>
      simp only [Action.path?, Option.some.injEq]
      exact store_load_directory root disk cache path
  | outside change => exact ⟨cache, rfl, by simp [Action.path?]⟩

/-- What a store remembers for a path is what was read first. -/
theorem after_directory (root : Path) (disk : Disk) (cache : List (String × Bytes))
    (actions : List Action) :
    ∃ cache', after (.directory root disk cache) actions =
        .directory root (diskAfter disk actions) cache' ∧
      ∀ path, cache'.lookup path = (cache.lookup path).or (firstRead root disk actions path) := by
  induction actions generalizing disk cache with
  | nil => exact ⟨cache, rfl, by simp [firstRead]⟩
  | cons action rest ih =>
      obtain ⟨between, applied, remembered⟩ := apply_directory root disk cache action
      obtain ⟨cache', applies, remembers⟩ := ih (action.disk disk) between
      refine ⟨cache', ?_, fun path => ?_⟩
      · rw [after, List.foldl_cons, applied]
        exact applies
      · rw [remembers, remembered, firstRead, Option.or_assoc]

/-- A store answers with what was read first, or else with what the disk holds. -/
theorem load_after (root : Path) (disk : Disk) (actions : List Action) (path : String) :
    ((after (.directory root disk []) actions).load path).1 =
      (firstRead root disk actions path).elim (contents root (diskAfter disk actions) path) .ok := by
  obtain ⟨cache, applies, remembers⟩ := after_directory root disk [] actions
  rw [applies, load_directory, remembers]
  rfl

theorem diskAfter_append (disk : Disk) (actions more : List Action) :
    diskAfter disk (actions ++ more) = diskAfter (diskAfter disk actions) more :=
  List.foldl_append

theorem firstRead_append (root : Path) (disk : Disk) (actions more : List Action) (path : String) :
    firstRead root disk (actions ++ more) path =
      (firstRead root disk actions path).or (firstRead root (diskAfter disk actions) more path) := by
  induction actions generalizing disk with
  | nil => rfl
  | cons action rest ih =>
      rw [List.cons_append, firstRead, firstRead, ih, Option.or_assoc]
      rfl

theorem firstRead_eq_none {root : Path} {disk : Disk} {actions : List Action} {path : String}
    (noCalls : ∀ action ∈ actions, action.path? ≠ some path) :
    firstRead root disk actions path = none := by
  induction actions generalizing disk with
  | nil => rfl
  | cons action rest ih =>
      obtain ⟨first, others⟩ := List.forall_mem_cons.mp noCalls
      rw [firstRead, if_neg first, ih others]
      rfl

/-- A call leaves the disk as it is. -/
theorem disk_of_path? {action : Action} {path : String} (isCall : action.path? = some path)
    (disk : Disk) : action.disk disk = disk := by
  cases action with
  | bytes _ => rfl
  | text _ => rfl
  | outside _ => cases isCall

variable {root : Path} {disk : Disk} {before : List Action} {call : Action} {path : String}

/-- What a call has found is found by every later call. -/
theorem load_after_found {bytes : Bytes}
    (found : ((after (.directory root disk []) before).load path).1 = .ok bytes)
    (isCall : call.path? = some path) (between : List Action) :
    ((after (.directory root disk []) (before ++ call :: between)).load path).1 = .ok bytes := by
  rw [load_after] at found
  have firstCall : firstRead root disk (before ++ call :: between) path = some bytes := by
    rw [firstRead_append, firstRead, if_pos isCall]
    cases earlier : firstRead root disk before path with
    | some remembered =>
        rw [earlier] at found
        cases found
        rfl
    | none =>
        rw [earlier] at found
        rw [show contents root (diskAfter disk before) path = .ok bytes from found]
        rfl
  rw [load_after, firstCall]
  rfl

/-- A call that fails leaves the store as it was. -/
theorem after_failure {fault : LoadFault}
    (failed : ((after (.directory root disk []) before).load path).1 = .error fault)
    (isCall : call.path? = some path) :
    after (.directory root disk []) (before ++ [call]) = after (.directory root disk []) before := by
  obtain ⟨cache, applies, -⟩ := after_directory root disk [] before
  have unchanged : ((after (.directory root disk []) before).load path).2.1 =
      after (.directory root disk []) before := by
    rw [applies] at failed ⊢
    rcases load_directory_cases root (diskAfter disk before) cache path with
      ⟨bytes, -, answer, -⟩ | ⟨_, -, -, -, behind⟩ | ⟨bytes, -, -, answer, -⟩
    · cases failed.symm.trans answer
    · exact behind
    · cases failed.symm.trans answer
  have lastly : after (.directory root disk []) (before ++ [call]) =
      call.apply (after (.directory root disk []) before) := by
    rw [after, List.foldl_append]
    rfl
  rw [lastly]
  cases call with
  | bytes _ =>
      cases isCall
      exact unchanged
  | text _ =>
      cases isCall
      exact unchanged
  | outside _ => cases isCall

/-- Behind a call that failed, the next one finds what the disk holds by then. -/
theorem load_after_failure {fault : LoadFault}
    (failed : ((after (.directory root disk []) before).load path).1 = .error fault)
    (isCall : call.path? = some path) {between : List Action}
    (noCalls : ∀ action ∈ between, action.path? ≠ some path) :
    ((after (.directory root disk []) (before ++ call :: between)).load path).1 =
      contents root (diskAfter disk (before ++ call :: between)) path := by
  rw [load_after] at failed
  have neverRead : firstRead root disk (before ++ call :: between) path = none := by
    rw [firstRead_append, firstRead, if_pos isCall, firstRead_eq_none noCalls]
    cases earlier : firstRead root disk before path with
    | some remembered =>
        rw [earlier] at failed
        cases failed
    | none =>
        rw [earlier] at failed
        rw [show contents root (diskAfter disk before) path = .error fault from failed]
        rfl
  rw [load_after, neverRead]
  rfl

/-- Calls for other paths change nothing about the answer for a path. -/
theorem load_after_filter (actions : List Action) :
    ((after (.directory root disk []) (actions.filter fun action =>
        action.path? = none ∨ action.path? = some path)).load path).1 =
      ((after (.directory root disk []) actions).load path).1 := by
  have same : ∀ disk,
      firstRead root disk (actions.filter fun action =>
        action.path? = none ∨ action.path? = some path) path = firstRead root disk actions path ∧
      diskAfter disk (actions.filter fun action =>
        action.path? = none ∨ action.path? = some path) = diskAfter disk actions := by
    induction actions with
    | nil => exact fun disk => ⟨rfl, rfl⟩
    | cons action rest ih =>
        intro disk
        obtain ⟨sameReads, sameDisk⟩ := ih (action.disk disk)
        by_cases concerns : action.path? = none ∨ action.path? = some path
        · rw [List.filter_cons_of_pos (by simpa using concerns)]
          exact ⟨by rw [firstRead, firstRead, sameReads], sameDisk⟩
        · rw [List.filter_cons_of_neg (by simpa using concerns)]
          obtain ⟨isCall, notPath⟩ := not_or.mp concerns
          obtain ⟨other, isOther⟩ := Option.ne_none_iff_exists'.mp isCall
          have sameStart := disk_of_path? isOther disk
          rw [sameStart] at sameReads sameDisk
          refine ⟨?_, ?_⟩
          · rw [sameReads, firstRead, if_neg notPath, sameStart]
            rfl
          · rw [sameDisk, diskAfter, diskAfter, List.foldl_cons, sameStart]
  rw [load_after, load_after, (same disk).1, (same disk).2]

end FileStore

end WatLink
