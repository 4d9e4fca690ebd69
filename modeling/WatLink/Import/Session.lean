import WatLink.Link.Error
import WatLink.Store.FileStore

/-!
# Import sessions

While imports are read, the store may remember files and events are reported.
A session holds both; computations that use it keep it when they fail.
-/

namespace WatLink

/-- The error of a path that the store does not serve. -/
def LinkError.ofLoad (path : String) : LoadFault → LinkError
  | .missing => .importNotFound path
  | .unreadable file fault => .importUnreadable file.toText fault

/-- The store and the journal of a run. -/
structure Session where
  store : FileStore
  journal : Array Event

/-- Computations that read files and may fail. -/
abbrev SessionM := EStateM LinkError Session

namespace SessionM

/-- Report an event. -/
def report (event : Event) : SessionM Unit :=
  modify fun session => { session with journal := session.journal.push event }

/-- The contents of the file at an import path. -/
def loadBytes (path : String) : SessionM Bytes := do
  let session ← get
  let (loaded, store, events) := session.store.load path
  set ({ store := store, journal := session.journal ++ events } : Session)
  match loaded with
  | .ok bytes => pure bytes
  | .error fault => throw (.ofLoad path fault)

end SessionM

end WatLink
