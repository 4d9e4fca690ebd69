import WatLink.Link.Journal
import WatLink.Store.Disk

/-!
# File stores

A store serves the contents of files by import path.  It has no files at all,
or holds them in memory, or reads them below a root directory.  A directory
store reads the file of a path at most once and serves the same contents from
then on, whatever happens to the file; a path that could not be read is looked up
again.
-/

namespace WatLink

/-- Where imported files come from. -/
inductive FileStore where
  | empty
  | memory (files : List (String × Bytes))
  | directory (root : Path) (disk : Disk) (cache : List (String × Bytes))

/-- Why a store does not serve a path. -/
inductive LoadFault where
  | missing
  /-- There may be such a file, but it cannot be read. -/
  | unreadable (file : Path) (fault : DiskFault)
  deriving DecidableEq, Repr

/-- What it means that a file cannot be read. -/
def LoadFault.ofDisk (file : Path) (fault : DiskFault) : LoadFault :=
  if fault.isAbsence then .missing else .unreadable file fault

namespace FileStore

/-- The file that an import path names below a root directory. -/
def pathBelow (root : Path) (path : String) : Path :=
  root.join (Path.ofText path)

/-- The contents of the file at an import path, the store behind the reading,
and what was reported. -/
def load (store : FileStore) (path : String) :
    Except LoadFault Bytes × FileStore × List Event :=
  match store with
  | .empty => (.error .missing, .empty, [])
  | .memory files => ((files.lookup path).elim (.error .missing) .ok, .memory files, [])
  | .directory root disk cache =>
      match cache.lookup path with
      | some bytes => (.ok bytes, .directory root disk cache, [])
      | none =>
          let file := pathBelow root path
          match disk.read file with
          | .error fault =>
              (.error (.ofDisk file fault), .directory root disk cache, [.reading file.toText])
          | .ok bytes =>
              (.ok bytes, .directory root disk ((path, bytes) :: cache), [.reading file.toText])

/-- Put a file into a store in memory, replacing one with the same path. -/
def insert (store : FileStore) (path : String) (bytes : Bytes) : FileStore :=
  match store with
  | .memory files => .memory ((path, bytes) :: files.filter fun file => file.1 != path)
  | store => store

/-- Remove a file from a store in memory. -/
def erase (store : FileStore) (path : String) : FileStore :=
  match store with
  | .memory files => .memory (files.filter fun file => file.1 != path)
  | store => store

/-- Let a directory store see a changed disk.  What it has read stays. -/
def withDisk (store : FileStore) (disk : Disk) : FileStore :=
  match store with
  | .directory root _ cache => .directory root disk cache
  | store => store

/-- A bound on the number of different paths that a chain of imports can go
through.  A path is served from memory only if it is a key there; below a
directory, each path behind the first is spelled in a file, so there are at
most as many as the files have bytes. -/
def chainBound : FileStore → Nat
  | .empty => 0
  | .memory files => files.length
  | .directory _ disk cache =>
      disk.files.foldl (fun total file => total + file.2.length) 0 +
        cache.foldl (fun total file => total + file.2.length) 0 + 1

end FileStore

end WatLink
