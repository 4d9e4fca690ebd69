import WatLink.Store.Path
import WatLink.Text.Quoted
import WatLink.Text.Utf8

/-!
# Directory trees

A disk is a finite tree of directories and files with a working directory.
Paths are followed part by part, so a `..` behind something that is no
directory is refused.  Not everything on a disk need be accessible.
-/

namespace WatLink

/-- Why a file cannot be read or written. -/
inductive DiskFault where
  | notFound
  | denied
  | notDirectory
  | isDirectory
  /-- The path holds a null character, which no file name can hold. -/
  | embeddedNull
  deriving DecidableEq, Repr

namespace DiskFault

/-- The number of a fault.  A null character is noticed before the system is
asked for the file, and has none. -/
def number? : DiskFault → Option Nat
  | .notFound => some 2
  | .denied => some 13
  | .notDirectory => some 20
  | .isDirectory => some 21
  | .embeddedNull => none

/-- The wording of a fault. -/
def reason : DiskFault → String
  | .notFound => "No such file or directory"
  | .denied => "Permission denied"
  | .notDirectory => "Not a directory"
  | .isDirectory => "Is a directory"
  | .embeddedNull => "embedded null byte"

/-- The wording of a fault with the path that it concerns. -/
def message (fault : DiskFault) (path : String) : String :=
  match fault.number? with
  | some number => s!"[Errno {number}] {fault.reason}: " ++ Text.quoted path
  | none => fault.reason

/-- Whether the system reports a fault. -/
def isSystemFault (fault : DiskFault) : Bool :=
  fault.number?.isSome

/-- Whether a fault means that there is no file. -/
def isAbsence : DiskFault → Bool
  | .notFound | .notDirectory | .isDirectory => true
  | .denied | .embeddedNull => false

end DiskFault

/-- What may be done with a file or a directory. -/
inductive Permission where
  /-- It can be read and written, or entries can be added. -/
  | full
  /-- It can only be read, or looked into. -/
  | readOnly
  | none
  deriving DecidableEq, Repr

/-- A tree of directories and files.  Files and directories are named by the
parts of their absolute paths; a directory that holds something need not be
listed. -/
structure Disk where
  workingDirectory : Path
  files : List (List String × Bytes)
  directories : List (List String)
  permission : List String → Permission := fun _ => .full

namespace Disk

/-- The contents of the file with the given parts. -/
def file? (disk : Disk) (parts : List String) : Option Bytes :=
  disk.files.lookup parts

/-- Whether the given parts name a directory. -/
def isDirectory (disk : Disk) (parts : List String) : Bool :=
  parts.isPrefixOf disk.workingDirectory.parts ||
    disk.directories.any parts.isPrefixOf ||
    disk.files.any fun file => parts.isPrefixOf file.1 && parts != file.1

/-- Why nothing can be found inside the given parts. -/
def faultInside (disk : Disk) (parts : List String) : DiskFault :=
  if (disk.file? parts).isSome then .notDirectory else .notFound

/-- Follow parts from a place. -/
def follow (disk : Disk) (place : List String) : List String → Except DiskFault (List String)
  | [] => .ok place
  | part :: rest =>
      if disk.isDirectory place then
        if disk.permission place = .none then .error .denied
        else follow disk (if part = ".." then place.dropLast else place ++ [part]) rest
      else .error (disk.faultInside place)

/-- The parts that a path leads to.  All but the last are directories. -/
def locate (disk : Disk) (path : Path) : Except DiskFault (List String) :=
  if path.hasNull then .error .embeddedNull
  else follow disk (if path.isAbsolute then [] else disk.workingDirectory.parts) path.parts

/-- The contents of the file at a path. -/
def read (disk : Disk) (path : Path) : Except DiskFault Bytes :=
  match disk.locate path with
  | .error fault => .error fault
  | .ok parts =>
      match disk.file? parts with
      | some bytes => if disk.permission parts = .none then .error .denied else .ok bytes
      | none =>
          .error (if !disk.isDirectory parts then .notFound
            else if disk.permission parts = .none then .denied else .isDirectory)

/-- The contents of the file at a path whose `..` parts are resolved first. -/
def readResolved (disk : Disk) (path : Path) : Except DiskFault Bytes :=
  if path.hasNull then .error .embeddedNull
  else disk.read (disk.workingDirectory.resolve path)

/-- Whether a path leads to a file.  That there is no access on the way to it is
reported. -/
def isFile (disk : Disk) (path : Path) : Except DiskFault Bool :=
  match disk.locate path with
  | .ok parts => .ok (disk.file? parts).isSome
  | .error .denied => .error .denied
  | .error _ => .ok false

/-- Whether a file can be written at the given parts: one that is there allows it,
or the directory allows a new one. -/
def allowsWriting (disk : Disk) (parts : List String) : Bool :=
  decide (disk.permission (if (disk.file? parts).isSome then parts else parts.dropLast) = .full)

/-- Write a file, replacing what it held.  A new file can be read and written. -/
def write (disk : Disk) (path : Path) (bytes : Bytes) : Except DiskFault Disk :=
  match disk.locate path with
  | .error fault => .error fault
  | .ok parts =>
      if disk.isDirectory parts then .error .isDirectory
      else if !disk.allowsWriting parts then .error .denied
      else
        .ok { disk with
              files := (parts, bytes) :: disk.files.filter fun file => file.1 != parts
              permission := fun place => if place = parts then .full else disk.permission place }

/-- Remove the file at a path, if there is one. -/
def remove (disk : Disk) (path : Path) : Disk :=
  match disk.locate path with
  | .error _ => disk
  | .ok parts => { disk with files := disk.files.filter fun file => file.1 != parts }

end Disk

end WatLink
