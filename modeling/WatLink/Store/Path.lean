import WatLink.Text.Split

/-!
# Paths

A path is an anchor, which is empty for a relative path, and a list of parts.
Repeated slashes, `.` parts and a slash at the end are dropped when a path is
read, while `..` parts stay until the path is resolved.
-/

namespace WatLink

/-- A path.  The anchor is empty, one slash, or exactly two slashes. -/
structure Path where
  anchor : String
  parts : List String
  deriving DecidableEq, Repr

namespace Path

/-- Read a path. -/
def ofText (text : String) : Path :=
  let slashes := (text.toList.takeWhile (· == '/')).length
  let anchor := if slashes = 0 then "" else if slashes = 2 then "//" else "/"
  ⟨anchor, (Text.split '/' text).filter fun part => !part.isEmpty && part != "."⟩

/-- Write a path; the empty one is a single point. -/
def toText (path : Path) : String :=
  if path.anchor.isEmpty && path.parts.isEmpty then "."
  else path.anchor ++ String.intercalate "/" path.parts

/-- Whether a path does not depend on a working directory. -/
def isAbsolute (path : Path) : Bool :=
  !path.anchor.isEmpty

/-- Whether a path holds a null character, which no file name does. -/
def hasNull (path : Path) : Bool :=
  path.parts.any fun part => part.toList.contains (Char.ofNat 0)

/-- One path below another; an absolute second path stands for itself. -/
def join (directory path : Path) : Path :=
  if path.isAbsolute then path else ⟨directory.anchor, directory.parts ++ path.parts⟩

/-- The directory of a path; a path without parts is its own. -/
def parent (path : Path) : Path :=
  ⟨path.anchor, path.parts.dropLast⟩

/-- Resolve `..` parts behind the parts already resolved. -/
def resolveParts (resolved : List String) : List String → List String
  | [] => resolved
  | part :: rest =>
      resolveParts (if part = ".." then resolved.dropLast else resolved ++ [part]) rest

/-- The absolute path without `..` parts that a path denotes in a working
directory. -/
def resolve (workingDirectory path : Path) : Path :=
  ⟨"/", resolveParts [] (workingDirectory.join path).parts⟩

/-- What remains of an absolute path below a directory, if it lies there. -/
def relativeTo? (path directory : Path) : Option Path :=
  if directory.parts.isPrefixOf path.parts then
    some ⟨"", path.parts.drop directory.parts.length⟩
  else none

end Path

end WatLink
