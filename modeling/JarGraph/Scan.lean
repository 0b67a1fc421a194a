import JarGraph.Container
import JarGraph.FileSystem.Basic
import JarGraph.PathFilter
/-!
# Scanning a directory

The files below a directory, in the order of their paths: the entries of a directory are passed in
the order of their names, and a directory is entered where it stands. The bookkeeping of version
control systems is never entered, whatever its place below the starting point. A directory whose
path is too long cannot be read, and the scan goes on after it.
-/

namespace JarGraph

/-- Names of the bookkeeping of version control systems. -/
def bookkeepingNames : List String :=
  [".git", ".gitignore", ".gitattributes", ".svn", "CVS", ".cvsignore", ".hg", ".hgignore", ".bzr",
    ".bzrignore", "_darcs"]

/-- A file that a scan passes, with the time of its last change. It is the start of all time for a
file that cannot be asked, because its path is too long. -/
structure ScannedFile where
  path : Path
  modified : Instant
  deriving DecidableEq, Repr, Inhabited

/-- A starting point or a directory below it that cannot be read. -/
structure ScanError where
  path : Path
  cause : IoError
  deriving DecidableEq, Repr, Inhabited

namespace ScanError

/-- The words of the failure. -/
def message (e : ScanError) : String :=
  e.path.text ++ ": IO error for operation on " ++ e.path.text ++ ": " ++ e.cause.message

end ScanError

/-- One thing that a scan comes upon. -/
abbrev Finding := Except ScanError ScannedFile

namespace Listing

/-- What a scan comes upon below a directory whose path is given, except below the entries of some
names. -/
def findings (skipped : String → Bool) (directory : Path) : Listing → List Finding
  | nil => []
  | file name _ modified rest =>
    let path := directory.child name
    (if skipped name then []
      else [.ok ⟨path, if FileSystem.isLongPath path then 0 else modified⟩])
      ++ findings skipped directory rest
  | folder name inside _ rest =>
    let path := directory.child name
    (if skipped name then []
      else if FileSystem.isLongPath path then [.error ⟨path, .os .nameTooLong⟩]
      else findings skipped path inside)
      ++ findings skipped directory rest

end Listing

/-- What a scan comes to. -/
structure Scan where
  /-- The files that were asked for, in order. -/
  files : List Path
  /-- What could not be read, in order. -/
  errors : List ScanError
  deriving DecidableEq, Repr, Inhabited

namespace FileSystem

/-- The path that stands for the standard input, where no files are. -/
def standardInput : Path := ⟨"-"⟩

/-- What a scan comes upon from a starting point on, which may be a file itself. The starting point
counts whatever its name is. -/
def findings (fs : FileSystem) (base : Path) (skipped : String → Bool) : List Finding :=
  if base.same standardInput then []
  else
    match fs.node base with
    | .error cause => [.error ⟨base, cause⟩]
    | .ok (_, .file _ modified) => [.ok ⟨base, modified⟩]
    | .ok (_, .folder inside _) => inside.findings skipped base

/-- The files that a filter accepts below a starting point, by their paths from there. -/
def scan (fs : FileSystem) (base : Path) (filter : PathFilter) : Scan :=
  let found := fs.findings base bookkeepingNames.contains
  let paths := found.filterMap fun
    | .ok file => some file.path
    | .error _ => none
  let errors := found.filterMap fun
    | .ok _ => none
    | .error cause => some cause
  ⟨paths.filter fun path => filter.accepts (path.relativeSlash base), errors⟩

end FileSystem

end JarGraph
