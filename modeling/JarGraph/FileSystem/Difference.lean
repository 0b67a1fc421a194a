import JarGraph.FileSystem.Basic
/-!
# Differences between file systems

Which files have to be written or removed to make one file system out of another.
-/

namespace JarGraph

/-- A file, by the names that lead to it from the root, and its data. -/
structure PlacedFile where
  names : List String
  content : Bytes
  deriving DecidableEq, Repr, Inhabited

namespace Listing

/-- The files below a directory, which the given names lead to. -/
def placedFiles (above : List String) : Listing → List PlacedFile
  | nil => []
  | file name content _ rest => ⟨above ++ [name], content⟩ :: placedFiles above rest
  | folder name inside _ rest =>
    placedFiles (above ++ [name]) inside ++ placedFiles above rest

end Listing

namespace FileSystem

/-- All files. -/
def placedFiles (fs : FileSystem) : List PlacedFile :=
  match fs.root with
  | .folder inside _ => inside.placedFiles []
  | .file content _ => [⟨[], content⟩]

/-- The files that are new or have other data than before. -/
def written (before after : FileSystem) : List PlacedFile :=
  after.placedFiles.filter fun f => before.fileAt f.names != some f.content

/-- The files that were there and are no more. -/
def removed (before after : FileSystem) : List (List String) :=
  (before.placedFiles.map PlacedFile.names).filter fun names => (after.fileAt names).isNone

end FileSystem

end JarGraph
