import JarGraph.Path.Basic
/-!
# Containers

What a file holds, told from its name: one class, an archive of classes, or nothing of interest.
-/

namespace JarGraph

/-- What a file holds. -/
inductive Container where
  | classFile
  | archive
  | other
  deriving DecidableEq, Repr, Inhabited

namespace Container

/-- A letter of ASCII in lower case; every other character as it is. -/
def lower (s : String) : String :=
  String.ofList (s.toList.map Char.toLower)

/-- The endings of archives. -/
def archiveEndings : List String := ["jar", "zip", "war", "ear", "rar"]

/-- Class files that describe a module or a package and hold no class of their own. -/
def descriptorStems : List String := ["module-info", "package-info"]

/-- What the file at a path holds. The case of the ending does not count. -/
def ofPath (file : Path) : Container :=
  match file.extension with
  | none => .other
  | some ending =>
    if lower ending = "class" then
      if (file.stem.map descriptorStems.contains).getD false then .other else .classFile
    else if archiveEndings.contains (lower ending) then .archive
    else .other

/-- What a file holds is told from its name alone. -/
theorem ofPath_of_fileName {file other : Path} (h : file.fileName = other.fileName) :
    ofPath file = ofPath other := by
  rw [ofPath, ofPath, Path.extension, Path.extension, Path.stem, Path.stem, h]

/-- What a file holds is told from its components, however its path is spelled. -/
theorem ofPath_congr {file other : Path} (h : file.same other = true) :
    ofPath file = ofPath other := by
  refine ofPath_of_fileName ?_
  rw [Path.fileName, Path.fileName, Path.same_iff.1 h]

end Container

end JarGraph
