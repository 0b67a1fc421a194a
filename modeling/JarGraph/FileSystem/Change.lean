import JarGraph.FileSystem.Basic
/-!
# Changes of the file system

Making directories, writing, renaming and removing files, with the refusals of the operating system.
Every change that is made takes the time of the clock, which then moves on.
-/

namespace JarGraph.FileSystem

/-- Changes the directory at the end of a row of names. -/
def changeFolder (fs : FileSystem) (names : List String) (change : Listing → Listing) :
    FileSystem :=
  { fs with root := fs.root.changeAt change fs.clock names, clock := fs.clock + 1 }

/-- Puts a node at the end of a row of names. -/
def putNode (fs : FileSystem) (names : List String) (node : Node) : FileSystem :=
  match names.getLast? with
  | none => fs
  | some name => fs.changeFolder names.dropLast (·.put name node)

/-- Takes away what is at the end of a row of names. -/
def removeNode (fs : FileSystem) (names : List String) : FileSystem :=
  match names.getLast? with
  | none => fs
  | some name => fs.changeFolder names.dropLast (·.remove name)

/-- Makes a directory whose parent is there. -/
def makeFolder (fs : FileSystem) (p : Path) : Except IoError FileSystem := do
  let found ← fs.locate p
  match found.node with
  | some _ => throw (.os .alreadyThere)
  | none => return fs.putNode found.names (.folder .nil fs.clock)

/-- Makes a directory and those above it that are missing, each of them by `make`. What was made
before a refusal stays. As many steps up are made as the path has components. -/
def makeFoldersBy (make : FileSystem → Path → Except IoError FileSystem) (fs : FileSystem)
    (p : Path) : FileSystem × Except IoError Unit :=
  go fs p (p.components.length + 1)
where
  /-- Tries the directory itself, then the one above it, then itself again. -/
  go (fs : FileSystem) (p : Path) : Nat → FileSystem × Except IoError Unit
    | 0 => (fs, .error (.os .notFound))
    | steps + 1 =>
      if p.text.isEmpty then (fs, .ok ())
      else
        match make fs p with
        | .ok made => (made, .ok ())
        | .error (.os .notFound) =>
          match p.parent? with
          | none => (fs, .error (.os .notFound))
          | some above =>
            match go fs above steps with
            | (fs, .error cause) => (fs, .error cause)
            | (fs, .ok ()) =>
              match make fs p with
              | .ok made => (made, .ok ())
              | .error cause => if fs.hasFolder p then (fs, .ok ()) else (fs, .error cause)
        | .error cause => if fs.hasFolder p then (fs, .ok ()) else (fs, .error cause)

/-- The tree with a directory and those above it, if all of them can be made. -/
def makeFolders (fs : FileSystem) (p : Path) : Except IoError FileSystem :=
  match fs.makeFoldersBy makeFolder p with
  | (made, .ok ()) => .ok made
  | (_, .error cause) => .error cause

/-- Where a file may be written: at a path that leads to no directory. -/
def writable (fs : FileSystem) (p : Path) : Except IoError Location := do
  let found ← fs.locate p
  match found.node with
  | some (.folder _ _) => throw (.os .isADirectory)
  | some (.file _ _) => return found
  | none => if asksForFolder p then throw (.os .isADirectory) else return found

/-- Writes a file as a whole. -/
def writeFile (fs : FileSystem) (p : Path) (content : Bytes) : Except IoError FileSystem := do
  let found ← fs.writable p
  return fs.putNode found.names (.file content fs.clock)

/-- Whether a path ends in a name, and not in the root or a step to the same or the upper
directory. -/
def endsInName (p : Path) : Bool :=
  match p.pieces.reverse.dropWhile (· == []) with
  | piece :: _ => piece != ['.'] && piece != ['.', '.']
  | [] => false

/-- Moves a file to another path, in the place of a file that is there. -/
def moveFile (fs : FileSystem) (source target : Path) : Except IoError FileSystem := do
  let (old, node) ← fs.node source
  let new ← fs.locate target
  if !endsInName target then throw (.os .busy)
  if node.isFolder then throw (.os .invalid)
  if asksForFolder target then throw (.os .notADirectory)
  match new.node with
  | some (.folder _ _) =>
    throw (.os (if new.names.isPrefixOf old.names then .notEmpty else .isADirectory))
  | _ => return (fs.removeNode old.names).putNode new.names node

/-- Removes a file. -/
def removeFile (fs : FileSystem) (p : Path) : Except IoError FileSystem := do
  let (found, node) ← fs.node p
  match node with
  | .file _ _ => return fs.removeNode found.names
  | .folder _ _ => throw (.os .isADirectory)

/-- Gives a file another time. -/
def setModified (fs : FileSystem) (p : Path) (time : Instant) : Except IoError FileSystem := do
  let (found, node) ← fs.node p
  match node with
  | .file content _ => return fs.putNode found.names (.file content time)
  | .folder _ _ => throw (.os .isADirectory)

/-- Removes what is at a path, a directory with everything in it. -/
def removeAll (fs : FileSystem) (p : Path) : Except IoError FileSystem := do
  let (found, _) ← fs.node p
  return fs.removeNode found.names

/-- Removes a file where there is one, and leaves everything as it is where there is none. -/
def removeFileLeniently (fs : FileSystem) (p : Path) : FileSystem :=
  match fs.removeFile p with
  | .ok changed => changed
  | .error _ => fs

end JarGraph.FileSystem
