import JarGraph.FileSystem.Listing
import JarGraph.IoError
import JarGraph.Path.Basic
import JarGraph.Text.Utf8
/-!
# The file system

A tree of directories with a working directory, a home, and a clock. A path is followed step by
step: every step but the last has to lead into a directory, and `..` leads back up. A path that ends
in a slash names a directory. Neither a name nor the text of a whole path may be too long.

A tree in this sense has files and directories only, and everybody may read and change all of them.
So what is said of every tree is not said of one in which a path leads through a symbolic link, two
names share one file, access is refused, or a name is no text; nor of a tree that somebody else
changes while a call is under way.
-/

namespace JarGraph

/-- The files that a program can see. -/
structure FileSystem where
  /-- The root directory. -/
  root : Node
  /-- The names that lead from the root to the working directory. -/
  workingNames : List String
  /-- The home directory of the user. -/
  home : Path
  /-- The time of the next change. -/
  clock : Instant
  deriving DecidableEq, Inhabited

/-- Where a path leads. -/
structure Location where
  /-- The names that lead there from the root. -/
  names : List String
  /-- What is there. -/
  node : Option Node
  deriving Inhabited

/-- A location with the node that is there; an error where there is none. -/
def Location.existing (found : Location) : Except IoError (Location × Node) :=
  match found.node with
  | some node => .ok (found, node)
  | none => .error (.os .notFound)

namespace FileSystem

/-- The absolute path of a row of names. -/
def pathOf (names : List String) : Path :=
  ⟨"/" ++ String.intercalate "/" names⟩

/-- The working directory. -/
def workingDirectory (fs : FileSystem) : Path :=
  pathOf fs.workingNames

/-- A name is too long for the operating system. -/
def isLongName (name : String) : Bool :=
  name.utf8ByteSize > 255

/-- A path holds the character that no path may hold. -/
def holdsZero (p : Path) : Bool :=
  p.text.toList.any (·.toNat == 0)

/-- A path is too long for the operating system: its text, with the zero byte that ends it, takes
more than 4096 bytes. -/
def isLongPath (p : Path) : Bool :=
  p.text.utf8ByteSize ≥ 4096

/-- Follows components from the place that some names lead to, which are given backwards. -/
def follow (fs : FileSystem) (trail : List String) (node : Node) :
    List Component → Except OsError Location
  | [] => .ok ⟨trail.reverse, some node⟩
  | .root :: rest => follow fs [] fs.root rest
  | .here :: rest => if node.isFolder then follow fs trail node rest else .error .notADirectory
  | .up :: rest =>
    if node.isFolder then
      match fs.root.at? trail.tail.reverse with
      | some above => follow fs trail.tail above rest
      | none => .error .notFound
    else .error .notADirectory
  | .name name :: rest =>
    match node with
    | .file _ _ => .error .notADirectory
    | .folder inside _ =>
      if isLongName name then .error .nameTooLong
      else
        match inside.find? name with
        | some child => follow fs (name :: trail) child rest
        | none =>
          if rest.isEmpty then .ok ⟨(name :: trail).reverse, none⟩ else .error .notFound

/-- Whether the text of a path asks for a directory at its end. -/
def asksForFolder (p : Path) : Bool :=
  match p.pieces.getLast? with
  | some piece => Path.isIdle piece
  | none => false

/-- Where a path of any length leads; an error where a step before the last leads nowhere. -/
def resolve (fs : FileSystem) (p : Path) : Except IoError Location :=
  if holdsZero p then .error .badName
  else if p.text.isEmpty then .error (.os .notFound)
  else
    match fs.root.at? fs.workingNames with
    | none => .error (.os .notFound)
    | some start =>
      match follow fs fs.workingNames.reverse start p.components with
      | .error cause => .error (.os cause)
      | .ok found =>
        match found.node with
        | some (.file _ _) =>
          if asksForFolder p then .error (.os .notADirectory) else .ok found
        | _ => .ok found

/-- Where a path leads that is given to the operating system as a whole. -/
def locate (fs : FileSystem) (p : Path) : Except IoError Location :=
  if isLongPath p && !holdsZero p then .error (.os .nameTooLong) else fs.resolve p

/-- What is at a path. -/
def node (fs : FileSystem) (p : Path) : Except IoError (Location × Node) :=
  fs.locate p >>= Location.existing

/-- Whether there is something at a path. -/
def hasNode (fs : FileSystem) (p : Path) : Bool :=
  (fs.node p).toBool

/-- Whether there is a directory at a path. -/
def hasFolder (fs : FileSystem) (p : Path) : Bool :=
  match fs.node p with
  | .ok (_, node) => node.isFolder
  | .error _ => false

/-- The data of a file. -/
def readFile (fs : FileSystem) (p : Path) : Except IoError Bytes := do
  match ← fs.node p with
  | (_, .file content _) => return content
  | (_, .folder _ _) => throw (.os .isADirectory)

/-- The data of a file that is looked at in place, which is not possible for a directory. -/
def mapFile (fs : FileSystem) (p : Path) : Except IoError Bytes := do
  match ← fs.node p with
  | (_, .file content _) => return content
  | (_, .folder _ _) => throw (.os .noSuchDevice)

/-- The text of a file. -/
def readText (fs : FileSystem) (p : Path) : Except IoError String := do
  match Text.utf8? (← fs.readFile p) with
  | some text => return text
  | none => throw .invalidText

/-- The time of the last change of what is at a path. -/
def modified? (fs : FileSystem) (p : Path) : Option Instant :=
  match fs.node p with
  | .ok (_, node) => some node.modified
  | .error _ => none

/-- The absolute path of what is at a path, without `.` and `..`. The given path is followed name by
name, so that only the absolute one can be too long. -/
def canonical (fs : FileSystem) (p : Path) : Except IoError Path := do
  let (found, _) ← fs.resolve p >>= Location.existing
  let whole := pathOf found.names
  if isLongPath whole then throw (.os .nameTooLong)
  return whole

/-- The absolute form of a path, which need not lead anywhere. -/
def absolute (fs : FileSystem) (p : Path) : Except IoError Path :=
  match p.absolute? fs.workingDirectory with
  | some whole => .ok whole
  | none => .error .emptyPath

/-- The file at the end of a row of names, as its data. -/
def fileAt (fs : FileSystem) (names : List String) : Option Bytes :=
  match fs.root.at? names with
  | some (.file content _) => some content
  | _ => none

end FileSystem

end JarGraph
