import JarGraph.Walk.Basic
/-!
# The classes in containers

What there is to find below a directory or in a list of files, said without a walk: the containers
of a source, and the data of the classes in each. A walk that meets no failure hands over exactly
these. One that goes on after a failure takes in less of the container that failed: the classes
before the first entry that it does not get past.
-/

namespace JarGraph

namespace Archive

/-- Whether an entry is a class. -/
def Entry.isClass (entry : Entry) : Bool :=
  !entry.isDirectory && Container.ofPath ⟨entry.name⟩ == .classFile

/-- The data of an entry, if it can be read. -/
def Body.content? : Body → Option Bytes
  | data content => some content
  | _ => none

/-- Whether a walk gets past an entry: it is in order, and if it is a class it can be read and
decoded. -/
def Entry.isSound (entry : Entry) (file : Path) (depth : Depth) : Bool :=
  match entry.body with
  | .refused _ => false
  | .unreadable _ => !entry.isClass
  | .data content => !entry.isClass || (extract content file depth).toOption.isSome

/-- The data of the classes among some entries. -/
def classesOf (entries : List Entry) : List Bytes :=
  (entries.filter Entry.isClass).filterMap (·.body.content?)

end Archive

namespace FileSystem

/-- The data of the classes in a container; none are given for one that cannot be read. -/
def classesIn (fs : FileSystem) (file : Path) : List Bytes :=
  match Container.ofPath file, fs.mapFile file with
  | .classFile, .ok data => [data]
  | .archive, .ok data =>
    match Archive.read data with
    | .ok entries => (entries.filter Archive.Entry.isClass).filterMap (·.body.content?)
    | .error _ => []
  | _, _ => []

/-- The files of a source, in order. -/
def filesOf (fs : FileSystem) : Walk.Source → List Path
  | .directory base filter => (fs.scan base filter).files
  | .files _ list => list

/-- The containers of a source, in order. -/
def containersOf (fs : FileSystem) (source : Walk.Source) : List Path :=
  (fs.filesOf source).filter fun file => Container.ofPath file != .other

/-- The extractions from a source, each with the container of the class. -/
def extractionsOf (fs : FileSystem) (depth : Depth) (source : Walk.Source) :
    List (Path × Extraction) :=
  (fs.containersOf source).flatMap fun file =>
    (fs.classesIn file).filterMap fun data =>
      (extract data file depth).toOption.map fun found => (file, found)

/-- The data of the classes in a container before the first entry that a walk does not get past. -/
def classesBeforeBreak (fs : FileSystem) (depth : Depth) (file : Path) : List Bytes :=
  match Container.ofPath file, fs.mapFile file with
  | .classFile, .ok data => [data]
  | .archive, .ok data =>
    match Archive.read data with
    | .ok entries => Archive.classesOf (entries.takeWhile (·.isSound file depth))
    | .error _ => []
  | _, _ => []

/-- The extractions that a walk which goes on after failures takes in from a source. -/
def takenFrom (fs : FileSystem) (depth : Depth) (source : Walk.Source) :
    List (Path × Extraction) :=
  (fs.containersOf source).flatMap fun file =>
    (fs.classesBeforeBreak depth file).filterMap fun data =>
      (extract data file depth).toOption.map fun found => (file, found)

end FileSystem

end JarGraph
