import JarGraph.Failure
import JarGraph.FileSystem.Change
/-!
# Writing a file completely or not at all

A file is first written beside its place, under a temporary name, and then moved there. When a step
fails, both the temporary file and the file at the place are removed: what is left is a complete
file or none. Besides the refusals that follow from what is on the disk, a disk may break down in
any of the steps, after any part of the contents was written.
-/

namespace JarGraph

/-- A breakdown of the disk in one of the steps of a write. -/
inductive Breakdown where
  /-- No more than so many directories can be made. -/
  | makingFolders (limit : Nat) (cause : IoError)
  /-- No more than so many bytes can be written. -/
  | writing (limit : Nat) (cause : IoError)
  /-- No file can be moved. -/
  | moving (cause : IoError)
  deriving DecidableEq, Repr, Inhabited

namespace AtomicWrite

/-- The path under which a file is written before it is moved to its place. -/
def temporary (path : Path) : Path :=
  ⟨path.text ++ ".tmp"⟩

/-- The directory that has to be there. -/
def parentFolder (path : Path) : Option Path :=
  path.parent?.filter fun p => !p.text.isEmpty

/-- Makes a directory, if the disk has not broken down by then. -/
def makeFolderBefore (time : Instant) (cause : IoError) (fs : FileSystem) (p : Path) :
    Except IoError FileSystem :=
  if fs.clock < time then fs.makeFolder p else .error cause

/-- Makes the directory of a path and those above it. -/
def prepare (fs : FileSystem) (path : Path) (breakdown : Option Breakdown) :
    FileSystem × Except Failure Unit :=
  match parentFolder path with
  | none => (fs, .ok ())
  | some parent =>
    let refuse (fs : FileSystem) (cause : IoError) : FileSystem × Except Failure Unit :=
      (fs, .error ⟨["Failed to create output directory: " ++ parent.text], .io cause⟩)
    match breakdown with
    | some (.makingFolders limit cause) =>
      let (fs, _) := fs.makeFoldersBy (makeFolderBefore (fs.clock + limit) cause) parent
      refuse fs cause
    | _ =>
      match fs.makeFoldersBy FileSystem.makeFolder parent with
      | (fs, .ok ()) => (fs, .ok ())
      | (fs, .error cause) => refuse fs cause

/-- Writes the contents under the temporary name. -/
def stage (fs : FileSystem) (path : Path) (content : Bytes) (breakdown : Option Breakdown) :
    FileSystem × Except Failure Unit :=
  let refuse (fs : FileSystem) (cause : IoError) : FileSystem × Except Failure Unit :=
    (fs, .error ⟨["Failed to write analysis result: " ++ (temporary path).text], .io cause⟩)
  match breakdown with
  | some (.writing limit cause) =>
    match fs.writeFile (temporary path) (content.take limit) with
    | .ok fs => refuse fs cause
    | .error cause => refuse fs cause
  | _ =>
    match fs.writeFile (temporary path) content with
    | .ok fs => (fs, .ok ())
    | .error cause => refuse fs cause

/-- Moves the temporary file to its place. -/
def publish (fs : FileSystem) (path : Path) (breakdown : Option Breakdown) :
    FileSystem × Except Failure Unit :=
  let refuse (cause : IoError) : FileSystem × Except Failure Unit :=
    (fs, .error ⟨["Failed to atomically replace analysis result: " ++ path.text], .io cause⟩)
  match breakdown with
  | some (.moving cause) => refuse cause
  | _ =>
    match fs.moveFile (temporary path) path with
    | .ok fs => (fs, .ok ())
    | .error cause => refuse cause

/-- The steps of a write in their order, up to the first that fails. -/
def attempt (fs : FileSystem) (path : Path) (content : Bytes) (breakdown : Option Breakdown) :
    FileSystem × Except Failure Unit :=
  match prepare fs path breakdown with
  | (fs, .error cause) => (fs, .error cause)
  | (fs, .ok ()) =>
    match stage fs path content breakdown with
    | (fs, .error cause) => (fs, .error cause)
    | (fs, .ok ()) => publish fs path breakdown

/-- Removes what a failed write may have left. -/
def cleanUp (fs : FileSystem) (path : Path) : FileSystem :=
  (fs.removeFileLeniently (temporary path)).removeFileLeniently path

/-- Writes a file completely or not at all. -/
def write (fs : FileSystem) (path : Path) (content : Bytes) (breakdown : Option Breakdown) :
    FileSystem × Except Failure Unit :=
  match attempt fs path content breakdown with
  | (fs, .ok ()) => (fs, .ok ())
  | (fs, .error cause) => (cleanUp fs path, .error cause)

end AtomicWrite

/-- Removes a file if it is there, and tells whether it was. -/
def removeIfThere (fs : FileSystem) (path : Path) : FileSystem × Except Failure Bool :=
  if fs.hasNode path then
    match fs.removeFile path with
    | .ok fs => (fs, .ok true)
    | .error cause =>
      (fs, .error ⟨["Failed to remove analysis result: " ++ path.text], .io cause⟩)
  else (fs, .ok false)

end JarGraph
