import JarGraph.Artifact.Identification
import JarGraph.Artifact.Layout
import JarGraph.Artifact.PackagePrefix
import JarGraph.Container
import JarGraph.Dependency.Set
import JarGraph.FileSystem.Basic
import JarGraph.Ordered.Map
import JarGraph.Walk.Analysis
/-!
# The registry of artifacts

A registry gives files their coordinates, from the place of a file in a repository or from what the
archive says of itself and the hints of the user. A file keeps the coordinates that it was given
first. From the dependencies between files a set of artifacts is made: the archives that were asked
for or depend on another, each with the archives that it depends on.
-/

namespace JarGraph.Artifact

/-- A file with its coordinates and the files that it depends on. -/
structure Described where
  file : Path
  coordinates : Coordinates
  dependencies : OrderedSet Path
  deriving Inhabited

/-- What is known of files. -/
structure Registry where
  /-- The hints, the first of each name. -/
  hints : List Hint
  files : OrderedMap Path Described
  repository : Option Path
  deriving Inhabited

/-- Artifacts with the files that they depend on. -/
structure ArtifactSet where
  artifacts : OrderedSet Path
  /-- The artifacts and the files that they depend on. -/
  files : OrderedMap Path Described
  deriving Inhabited

namespace ArtifactSet

/-- No artifacts. -/
def empty : ArtifactSet := ⟨.empty, .empty⟩

/-- The artifacts in the order of their paths. -/
def toList (set : ArtifactSet) : List Described :=
  set.artifacts.toList.filterMap set.files.get?

/-- What is known of a file of the set. -/
def get? (set : ArtifactSet) (file : Path) : Option Described :=
  set.files.get? file

/-- The files that an artifact depends on, in the order of their paths. -/
def dependenciesOf (set : ArtifactSet) (artifact : Described) : List Described :=
  artifact.dependencies.toList.filterMap set.files.get?

end ArtifactSet

namespace Registry

/-- A registry that knows nothing. -/
def empty (repository : Option Path) : Registry :=
  ⟨[], .empty, repository⟩

/-- The hint of a name, or the one without a name. -/
def hint? (r : Registry) (name : Option String) : Option Hint :=
  r.hints.find? fun h => h.name == name

/-- Adds a hint; there is at most one for each name. -/
def addHint (r : Registry) (h : Hint) : Except Error Registry :=
  match r.hint? h.name with
  | some _ => .error (.duplicateHint h.name)
  | none => .ok { r with hints := r.hints ++ [h] }

/-- The hint for a file: the one with its name, else the one with its artifact's id, else the one
without a name. -/
def hintFor (r : Registry) (file : Path) (artifactId : Option String) : Hint :=
  let byName := file.fileName.bind fun name => r.hint? (some name)
  let byArtifact := artifactId.bind fun id => r.hint? (some id)
  ((byName.or byArtifact).or (r.hint? none)).getD Hint.empty

/-- What is known of a file. -/
def get? (r : Registry) (file : Path) : Option Described :=
  r.files.get? file

/-- Identifies an archive. -/
def identify (fs : FileSystem) (file : Path) : Except Error Identification :=
  match fs.mapFile file with
  | .error cause => .error (.unreadable file cause)
  | .ok data =>
    match Archive.read data with
    | .error cause => .error (.badArchive file cause)
    | .ok entries => Identification.ofEntries file entries

/-- The coordinates of an archive from what it says of itself and from the hint for it. -/
def merge (file : Path) (id : Identification) (h : Hint) : Except Error Coordinates :=
  Coordinates.make file (h.groupId.or (commonPackagePrefix id.groupId id.packages))
    (h.artifactId.or id.artifactId) (h.version.or id.version) h.classifier

/-- The coordinates of a file that is not known yet. -/
def coordinatesOf (r : Registry) (fs : FileSystem) (file : Path) : Except Error Coordinates :=
  match r.repository.bind fun repository => coordinatesInRepository file repository with
  | some coordinates => .ok coordinates
  | none => do
    let id ← identify fs file
    merge file id (r.hintFor file id.artifactId)

/-- Whether asking for some dependencies conflicts with the known ones. No known dependencies
conflict with nothing. -/
def dependenciesConflict (known : OrderedSet Path) : Option (OrderedSet Path) → Bool
  | none => false
  | some asked => !known.isEmpty && !asked.sameElements known

/-- Records the coordinates of a file, and its dependencies where they are given. What is recorded
has to agree with what was recorded before. -/
def register (r : Registry) (file : Path) (coordinates : Coordinates)
    (dependencies : Option (OrderedSet Path)) : Except Error (Registry × Described) :=
  match r.get? file with
  | some known =>
    if known.coordinates ≠ coordinates || dependenciesConflict known.dependencies dependencies then
      .error (.mismatch file)
    else
      let record :=
        if known.dependencies.isEmpty then
          { known with dependencies := dependencies.getD known.dependencies }
        else known
      .ok ({ r with files := r.files.put file record }, record)
  | none =>
    let record : Described := ⟨file, coordinates, dependencies.getD .empty⟩
    .ok ({ r with files := r.files.put file record }, record)

/-- What is known of a file; one that is not known is described first. -/
def describe (r : Registry) (fs : FileSystem) (file : Path) :
    Except Error (Registry × Described) :=
  match r.get? file with
  | some known => .ok (r, known)
  | none => do
    let coordinates ← r.coordinatesOf fs file
    r.register file coordinates none

/-- A registry on its way to a set of artifacts, with the log. -/
structure Draft where
  registry : Registry
  artifacts : OrderedSet Path
  log : List Walk.LogEntry

/-- Whether a file can be described. One that is no archive is noted in the log. -/
def checkArchive (d : Draft) (file : Path) : Draft × Bool :=
  if Container.ofPath file = .archive then (d, true)
  else
    ({ d with log := d.log ++
        [⟨.warn, "Not an archive, no artifact described for it", [("file", file.text)]⟩] },
      false)

/-- Describes a file of the draft. -/
def Draft.describe (d : Draft) (fs : FileSystem) (file : Path) : Draft × Option Error :=
  match d.registry.describe fs file with
  | .ok (registry, _) => ({ d with registry := registry }, none)
  | .error cause => (d, some cause)

/-- Adds a file that was asked for. -/
def addRoot (fs : FileSystem) (d : Draft) (file : Path) : Draft × Option Error :=
  match checkArchive d file with
  | (d, false) => (d, none)
  | (d, true) =>
    match d.describe fs file with
    | (d, some cause) => (d, some cause)
    | (d, none) => ({ d with artifacts := d.artifacts.insert file }, none)

/-- Records that a file depends on another one. -/
def addDependency (r : Registry) (source target : Path) : Registry :=
  match r.get? source with
  | none => r
  | some known =>
    { r with files :=
        r.files.put source { known with dependencies := known.dependencies.insert target } }

/-- Adds a dependency between files. -/
def addEdge (fs : FileSystem) (d : Draft) (edge : Path × Path) : Draft × Option Error :=
  match checkArchive d edge.1 with
  | (d, false) => (d, none)
  | (d, true) =>
    match checkArchive d edge.2 with
    | (d, false) => (d, none)
    | (d, true) =>
      match d.describe fs edge.2 with
      | (d, some cause) => (d, some cause)
      | (d, none) =>
        match d.describe fs edge.1 with
        | (d, some cause) => (d, some cause)
        | (d, none) =>
          ({ d with
              registry := addDependency d.registry edge.1 edge.2
              artifacts := d.artifacts.insert edge.1 },
            none)

/-- Takes steps on a draft up to the first that fails. -/
def steps {α : Type} (step : Draft → α → Draft × Option Error) :
    Draft → List α → Draft × Option Error
  | d, [] => (d, none)
  | d, a :: more =>
    match step d a with
    | (d, some cause) => (d, some cause)
    | (d, none) => steps step d more

/-- Puts what is known of a file into a map. -/
def addKnown (r : Registry) (files : OrderedMap Path Described) (file : Path) :
    OrderedMap Path Described :=
  match r.get? file with
  | some known => files.put file known
  | none => files

/-- The set of some artifacts: what is known of them and of the files that they depend on. -/
def collect (r : Registry) (artifacts : OrderedSet Path) : ArtifactSet :=
  let needed := artifacts.toList.flatMap fun artifact =>
    match r.get? artifact with
    | some known => known.dependencies.toList ++ [artifact]
    | none => []
  ⟨artifacts, needed.foldl r.addKnown .empty⟩

/-- The artifacts for some files that are asked for and for every file that depends on another. What
was recorded on the way stays recorded when a file cannot be described. -/
def artifactSet (r : Registry) (fs : FileSystem) (edges : DependencySet Path)
    (roots : List Path) : Registry × Except Error ArtifactSet × List Walk.LogEntry :=
  match steps (addRoot fs) ⟨r, .empty, []⟩ roots with
  | (d, some cause) => (d.registry, .error cause, d.log)
  | (d, none) =>
    match steps (addEdge fs) d (DependencySet.edges edges) with
    | (d, some cause) => (d.registry, .error cause, d.log)
    | (d, none) => (d.registry, .ok (d.registry.collect d.artifacts), d.log)

end Registry

end JarGraph.Artifact
