import JarGraph.Artifact.Coordinates
/-!
# The layout of a repository

A repository stores a file at a place that tells its coordinates: directories for the segments of
the group, one for the artifact and one for the version, and a file name made of the artifact, the
version and perhaps a classifier.
-/

namespace JarGraph.Artifact

/-- The parts of a place below a repository. -/
structure Place where
  group : List String
  artifactId : String
  version : String
  fileName : String
  deriving DecidableEq, Repr, Inhabited

namespace Place

/-- The place that some path components name; there are at least four of them. -/
def ofComponents (components : List Component) : Option Place :=
  match components.map Component.text |>.reverse with
  | fileName :: version :: artifactId :: first :: more =>
    some ⟨(first :: more).reverse, artifactId, version, fileName⟩
  | _ => none

/-- What the stem of a file name says of the classifier: nothing where it is no stem of the artifact
and the version, and else the classifier, if there is one. -/
def classifier? (artifactId version stem : String) : Option (Option String) :=
  match Text.dropStart? (artifactId ++ "-" ++ version).toList stem.toList with
  | none => none
  | some [] => some none
  | some ('-' :: rest) => some (Text.nonBlank? (String.ofList rest))
  | some _ => none

/-- The place of a file with some coordinates and an ending. -/
def ofCoordinates (c : Coordinates) (ending : String) : Place where
  group := (Text.pieces '.' c.groupId.toList).map String.ofList
  artifactId := c.artifactId
  version := c.version
  fileName :=
    c.artifactId ++ "-" ++ c.version ++ (c.classifier.elim "" fun text => "-" ++ text)
      ++ "." ++ ending

/-- The directories of a place and its file name, in order. -/
def names (place : Place) : List String :=
  place.group ++ [place.artifactId, place.version, place.fileName]

/-- The path of a place in a repository. -/
def path (place : Place) (repository : Path) : Path :=
  place.names.foldl Path.child repository

/-- The coordinates of a file that is stored at a place. -/
def coordinates? (place : Place) (file : Path) : Option Coordinates := do
  let stem ← Path.stem ⟨place.fileName⟩
  let classifier ← classifier? place.artifactId place.version stem
  let group := String.intercalate "." place.group
  (Coordinates.make file (some group) (some place.artifactId) (some place.version)
    classifier).toOption

end Place

/-- The coordinates that a file's place in a repository tells, if it is such a place. -/
def coordinatesInRepository (file repository : Path) : Option Coordinates := do
  let below ← file.stripBase? repository
  let place ← Place.ofComponents below.components
  place.coordinates? file

end JarGraph.Artifact
