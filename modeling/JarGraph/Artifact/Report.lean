import JarGraph.Artifact.Registry
/-!
# The report

The description of artifacts as XML: each artifact with its name and coordinates, and with the
artifacts that it depends on. A file of the repository has no name, since its coordinates tell its
place.
-/

namespace JarGraph.Artifact

/-- What names in a report are given from. -/
structure Report where
  /-- The directory whose files are named from there. -/
  base : Option Path
  repository : Option Path
  deriving DecidableEq, Repr, Inhabited

namespace Report

/-- A character as it stands in a text or an attribute. -/
def escapeChar (c : Char) : List Char :=
  if c = '&' then "&amp;".toList
  else if c = '<' then "&lt;".toList
  else if c = '>' then "&gt;".toList
  else if c = '"' then "&quot;".toList
  else if c = '\'' then "&apos;".toList
  else [c]

/-- A text as it stands in a text or an attribute. -/
def escape (s : String) : String :=
  String.ofList (s.toList.flatMap escapeChar)

/-- The name of a file; none is given to a file of the repository. -/
def nameOf (report : Report) (file : Path) : Option String :=
  if report.repository.any file.startsWith then none
  else
    match report.base with
    | some base => if file.startsWith base then some (file.relativeSlash base) else some file.text
    | none => some file.text

/-- A line at some depth. -/
def line (depth : Nat) (text : String) : String :=
  String.join (List.replicate depth "  ") ++ text ++ "\n"

/-- An element that holds a text. -/
def element (depth : Nat) (tag text : String) : String :=
  line depth ("<" ++ tag ++ ">" ++ escape text ++ "</" ++ tag ++ ">")

/-- The start of an element for a file. -/
def openTag (report : Report) (depth : Nat) (tag : String) (d : Described) : String :=
  match report.nameOf d.file with
  | some name => line depth ("<" ++ tag ++ " name=\"" ++ escape name ++ "\">")
  | none => line depth ("<" ++ tag ++ ">")

/-- The elements of some coordinates. -/
def coordinates (depth : Nat) (c : Coordinates) : String :=
  element depth "groupid" c.groupId
    ++ element depth "artifactid" c.artifactId
    ++ element depth "version" c.version
    ++ (match c.classifier with
      | some classifier => element depth "classifier" classifier
      | none => "")

/-- The element of a file that an artifact depends on. -/
def dependency (report : Report) (d : Described) : String :=
  report.openTag 3 "dependency" d ++ coordinates 4 d.coordinates ++ line 3 "</dependency>"

/-- The element of an artifact. -/
def artifact (report : Report) (set : ArtifactSet) (d : Described) : String :=
  let needed := set.dependenciesOf d
  report.openTag 1 "artifact" d
    ++ coordinates 2 d.coordinates
    ++ (if needed.isEmpty then ""
      else
        line 2 "<dependencies>"
          ++ String.join (needed.map report.dependency)
          ++ line 2 "</dependencies>")
    ++ line 1 "</artifact>"

/-- The report of a set of artifacts. -/
def render (report : Report) (set : ArtifactSet) : String :=
  line 0 "<?xml version=\"1.0\" encoding=\"UTF-8\"?>"
    ++ (if set.artifacts.isEmpty then line 0 "<artifacts/>"
      else
        line 0 "<artifacts>"
          ++ String.join (set.toList.map (report.artifact set))
          ++ line 0 "</artifacts>")

end Report

end JarGraph.Artifact
