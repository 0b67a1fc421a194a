import JarGraph.Artifact.Coordinates
import JarGraph.Artifact.Manifest
import JarGraph.Ordered.Set
/-!
# What an archive says of itself

An archive is identified by its property file, its manifest, its file name and the directories of
its class files. The property file comes first; for the id of the artifact the file name comes
before the manifest, and for the version after it.
-/

namespace JarGraph.Artifact

/-- What is known of an archive. -/
structure Identification where
  groupId : Option String
  artifactId : Option String
  version : Option String
  /-- The packages of its class files, in order. -/
  packages : List String
  deriving DecidableEq, Repr, Inhabited

namespace Identification

/-- The first dash before a digit, with what stands before and after it. -/
def cutVersion : List Char → Option (List Char × List Char)
  | '-' :: d :: rest =>
    if d.isDigit then some ([], d :: rest)
    else (cutVersion (d :: rest)).map fun halves => ('-' :: halves.1, halves.2)
  | c :: rest => (cutVersion rest).map fun halves => (c :: halves.1, halves.2)
  | [] => none

/-- The artifact and the version that a file name tells: `commons-lang-2.6.jar` gives `commons-lang`
and `2.6`. -/
def splitFileName (file : Path) : Option String × Option String :=
  match file.stem with
  | none => (none, none)
  | some stem =>
    match cutVersion stem.toList with
    | some (name, version) =>
      (Text.nonBlank? (String.ofList name), Text.nonBlank? (String.ofList version))
    | none => (Text.nonBlank? stem, none)

/-- What the entries of an archive hold that identifies it. -/
structure Findings where
  manifest : Option Attributes
  /-- The property files, in order. -/
  properties : List Attributes
  packages : OrderedSet String
  deriving Inhabited

/-- The name of the manifest, in lower case. -/
def manifestName : String := "meta-inf/manifest.mf"

/-- A text without regard to the case of ASCII letters. -/
def lower (s : String) : String :=
  String.ofList (s.toList.map Char.toLower)

/-- Whether an entry is a property file of a build. -/
def isPropertyFile (name : String) : Bool :=
  "META-INF/maven/".toList.isPrefixOf name.toList
    && "/pom.properties".toList.isSuffixOf name.toList

/-- The package of a class file, told from the directory of its entry. -/
def package? (name : String) : Option String := do
  let path ← Text.dropEnd? ".class".toList name.toList
  let (directory, _) ← Text.cutLast '/' path
  return Text.replace '/' '.' (String.ofList directory)

/-- The text of an entry. -/
def textOf (file : Path) : Archive.Body → Except Error String
  | .refused cause => .error (.badArchive file cause)
  | .unreadable cause => .error (.unreadable file cause)
  | .data content =>
    match Text.utf8? content with
    | some text => .ok text
    | none => .error (.unreadable file .invalidText)

/-- What one entry adds to the findings. Entries that identify nothing are not read, but every entry
has to be in order. -/
def inspect (file : Path) (f : Findings) (entry : Archive.Entry) : Except Error Findings := do
  if let .refused cause := entry.body then
    throw (.badArchive file cause)
  if lower entry.name = manifestName then
    let text ← textOf file entry.body
    return { f with manifest := some (Manifest.parse text) }
  else if isPropertyFile entry.name then
    let text ← textOf file entry.body
    return { f with properties := f.properties ++ [Properties.parse text] }
  else
    match package? entry.name with
    | some package => return { f with packages := f.packages.insert package }
    | none => return f

/-- The property file that counts: the only one, or of several the first that names the artifact as
the file name does. -/
def chosenProperties (artifactId : Option String) : List Attributes → Option Attributes
  | [] => none
  | [only] => some only
  | several =>
    several.find? fun p =>
      match p.lookup "artifactId" with
      | some id => some id == artifactId
      | none => false

/-- The first of some attributes that is there. -/
def firstOf (attributes : Attributes) (names : List String) : Option String :=
  names.findSome? fun name => attributes.lookup name

/-- What the findings in an archive come to. -/
def ofFindings (file : Path) (f : Findings) : Identification :=
  let (fileArtifact, fileVersion) := splitFileName file
  let properties := (chosenProperties fileArtifact f.properties).getD []
  let manifest := f.manifest.getD []
  { groupId := (properties.lookup "groupId").or (firstOf manifest ["Implementation-Vendor-Id"])
    artifactId := ((properties.lookup "artifactId").or fileArtifact).or
      (firstOf manifest ["Implementation-Title", "Bundle-SymbolicName"])
    version := ((properties.lookup "version").or
      (firstOf manifest ["Implementation-Version", "Bundle-Version"])).or fileVersion
    packages := f.packages.toList }

/-- Identifies an archive by its entries. -/
def ofEntries (file : Path) (entries : List Archive.Entry) : Except Error Identification :=
  (entries.foldlM (inspect file) ⟨none, [], .empty⟩).map (ofFindings file)

end Identification

end JarGraph.Artifact
