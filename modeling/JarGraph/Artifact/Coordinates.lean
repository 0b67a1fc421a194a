import JarGraph.Archive.Basic
import JarGraph.Path.Basic
import JarGraph.Text.Printable
/-!
# Coordinates and hints

An artifact is known by the id of its group, its own id, its version, and perhaps a classifier.
Users may give some of these as a hint, for one file or for all. A failure tells why no coordinates
can be given to a file, or why a request does not fit what was given before.
-/

namespace JarGraph.Artifact

/-- Why a file is not described. -/
inductive Error where
  /-- The coordinates of a file are incomplete, or one of them is not well formed. -/
  | invalidCoordinates (file : Path) (reason : String)
  /-- There are two hints for one name, or two without a name. -/
  | duplicateHint (name : Option String)
  /-- A file was given other coordinates or dependencies before. -/
  | mismatch (file : Path)
  /-- A file, or an entry of it, cannot be read. -/
  | unreadable (file : Path) (cause : IoError)
  /-- A file is no archive that can be read. -/
  | badArchive (file : Path) (cause : Archive.Error)
  deriving DecidableEq, Repr, Inhabited

/-- The words of a failure. -/
def Error.message : Error → String
  | invalidCoordinates file reason =>
    "coordinates of " ++ file.text ++ " are incomplete or invalid: " ++ reason
  | duplicateHint name => "duplicate artifact information for " ++ name.getD "default values"
  | mismatch file => "requested coordinates mismatch the existing record for " ++ file.text
  | unreadable file cause => "failed to identify " ++ file.text ++ ": " ++ cause.message
  | badArchive file cause => "failed to identify " ++ file.text ++ ": " ++ cause.message

/-- What an artifact is known by. -/
structure Coordinates where
  groupId : String
  artifactId : String
  version : String
  classifier : Option String
  deriving DecidableEq, Repr, Inhabited

namespace Coordinates

/-- A character of an id: a letter or a digit of ASCII, an underscore, a dot or a dash. -/
def isIdChar (c : Char) : Bool :=
  c.isAlphanum || c == '_' || c == '.' || c == '-'

/-- An id has at least one character. -/
def isId (s : String) : Bool :=
  !s.isEmpty && s.toList.all isIdChar

/-- A version or a classifier has at least one character and no blanks. -/
def isPlain (s : String) : Bool :=
  !s.isEmpty && !s.toList.any Text.isBlank

/-- Coordinates whose parts are well formed. -/
def isValid (c : Coordinates) : Bool :=
  isId c.groupId && isId c.artifactId && isPlain c.version && c.classifier.all isPlain

/-- The coordinates of a file from their parts, if these are complete and well formed. -/
def make (file : Path) (groupId artifactId version classifier : Option String) :
    Except Error Coordinates := do
  let refuse (reason : String) : Except Error Coordinates :=
    .error (.invalidCoordinates file reason)
  match groupId, artifactId, version with
  | none, _, _ => refuse "missing groupId"
  | _, none, _ => refuse "missing artifactId"
  | _, _, none => refuse "missing version"
  | some groupId, some artifactId, some version =>
    if !isId groupId then
      refuse ("groupId " ++ Text.quoted groupId ++ " has invalid characters")
    else if !isId artifactId then
      refuse ("artifactId " ++ Text.quoted artifactId ++ " has invalid characters")
    else if !isPlain version then refuse ("version " ++ Text.quoted version ++ " is not valid")
    else
      match classifier with
      | some text =>
        if isPlain text then .ok ⟨groupId, artifactId, version, classifier⟩
        else refuse ("classifier " ++ Text.quoted text ++ " is not valid")
      | none => .ok ⟨groupId, artifactId, version, none⟩

/-- Coordinates that are made have the given parts, and these are well formed. -/
theorem of_make_eq_ok {file : Path} {groupId artifactId version classifier : Option String}
    {c : Coordinates} (h : make file groupId artifactId version classifier = .ok c) :
    groupId = some c.groupId ∧ artifactId = some c.artifactId ∧ version = some c.version ∧
      classifier = c.classifier ∧ c.isValid = true := by
  unfold make at h
  dsimp only at h
  split at h
  · cases h
  · cases h
  · cases h
  split at h
  · cases h
  rename_i hgroup
  split at h
  · cases h
  rename_i hartifact
  split at h
  · cases h
  rename_i hversion
  split at h
  · split at h
    · rename_i hclassifier
      obtain rfl := Except.ok.inj h
      exact ⟨rfl, rfl, rfl, rfl, by simp_all [isValid]⟩
    · cases h
  · obtain rfl := Except.ok.inj h
    exact ⟨rfl, rfl, rfl, rfl, by simp_all [isValid]⟩

/-- The coordinates as one text, their parts joined by colons. -/
def display (c : Coordinates) : String :=
  c.groupId ++ ":" ++ c.artifactId ++ ":" ++ c.version
    ++ (match c.classifier with
      | some text => ":" ++ text
      | none => "")

end Coordinates

/-- What a user says of a file, or of every file where no name is given. -/
structure Hint where
  name : Option String
  groupId : Option String
  artifactId : Option String
  version : Option String
  classifier : Option String
  deriving DecidableEq, Repr, Inhabited

namespace Hint

/-- A hint that says nothing. -/
def empty : Hint := ⟨none, none, none, none, none⟩

/-- A part of a hint; one that is blank says nothing. -/
def part (text : List Char) : Option String :=
  Text.nonBlank? (String.ofList text)

/-- Reads `[name=]groupId:artifactId:version[:classifier]`. -/
def parse (text : String) : Except String Hint :=
  let (name, parts) :=
    match Text.cutWhere (· == '=') text.toList with
    | some (name, rest) => (part name, Text.pieces ':' rest)
    | none => (none, Text.pieces ':' text.toList)
  match parts with
  | [groupId, artifactId, version] =>
    .ok ⟨name, part groupId, part artifactId, part version, none⟩
  | [groupId, artifactId, version, classifier] =>
    .ok ⟨name, part groupId, part artifactId, part version, part classifier⟩
  | _ =>
    .error ("expected [name=]groupId:artifactId:version[:classifier], got " ++ Text.quoted text)

end Hint

end JarGraph.Artifact
