import JarGraph.Artifact.Report
import JarGraph.Markup.Basic
/-!
# Reading a report

What a report says, as records of files, and a reader that finds the records in a document.
-/

namespace JarGraph.Artifact.Report

open Markup (Item)

/-- What a report says of one file. -/
structure Record where
  name : Option String
  coordinates : Coordinates
  deriving DecidableEq, Repr, Inhabited

/-- The record of a file. -/
def record (report : Report) (d : Described) : Record :=
  ⟨report.nameOf d.file, d.coordinates⟩

/-- The records of a set: each artifact with what it depends on. -/
def records (report : Report) (set : ArtifactSet) : List (Record × List Record) :=
  set.toList.map fun d => (report.record d, (set.dependenciesOf d).map report.record)

/-- The content of an element without the blank texts between its parts. -/
def parts (children : List Item) : List Item :=
  children.filter fun
    | .text content => !content.toList.all Text.isBlank
    | .element _ _ _ => true

/-- The text of an element that holds nothing else. -/
def leaf? (tag : String) : Item → Option String
  | .element found [] [] => if found = tag then some "" else none
  | .element found [] [.text content] => if found = tag then some content else none
  | _ => none

/-- The name that an element gives. -/
def name? : List (String × String) → Option (Option String)
  | [] => some none
  | [(key, name)] => if key = "name" then some (some name) else none
  | _ => none

/-- The coordinates at the front of some parts, and the parts after them. -/
def coordinates? : List Item → Option (Coordinates × List Item)
  | group :: artifact :: version :: more => do
    let groupId ← leaf? "groupid" group
    let artifactId ← leaf? "artifactid" artifact
    let version ← leaf? "version" version
    match more with
    | [] => return (⟨groupId, artifactId, version, none⟩, [])
    | next :: others =>
      match leaf? "classifier" next with
      | some classifier => return (⟨groupId, artifactId, version, some classifier⟩, others)
      | none => return (⟨groupId, artifactId, version, none⟩, more)
  | _ => none

/-- The record of an element for a file, and the parts after its coordinates. -/
def record? (tag : String) : Item → Option (Record × List Item)
  | .element found attributes children =>
    if found = tag then do
      let name ← name? attributes
      let (coordinates, more) ← coordinates? (parts children)
      return (⟨name, coordinates⟩, more)
    else none
  | .text _ => none

/-- The record of a file that an artifact depends on. -/
def dependency? (item : Item) : Option Record :=
  match record? "dependency" item with
  | some (record, []) => some record
  | _ => none

/-- The records of an artifact and of what it depends on. -/
def artifact? (item : Item) : Option (Record × List Record) := do
  let (record, more) ← record? "artifact" item
  match more with
  | [] => return (record, [])
  | [.element "dependencies" [] children] =>
    let needed ← (parts children).mapM dependency?
    return (record, needed)
  | _ => none

/-- The records that a document holds. -/
def read (text : String) : Option (List (Record × List Record)) :=
  match Markup.read text.toList with
  | some (.element "artifacts" [] children) => (parts children).mapM artifact?
  | _ => none

end JarGraph.Artifact.Report
