import JarGraph.Json.Value
import JarGraph.Settings.Basic
/-!
# Settings in JSON

Settings are written as an object, whose unknown members do not count and whose known ones may stand
once, or as an array of the values in their order, from whose end values may be missing. The same
holds of the hints in them.
-/

namespace JarGraph

namespace Json

/-- A string that has a text. -/
def text? : Json → Option String
  | string text => text
  | _ => none

/-- A truth value. -/
def bool? : Json → Option Bool
  | bool value => some value
  | _ => none

/-- An array of values of one kind. -/
def list? {α : Type} (item : Json → Option α) : Json → Option (List α)
  | array items => items.mapM item
  | _ => none

/-- A value that may be missing, which `null` says. -/
def option? {α : Type} (value : Json → Option α) : Json → Option (Option α)
  | null => some none
  | j => (value j).map some

/-- A path. -/
def path? (j : Json) : Option Path :=
  j.text?.map Path.mk

end Json

/-- A member of a record: its name, and how its value changes the record. -/
structure Field (ρ : Type) where
  name : String
  set : ρ → Json → Option ρ

namespace Field

variable {ρ α : Type}

/-- A member whose value is read and then put into the record. -/
def of (name : String) (value : Json → Option α) (put : ρ → α → ρ) : Field ρ :=
  ⟨name, fun r j => (value j).map (put r)⟩

/-- Reads the members of an object into a record. The names that stood before may not come again. -/
def readMembers (fields : List (Field ρ)) :
    List String → ρ → List (Option String × Json) → Option ρ
  | _, r, [] => some r
  | _, _, (none, _) :: _ => none
  | before, r, (some name, value) :: more =>
    match fields.find? fun f => f.name == name with
    | none => readMembers fields before r more
    | some field =>
      if before.contains name then none
      else
        match field.set r value with
        | some r => readMembers fields (name :: before) r more
        | none => none

/-- Reads the items of an array into a record, in the order of its members. -/
def readItems : List (Field ρ) → ρ → List Json → Option ρ
  | _, r, [] => some r
  | [], _, _ :: _ => none
  | field :: fields, r, value :: more =>
    match field.set r value with
    | some r => readItems fields r more
    | none => none

/-- Reads a record, starting from what it holds where nothing is said. -/
def readRecord (fields : List (Field ρ)) (start : ρ) : Json → Option ρ
  | .object members => readMembers fields [] start members
  | .array items => readItems fields start items
  | _ => none

end Field

namespace Artifact.Hint

/-- The members of a hint. -/
def fields : List (Field Hint) :=
  let text := Json.option? Json.text?
  [.of "name" text fun h v => { h with name := v },
    .of "groupId" text fun h v => { h with groupId := v },
    .of "artifactId" text fun h v => { h with artifactId := v },
    .of "version" text fun h v => { h with version := v },
    .of "classifier" text fun h v => { h with classifier := v }]

/-- A hint. -/
def ofJson? (j : Json) : Option Hint :=
  Field.readRecord fields empty j

end Artifact.Hint

namespace Walk.Policy

/-- The policy of a name. -/
def ofName? : String → Option Policy
  | "strict" => some .strict
  | "lenient" => some .lenient
  | _ => none

/-- A policy: its name, or an object that gives the name the value `null`. -/
def ofJson? : Json → Option Policy
  | .string (some name) => ofName? name
  | .object [(some name, .null)] => ofName? name
  | _ => none

end Walk.Policy

namespace Settings

/-- The members of settings. -/
def fields : List (Field Settings) :=
  let texts := Json.list? Json.text?
  [.of "binariesDir" Json.path? fun s v => { s with binaries := v },
    .of "output" Json.path? fun s v => { s with output := v },
    .of "localRepository" (Json.option? Json.path?) fun s v => { s with repository := v },
    .of "libsIncludes" texts fun s v => { s with libsIncludes := v },
    .of "libsExcludes" texts fun s v => { s with libsExcludes := v },
    .of "depsIncludes" texts fun s v => { s with depsIncludes := v },
    .of "depsExcludes" texts fun s v => { s with depsExcludes := v },
    .of "dependencyFiles" (Json.list? Json.path?) fun s v => { s with dependencyFiles := v },
    .of "jvmProvidedClasses" (Json.option? texts) fun s v => { s with machineProvided := v },
    .of "providedClasses" texts fun s v => { s with provided := v },
    .of "artifacts" (Json.list? Artifact.Hint.ofJson?) fun s v => { s with artifacts := v },
    .of "errorPolicy" Walk.Policy.ofJson? fun s v => { s with policy := v },
    .of "debug" Json.bool? fun s v => { s with debug := v },
    .of "force" Json.bool? fun s v => { s with force := v }]

/-- The settings that a text writes. -/
def ofText? (text : String) : Option Settings :=
  (Json.parse text).bind (Field.readRecord fields default)

end Settings

end JarGraph
