import JarGraph.Text.Cut
/-!
# Manifests and property files

Two forms in which an archive says who it is. A manifest has lines of a name, a colon with a space,
and a value; a line that starts with a space goes on with the value before it. Of several values of
a name the first counts, with the lines that go on with it. A property file has lines of a key and a
value, and of several values the last counts.
-/

namespace JarGraph.Artifact

/-- Names with their values, in the order in which they came up. -/
abbrev Attributes := List (String × String)

namespace Manifest

/-- A name and a value, where the line holds both. -/
def attribute? : List Char → Option (List Char × List Char)
  | [] => none
  | ':' :: ' ' :: rest => some ([], rest)
  | c :: rest => (attribute? rest).map fun halves => (c :: halves.1, halves.2)

/-- What has been read of a manifest. -/
structure Draft where
  attributes : Attributes
  /-- The name that a following line may go on with. -/
  last : Option String
  deriving Repr, Inhabited

/-- Adds to the value of a name. -/
def extend (attributes : Attributes) (name more : String) : Attributes :=
  attributes.map fun a => if a.1 = name then (a.1, a.2 ++ more) else a

/-- One line of a manifest. A line that goes on belongs to the name before it even where that name
had come up earlier. -/
def line (d : Draft) : List Char → Draft
  | ' ' :: more =>
    match d.last with
    | some name => { d with attributes := extend d.attributes name (String.ofList more) }
    | none => d
  | text =>
    match attribute? text with
    | some (name, value) =>
      let name := String.ofList name
      let value := String.ofList (Text.trim value)
      let known := (d.attributes.lookup name).isSome
      ⟨if known then d.attributes else d.attributes ++ [(name, value)], some name⟩
    | none => { d with last := none }

/-- The attributes of a manifest. -/
def parse (text : String) : Attributes :=
  ((Text.lines text.toList).foldl line ⟨[], none⟩).attributes

end Manifest

namespace Properties

/-- A key and a value, where the line holds both. Comments and blank lines hold none. -/
def property? (text : List Char) : Option (String × String) :=
  match Text.trim text with
  | [] => none
  | '#' :: _ => none
  | '!' :: _ => none
  | text =>
    (Text.cutWhere (fun c => c == '=' || c == ':') text).map fun halves =>
      (String.ofList (Text.trim halves.1), String.ofList (Text.trim halves.2))

/-- The properties of a file, the last value of a key first. -/
def parse (text : String) : Attributes :=
  ((Text.lines text.toList).filterMap property?).reverse

end Properties

end JarGraph.Artifact
