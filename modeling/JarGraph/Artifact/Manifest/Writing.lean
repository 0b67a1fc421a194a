import JarGraph.Artifact.Manifest
/-!
# Writing manifests

An attribute is written as its name, a colon with a space, and its value, which may be cut into
pieces anywhere: every piece after the first stands in a line of its own that starts with a space.
-/

namespace JarGraph.Artifact.Manifest

/-- How a line ends. -/
inductive LineEnd where
  | feed
  | returnAndFeed
  deriving DecidableEq, Repr, Inhabited

/-- The characters of a line's end. -/
def LineEnd.chars : LineEnd → List Char
  | feed => ['\n']
  | returnAndFeed => ['\r', '\n']

/-- An attribute as it is cut into lines: the pieces of its value, each with the end of its line. -/
structure Wrapped where
  name : List Char
  /-- The piece in the line of the name. -/
  first : List Char × LineEnd
  /-- The pieces in the lines after it. -/
  more : List (List Char × LineEnd)
  deriving DecidableEq, Repr, Inhabited

namespace Wrapped

/-- The value of the attribute. -/
def value (w : Wrapped) : List Char :=
  w.first.1 ++ w.more.flatMap Prod.fst

/-- The characters of the attribute's lines. -/
def chars (w : Wrapped) : List Char :=
  w.name ++ [':', ' '] ++ w.first.1 ++ w.first.2.chars
    ++ w.more.flatMap fun piece => ' ' :: piece.1 ++ piece.2.chars

end Wrapped

/-- The text of a manifest with some attributes. -/
def written (all : List Wrapped) : String :=
  String.ofList (all.flatMap Wrapped.chars)

end JarGraph.Artifact.Manifest
