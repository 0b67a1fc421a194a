import JarGraph.FileSystem.Basic
/-!
# Well-formed directories

In a directory the entries stand in the ascending order of their names, and every name is one that a
path can have as a component.
-/

namespace JarGraph

/-- Whether an entry of a directory may have the name. -/
def IsEntryName (name : String) : Prop :=
  name ≠ "" ∧ name ≠ "." ∧ name ≠ ".." ∧ '/' ∉ name.toList

instance (name : String) : Decidable (IsEntryName name) :=
  inferInstanceAs (Decidable (_ ∧ _))

namespace Listing

/-- The names of the entries, in their order. -/
def names : Listing → List String
  | nil => []
  | file name _ _ rest => name :: names rest
  | folder name _ _ rest => name :: names rest

/-- Whether a directory and all those below it are in order. -/
def WellFormed : Listing → Prop
  | nil => True
  | file name _ _ rest => IsEntryName name ∧ (∀ other ∈ rest.names, name < other) ∧ rest.WellFormed
  | folder name inside _ rest =>
    IsEntryName name ∧ inside.WellFormed ∧ (∀ other ∈ rest.names, name < other) ∧ rest.WellFormed

/-- Whether a directory is in order is told entry by entry. -/
def decideWellFormed : (l : Listing) → Decidable l.WellFormed
  | nil => .isTrue trivial
  | file _ _ _ rest =>
    have := decideWellFormed rest
    inferInstanceAs (Decidable (_ ∧ _ ∧ _))
  | folder _ inside _ rest =>
    have := decideWellFormed inside
    have := decideWellFormed rest
    inferInstanceAs (Decidable (_ ∧ _ ∧ _ ∧ _))

instance (l : Listing) : Decidable l.WellFormed :=
  l.decideWellFormed

end Listing

/-- Whether a node is a file, or a directory that is in order. -/
def Node.WellFormed : Node → Prop
  | file _ _ => True
  | folder inside _ => inside.WellFormed

instance : (node : Node) → Decidable node.WellFormed
  | .file _ _ => .isTrue trivial
  | .folder inside _ => inferInstanceAs (Decidable inside.WellFormed)

end JarGraph
