import JarGraph.Dependency.Set
/-!
# Edits of dependency sets

A dependency set as the edits that made it, and the pairs that these edits leave, said without a
list of pairs. Keys that compare equal count as the same key.
-/

namespace JarGraph.DependencySet

variable {κ : Type} [Ord κ]

/-- One edit. -/
inductive Edit (κ : Type) where
  | add (d : Dependency κ)
  | remove (d : Dependency κ)
  | clear

namespace Edit

/-- The pairs that are there after an edit, given those that were there before. -/
def Leaves (before : Dependency κ → Prop) : Edit κ → Dependency κ → Prop
  | add d, e => compare e d = .eq ∨ before e
  | remove d, e => compare e d ≠ .eq ∧ before e
  | clear, _ => False

/-- The pairs that some edits leave. -/
def LeftBy (edits : List (Edit κ)) : Dependency κ → Prop :=
  edits.foldl Leaves fun _ => False

variable [Std.TransOrd κ]

/-- The set after an edit, and whether the edit changed it. -/
def apply (s : DependencySet κ) : Edit κ → DependencySet κ × Bool
  | add d => (s.insert d, !s.contains d)
  | remove d => (s.erase d, s.contains d)
  | clear => (.empty, !s.isEmpty)

/-- The set after some edits. -/
def applyAll (edits : List (Edit κ)) : DependencySet κ :=
  edits.foldl (fun s edit => (edit.apply s).1) .empty

end Edit

end JarGraph.DependencySet
