import JarGraph.Ordered.Set
/-!
# Dependency sets

A dependency leads from one key to another. A pair without a target only marks that its source was
observed. Sets of pairs are ordered by the source, then the marker, then the targets.
-/

namespace JarGraph

/-- A pair of a source and a target, or the marker of an observed source. -/
structure Dependency (κ : Type) where
  source : κ
  /-- The target; none is there in the marker. -/
  target : Option κ
  deriving DecidableEq, Repr, Inhabited

namespace Dependency

variable {κ : Type}

/-- The marker of an observed source. -/
def observed (source : κ) : Dependency κ := ⟨source, none⟩

/-- A dependency proper. -/
def edge (source target : κ) : Dependency κ := ⟨source, some target⟩

/-- The pair as it is shown. -/
def display (show_ : κ → String) (d : Dependency κ) : String :=
  match d.target with
  | some target => show_ d.source ++ " -> " ++ show_ target
  | none => show_ d.source

variable [Ord κ]

instance : Ord (Dependency κ) where
  compare := compareLex (compareOn source) (compareOn target)

instance [Std.TransOrd κ] : Std.TransOrd (Dependency κ) :=
  inferInstanceAs (Std.TransCmp (compareLex (compareOn source) (compareOn target)))

theorem compare_eq_iff {d e : Dependency κ} :
    compare d e = .eq ↔ compare d.source e.source = .eq ∧ compare d.target e.target = .eq :=
  Ordering.then_eq_eq

/-- Two dependencies proper compare by their ends. -/
theorem compare_edge_edge {a b c d : κ} :
    compare (edge a b) (edge c d) = .eq ↔ compare a c = .eq ∧ compare b d = .eq :=
  compare_eq_iff

/-- A marker is no dependency proper. -/
theorem compare_observed_edge {a b c : κ} : compare (observed a) (edge b c) ≠ .eq :=
  fun h => nomatch (compare_eq_iff.1 h).2

instance [Std.LawfulEqOrd κ] : Std.LawfulEqOrd (Dependency κ) where
  compare_self := compare_eq_iff.2 ⟨Std.ReflOrd.compare_self, Std.ReflOrd.compare_self⟩
  eq_of_compare {d e} h := by
    obtain ⟨hs, ht⟩ := compare_eq_iff.1 h
    cases d; cases e
    simp_all

end Dependency

/-- An ordered set of dependencies. -/
abbrev DependencySet (κ : Type) [Ord κ] := OrderedSet (Dependency κ)

namespace DependencySet

variable {κ : Type} [Ord κ]

/-- The dependencies proper, without markers. -/
def edges (s : DependencySet κ) : List (κ × κ) :=
  s.toList.filterMap fun d => d.target.map fun target => (d.source, target)

/-- The targets of a source, in order. -/
def targetsOf (s : DependencySet κ) (source : κ) : List κ :=
  s.toList.filterMap fun d => if compare d.source source = .eq then d.target else none

theorem mem_edges {s : DependencySet κ} {source target : κ} :
    (source, target) ∈ edges s ↔ .edge source target ∈ s.toList := by
  simp only [edges, List.mem_filterMap, Option.map_eq_some_iff]
  constructor
  · rintro ⟨⟨a, b⟩, h, c, rfl, e⟩
    cases e
    exact h
  · exact fun h => ⟨_, h, _, rfl, rfl⟩

end DependencySet

end JarGraph
