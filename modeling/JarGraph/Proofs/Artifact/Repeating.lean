import JarGraph.Artifact.Registry
import JarGraph.Proofs.Walk.Repeating
/-!
# Artifacts that are described again

A description reads the archives that it identifies, and nothing else of
the tree. So a set of artifacts that was made in one tree is made in every
other in which the files that were asked for, and those that depend on one
another, read alike (`artifactSet_of_alike`).
-/

namespace JarGraph.Artifact.Registry

open FileSystem (ReadsAlike)

variable {fs fs' : FileSystem} {r r' : Registry} {d d' : Draft} {file : Path}

theorem identify_of_alike {id : Identification} (halike : ReadsAlike fs fs' file)
    (h : identify fs file = .ok id) : identify fs' file = .ok id := by
  unfold identify at h ⊢
  rcases halike.cases with ⟨data, hdata, hdata'⟩ | ⟨cause, cause', hdata, hdata'⟩
  · rw [hdata] at h
    rw [hdata']
    exact h
  · rw [hdata] at h
    cases h

theorem coordinatesOf_of_alike {coordinates : Coordinates} (halike : ReadsAlike fs fs' file)
    (h : r.coordinatesOf fs file = .ok coordinates) :
    r.coordinatesOf fs' file = .ok coordinates := by
  unfold coordinatesOf at h ⊢
  split at h
  · exact h
  · obtain ⟨id, hid, hmerge⟩ := Answer.bind_eq_ok.1 h
    exact Answer.bind_eq_ok.2 ⟨id, identify_of_alike halike hid, hmerge⟩

theorem describe_of_alike {x : Registry × Described} (halike : ReadsAlike fs fs' file)
    (h : r.describe fs file = .ok x) : r.describe fs' file = .ok x := by
  unfold describe at h ⊢
  split at h
  · exact h
  · obtain ⟨coordinates, hcoordinates, hregister⟩ := Answer.bind_eq_ok.1 h
    exact Answer.bind_eq_ok.2 ⟨coordinates, coordinatesOf_of_alike halike hcoordinates, hregister⟩

/-! ## Drafts -/

theorem draft_describe_of_alike (halike : ReadsAlike fs fs' file)
    (h : d.describe fs file = (d', none)) : d.describe fs' file = (d', none) := by
  unfold Draft.describe at h ⊢
  split at h
  · rename_i registry known hdescribe
    rw [describe_of_alike halike hdescribe]
    exact h
  · cases (Prod.mk.inj h).2

theorem addRoot_of_alike (halike : ReadsAlike fs fs' file) (h : addRoot fs d file = (d', none)) :
    addRoot fs' d file = (d', none) := by
  unfold addRoot at h ⊢
  split at h
  · exact h
  · rename_i checked hchecked
    split at h
    · cases (Prod.mk.inj h).2
    · rename_i described hdescribed
      rw [draft_describe_of_alike halike hdescribed]
      exact h

theorem addEdge_of_alike {edge : Path × Path} (hsource : ReadsAlike fs fs' edge.1)
    (htarget : ReadsAlike fs fs' edge.2) (h : addEdge fs d edge = (d', none)) :
    addEdge fs' d edge = (d', none) := by
  unfold addEdge at h ⊢
  split at h
  · exact h
  split at h
  · exact h
  split at h
  · cases (Prod.mk.inj h).2
  rename_i first hfirst
  rw [draft_describe_of_alike htarget hfirst]
  dsimp only
  split at h
  · cases (Prod.mk.inj h).2
  rename_i second hsecond
  rw [draft_describe_of_alike hsource hsecond]
  exact h

/-- Steps that succeed are taken again where each of them is. -/
theorem steps_congr {α : Type} {step step' : Draft → α → Draft × Option Error} {all : List α}
    (hstep : ∀ a ∈ all, ∀ d d', step d a = (d', none) → step' d a = (d', none))
    (h : steps step d all = (d', none)) : steps step' d all = (d', none) := by
  induction all generalizing d with
  | nil => exact h
  | cons a all ih =>
    obtain ⟨ha, hall⟩ := List.forall_mem_cons.1 hstep
    rw [steps] at h ⊢
    split at h
    · cases (Prod.mk.inj h).2
    · rename_i between hbetween
      rw [ha d between hbetween]
      exact ih hall h

/-- **A set of artifacts is made again** where the files that it is made of read alike. -/
theorem artifactSet_of_alike {edges : DependencySet Path} {roots : List Path} {set : ArtifactSet}
    {log : List Walk.LogEntry} (hroots : ∀ file ∈ roots, ReadsAlike fs fs' file)
    (hedges : ∀ source target, .edge source target ∈ edges.toList →
      ReadsAlike fs fs' source ∧ ReadsAlike fs fs' target)
    (h : r.artifactSet fs edges roots = (r', .ok set, log)) :
    r.artifactSet fs' edges roots = (r', .ok set, log) := by
  unfold artifactSet at h ⊢
  split at h
  · cases (Prod.mk.inj (Prod.mk.inj h).2).1
  rename_i afterRoots hafterRoots
  split at h
  · cases (Prod.mk.inj (Prod.mk.inj h).2).1
  rename_i afterEdges hafterEdges
  have hroots' : steps (addRoot fs') _ roots = (afterRoots, none) :=
    steps_congr (fun file hfile _ _ => addRoot_of_alike (hroots file hfile)) hafterRoots
  have hedges' : steps (addEdge fs') afterRoots (DependencySet.edges edges) =
      (afterEdges, none) := by
    refine steps_congr (fun edge hedge _ _ hstep => ?_) hafterEdges
    obtain ⟨hsource, htarget⟩ := hedges edge.1 edge.2 (DependencySet.mem_edges.1 hedge)
    exact addEdge_of_alike hsource htarget hstep
  rw [hroots']
  dsimp only
  rw [hedges']
  exact h

end JarGraph.Artifact.Registry
