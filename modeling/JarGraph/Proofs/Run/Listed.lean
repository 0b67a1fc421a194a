import JarGraph.Proofs.Artifact.Sets
import JarGraph.Proofs.Run.Identifying
/-!
# Containers that are only listed

A run analyses the containers below the binaries, and lists others for
the classes that are referenced. All of its walks settle where classes
are, the last one in the end, so that a container that is only listed
takes over each analysed class that it holds as well. From then on the
references of that class count as its own: it depends on other containers
and is described like one that was analysed (`exists_unanalysed_source`).
A container that takes over no class does not (`contains_or_takesOver`).
-/

namespace JarGraph

namespace Artifact.Registry

variable {fs : FileSystem} {roots : List Path} {edges : DependencySet Path} {r r' : Registry}
  {set : ArtifactSet} {log : List Walk.LogEntry}

/-- A hint describes no file. -/
theorem files_addHint {h : Hint} (ok : r.addHint h = .ok r') : r'.files = r.files := by
  obtain ⟨-, rfl⟩ := addHint_eq_ok.1 ok
  rfl

theorem files_foldlM_addHint {hints : List Hint} (ok : hints.foldlM addHint r = .ok r') :
    r'.files = r.files := by
  induction hints generalizing r with
  | nil => rw [← Except.ok.inj ok]
  | cons h hints ih =>
    rw [List.foldlM_cons] at ok
    obtain ⟨between, hfirst, hrest⟩ := Answer.bind_eq_ok.1 ok
    rw [ih hrest, files_addHint hfirst]

/-- The artifacts of a set are roots or depend on another file. -/
theorem of_mem_artifactSet (hfiles : r.files = .empty)
    (h : r.artifactSet fs edges roots = (r', .ok set, log)) :
    ∀ d ∈ set.toList, (∃ root ∈ roots, root.same d.file = true) ∨
      ∃ target, edges.contains (.edge d.file target) = true := by
  obtain ⟨hints, files, repository⟩ := r
  subst hfiles
  unfold artifactSet at h
  split at h
  · cases (Prod.mk.inj (Prod.mk.inj h).2).1
  rename_i afterRoots hroots
  split at h
  · cases (Prod.mk.inj (Prod.mk.inj h).2).1
  rename_i afterEdges hedges
  obtain rfl := Except.ok.inj (Prod.mk.inj (Prod.mk.inj h).2).1
  have rooted := of_steps
    (p := fun done d => Recorded done [] d.registry d.artifacts)
    (fun _ _ _ _ => recorded_addRoot) (recorded_empty hints repository) hroots
  have recorded := of_steps
    (p := fun done d => Recorded roots done d.registry d.artifacts)
    (fun _ _ _ _ => recorded_addEdge) rooted hedges
  intro d hd
  obtain ⟨-, hroot | ⟨target, hedge, -⟩⟩ :=
    ((ArtifactSet.describes_collect recorded).artifacts d.file).1 ⟨d, hd, d.file.same_self⟩
  · exact .inl hroot
  · exact .inr ⟨target, hedge⟩

end Artifact.Registry

namespace Analysis

open Analyser (Call)

variable {fs : FileSystem} {s : Settings} {a : Analysis} {file source target : Path}

/-! ## Analysed and listed classes -/

/-- The classes that a run takes in from the containers that it analyses. -/
def takenAnalysed (fs : FileSystem) (s : Settings) : List (Path × Extraction) :=
  takenBy fs (libsWalk s)

/-- The classes that a run takes in from the containers that it lists. -/
def takenListed (fs : FileSystem) (s : Settings) : List (Path × Extraction) :=
  takenBy fs (depsWalk s ++ [(.inventory, .files s.binaries s.dependencyFiles)])

theorem taken_eq (fs : FileSystem) (s : Settings) :
    taken fs s = takenAnalysed fs s ++ takenListed fs s := by
  rw [taken, walksOf, List.append_assoc, takenBy_append]
  rfl

theorem depth_of_mem_depsWalk {walk : Depth × Walk.Source} (h : walk ∈ depsWalk s) :
    walk.1 = .inventory := by
  unfold depsWalk at h
  split at h
  · split at h
    · rw [List.mem_singleton.1 h]
    · cases h
  · cases h

/-- Listed classes are extracted without their references. -/
theorem exists_extract_of_mem_takenListed {p : Path} {x : Extraction}
    (h : (p, x) ∈ takenListed fs s) : ∃ data, extract data p .inventory = .ok x := by
  obtain ⟨walk, hwalk, h⟩ := List.mem_flatMap.1 h
  have hdepth : walk.1 = .inventory := by
    rcases List.mem_append.1 hwalk with hwalk | hwalk
    · exact depth_of_mem_depsWalk hwalk
    · rw [List.mem_singleton.1 hwalk]
  obtain ⟨container, -, h⟩ := List.mem_flatMap.1 h
  obtain ⟨rfl, data, -, hx⟩ := Walk.mem_extractions.1 h
  exact ⟨data, hdepth ▸ hx⟩

/-- A class of which a run knows a reference was analysed. -/
theorem holds_of_references_taken {user name : String}
    (h : References (taken fs s) file user name) : Holds (takenAnalysed fs s) file user := by
  obtain ⟨p, x, hx, hsame, hname, hmem⟩ := h
  rw [taken_eq] at hx
  rcases List.mem_append.1 hx with hx | hx
  · exact ⟨p, x, hx, hsame, hname⟩
  · obtain ⟨data, hextract⟩ := exists_extract_of_mem_takenListed hx
    cases (Extraction.of_reference_mem_sightings hextract hmem).1

theorem holds_taken_cases {name : String} (h : Holds (taken fs s) file name) :
    Holds (takenAnalysed fs s) file name ∨ Holds (takenListed fs s) file name := by
  obtain ⟨p, x, hx, rest⟩ := h
  rw [taken_eq] at hx
  rcases List.mem_append.1 hx with hx | hx
  · exact .inl ⟨p, x, hx, rest⟩
  · exact .inr ⟨p, x, hx, rest⟩

/-- The containers of an analysis are those of which a class was analysed. -/
theorem contains_containers_iff (ok : (analyse fs s).answer = .ok a) :
    a.containers.contains file = true ↔ ∃ name, Holds (takenAnalysed fs s) file name := by
  rw [(analyse_taken ok).2, contains_containers]
  rfl

/-! ## Classes that are taken over -/

/-- A container that is listed holds a class that was analysed in another one, and the class counts
as its own in the end. -/
def TakesOver (fs : FileSystem) (s : Settings) (a : Analysis) (file : Path) : Prop :=
  ∃ name, Holds (takenListed fs s) file name ∧
    (∃ p ∈ a.result.classes.get? name, p.same file = true) ∧
    ∃ other, a.containers.contains other = true ∧ Holds (takenAnalysed fs s) other name

/-- **What depends on another container** was analysed, or takes over a class that was. -/
theorem contains_or_takesOver_of_fileEdge (ok : (analyse fs s).answer = .ok a)
    (hedge : a.result.fileEdges.contains (.edge source target) = true) :
    a.containers.contains source = true ∨ TakesOver fs s a source := by
  have extracted := extracted_taken fs s
  have shown := Analyser.shown_result (Analyser.records_replay _) (Analyser.fresh_replay
    (calls s.allProvided (taken fs s)))
  rw [← (analyse_taken ok).1] at shown
  obtain ⟨source', target', heq, -, user, name, hpair, hsource, -⟩ := (shown.fileEdges _).1 hedge
  obtain ⟨rfl, -⟩ : source = source' ∧ target = target' := by
    simpa [Dependency.edge] using heq
  -- The reference was extracted where its class was analysed, which may be another container.
  obtain ⟨⟨other, hreferences⟩, -⟩ := (edge_mem_pairs_calls extracted).1 hpair
  have hother := holds_of_references_taken hreferences
  -- Where the class is at home in the end, it was analysed or listed.
  rcases holds_taken_cases (holds_of_lastHome? extracted hsource) with hanalysed | hlisted
  · exact .inl ((contains_containers_iff ok).2 ⟨user, hanalysed⟩)
  · exact .inr ⟨user, hlisted, (shown.homes user).exists_same_iff.2 hsource, other,
      (contains_containers_iff ok).2 ⟨user, hother⟩, hother⟩

/-- **Containers that are only listed** depend on others, and are described, where they take over a
class that was analysed, and only there: every container that depends on another one, and every
artifact that is described, is one of the containers of the analysis or takes over a class of
theirs. -/
theorem contains_or_takesOver (ok : (analyse fs s).answer = .ok a) :
    (∀ source target, a.result.fileEdges.contains (.edge source target) = true →
      a.containers.contains source = true ∨ TakesOver fs s a source) ∧
    ∀ set, (describe fs s a).answer = .ok set → ∀ d ∈ set.toList,
      a.containers.contains d.file = true ∨ TakesOver fs s a d.file := by
  refine ⟨fun source target => contains_or_takesOver_of_fileEdge ok, fun set h d hd => ?_⟩
  unfold describe at h
  split at h
  · cases h
  rename_i registry hregistry
  have hfiles : registry.files = .empty := Artifact.Registry.files_foldlM_addHint hregistry
  generalize hset : registry.artifactSet fs a.result.fileEdges a.containers.toList = described at h
  obtain ⟨after, answer, log⟩ := described
  cases answer with
  | error cause => cases h
  | ok made =>
    obtain rfl := Except.ok.inj h
    rcases Artifact.Registry.of_mem_artifactSet hfiles hset d hd with hroot | ⟨target, hedge⟩
    · exact .inl (Artifact.Registry.contains_iff_same.2 hroot)
    · exact contains_or_takesOver_of_fileEdge ok hedge

/-! ## A class in two places -/

/-- Two classes `A` and `B` among the binaries, and a second `A` beside them. -/
def secondA : FileSystem where
  root := .folder (.folder "work"
    (.file "A.class" Extraction.selfReferring 0
      (.folder "bin" (.file "A.class" Extraction.selfReferring 0
        (.file "B.class" plainClass 0 .nil)) 0 .nil)) 0 .nil) 0
  workingNames := ["work"]
  home := ⟨"/work"⟩
  clock := 1

/-- Settings that list the second class. -/
def listingSecondA : Settings :=
  { Settings.default with
    binaries := ⟨"bin"⟩
    dependencyFiles := [⟨"A.class"⟩]
    machineProvided := some [] }

/-- The listed class takes the reference of the other one over. -/
theorem fileEdges_secondA :
    ∃ a, (analyse secondA listingSecondA).answer = .ok a ∧
      a.result.fileEdges.contains (.edge ⟨"A.class"⟩ ⟨"bin/B.class"⟩) = true ∧
      a.containers.contains ⟨"A.class"⟩ = false := by
  have check : (analyse secondA listingSecondA).answer.toOption.map (fun a =>
      (a.result.fileEdges.contains (.edge ⟨"A.class"⟩ ⟨"bin/B.class"⟩),
        a.containers.contains ⟨"A.class"⟩)) = some (true, false) := by
    decide +kernel
  cases ok : (analyse secondA listingSecondA).answer with
  | error cause => simp [ok, Except.toOption] at check
  | ok a =>
    simp only [ok, Except.toOption, Option.map_some, Option.some.injEq, Prod.mk.injEq] at check
    exact ⟨a, rfl, check⟩

theorem contains_or_takesOver_secondA :
    ∃ a, (analyse secondA listingSecondA).answer = .ok a ∧
      a.containers.contains ⟨"A.class"⟩ = false ∧
      TakesOver secondA listingSecondA a ⟨"A.class"⟩ := by
  obtain ⟨a, ok, hedge, hnot⟩ := fileEdges_secondA
  refine ⟨a, ok, hnot, ((contains_or_takesOver ok).1 _ _ hedge).resolve_left fun h => ?_⟩
  rw [hnot] at h
  cases h

/-- **That a container is only listed does not keep it from depending on others.** -/
theorem exists_unanalysed_source :
    ¬ ∀ (fs : FileSystem) (s : Settings) (a : Analysis), (analyse fs s).answer = .ok a →
      ∀ source target, a.result.fileEdges.contains (.edge source target) = true →
        a.containers.contains source = true := by
  intro analysed
  obtain ⟨a, ok, hedge, hnot⟩ := fileEdges_secondA
  rw [analysed _ _ a ok _ _ hedge] at hnot
  cases hnot

end Analysis

end JarGraph
