import JarGraph.Proofs.Artifact.Repeating
import JarGraph.Proofs.Run.Identifying
/-!
# Analyses that are repeated

An analysis that came to its end comes to the same result in every tree in
which its walks meet the same containers and these read alike
(`exists_analyse_of_alike`). The files that are described are containers
of these walks, by the very paths under which the walks met them, so that
the description is the same as well (`describe_of_alike`).
-/

namespace JarGraph

theorem OrderedSet.mem_of_mem_foldl_insert {α : Type} [Ord α] [Std.TransOrd α] {xs : List α}
    {s : OrderedSet α} {x : α} (h : x ∈ (xs.foldl OrderedSet.insert s).toList) :
    x ∈ s.toList ∨ x ∈ xs := by
  induction xs generalizing s with
  | nil => exact .inl h
  | cons first xs ih =>
    rcases ih h with h | h
    · rcases OrderedSet.mem_of_mem_insertList h with rfl | h
      · exact .inr List.mem_cons_self
      · exact .inl h
    · exact .inr (List.mem_cons_of_mem first h)

namespace Logged

variable {α β : Type}

theorem bind_of_ok {first : Logged α} {next : α → Logged β} {a : α} {b : β}
    (hfirst : first.answer = .ok a) (hnext : (next a).answer = .ok b) :
    (first >>= next).answer = .ok b := by
  change (first.bind next).answer = .ok b
  unfold bind
  rw [hfirst]
  exact hnext

theorem within_of_ok {remark : String} {l : Logged α} {a : α} (h : l.answer = .ok a) :
    (l.within remark).answer = .ok a := by
  rw [within, h]
  rfl

end Logged

namespace Analyser

variable {name : String} {file : Path}

theorem mem_of_containerOf_replay {calls : List Call}
    (h : (replay calls).containerOf name = some file) :
    file ∈ calls.filterMap (Call.home? name) := by
  rw [replay, containerOf_foldl] at h
  exact (mem_of_foldl_settle h).resolve_left (Option.some_ne_none file).symm

end Analyser

namespace Analysis

open Analyser (Call)
open FileSystem (ReadsAlike SourceAlike)

variable {fs fs' : FileSystem} {s : Settings} {a a' : Analysis} {file : Path}

/-! ## Where the files of an analysis come from -/

/-- A file of which a class was taken in was met by a walk. -/
theorem exists_walk_of_mem_taken {x : Extraction} (h : (file, x) ∈ taken fs s) :
    ∃ walk ∈ walksOf s, file ∈ fs.containersOf walk.2 := by
  obtain ⟨walk, hwalk, h⟩ := List.mem_flatMap.1 h
  obtain ⟨other, hother, h⟩ := List.mem_flatMap.1 h
  obtain ⟨rfl, -⟩ := Walk.mem_extractions.1 h
  exact ⟨walk, hwalk, hother⟩

theorem mem_taken_of_mem_containers (ok : (analyse fs s).answer = .ok a)
    (h : file ∈ a.containers.toList) : ∃ x, (file, x) ∈ taken fs s := by
  rw [(analyse_taken ok).2] at h
  rcases OrderedSet.mem_of_mem_foldl_insert h with h | h
  · cases h
  obtain ⟨⟨p, x⟩, hx, rfl⟩ := List.mem_map.1 h
  refine ⟨x, ?_⟩
  rw [taken, walksOf, List.append_assoc, takenBy_append]
  exact List.mem_append_left _ hx

theorem mem_taken_of_mem_fileEdges (ok : (analyse fs s).answer = .ok a) {source target : Path}
    (h : .edge source target ∈ a.result.fileEdges.toList) :
    (∃ x, (source, x) ∈ taken fs s) ∧ ∃ x, (target, x) ∈ taken fs s := by
  rw [(analyse_taken ok).1, Analyser.result_of_fresh (Analyser.fresh_replay _), Analyser.derived,
    Analyser.foldl_deriveEdge] at h
  rcases OrderedSet.mem_of_mem_foldl_insert h with h | h
  · cases h
  obtain ⟨⟨user, name⟩, -, hedge⟩ := List.mem_filterMap.1 h
  obtain ⟨p, q, hp, hq, -, heq⟩ := Analyser.fileEdge?_eq_some.1 hedge
  cases heq
  have found : ∀ {name file}, (Analyser.replay (calls s.allProvided (taken fs s))).containerOf
      name = some file → ∃ x, (file, x) ∈ taken fs s := by
    intro name file hfile
    obtain ⟨x, hx, -⟩ := (mem_filterMap_home? _ (extracted_taken fs s)).1
      (Analyser.mem_of_containerOf_replay hfile)
    exact ⟨x, hx⟩
  exact ⟨found hp, found hq⟩

/-! ## The walks -/

/-- The walks of a run meet the same containers in two trees, and can read all of the second. -/
def WalksAlike (fs fs' : FileSystem) (s : Settings) : Prop :=
  ∀ walk ∈ walksOf s, SourceAlike fs fs' walk.2 ∧ (Walk.Plan.filesOf fs' walk.2).2 = []

/-- The walks of a run are over the directory of the binaries or over the given files. -/
theorem source_of_mem_walksOf {walk : Depth × Walk.Source} (h : walk ∈ walksOf s) :
    (∃ filter, walk.2 = .directory s.binaries filter) ∨
      walk.2 = .files s.binaries s.dependencyFiles := by
  rcases List.mem_append.1 h with h | h
  · refine .inl ?_
    rcases List.mem_append.1 h with h | h
    · unfold libsWalk at h
      split at h
      · rename_i filter _
        exact ⟨filter, by rw [List.mem_singleton.1 h]⟩
      · cases h
    · unfold depsWalk at h
      split at h
      · split at h
        · rename_i filter _
          exact ⟨filter, by rw [List.mem_singleton.1 h]⟩
        · cases h
      · cases h
  · exact .inr (by rw [List.mem_singleton.1 h])

theorem exists_walk_of_alike {analyser : Analyser} {depth : Depth} {source : Walk.Source}
    {walked : Walked} (ok : (walk fs s analyser depth source).answer = .ok walked)
    (halike : SourceAlike fs fs' source) (hscan : (Walk.Plan.filesOf fs' source).2 = []) :
    ∃ again, (walk fs' s analyser depth source).answer = .ok again ∧
      again.analyser = walked.analyser ∧ again.containers = walked.containers := by
  have hagain : ∃ again, (walk fs' s analyser depth source).answer = .ok again := by
    unfold walk at ok ⊢
    dsimp only at ok ⊢
    split at ok
    · cases ok
    rename_i summary hrun
    obtain ⟨u, after, hafter⟩ := Walk.exists_run_of_alike rfl (Prod.ext rfl hrun) halike hscan
    rw [hafter]
    exact ⟨_, rfl⟩
  obtain ⟨again, hagain⟩ := hagain
  obtain ⟨hanalyser, hcontainers, -⟩ := walk_fed ok
  obtain ⟨hanalyser', hcontainers', -⟩ := walk_fed hagain
  rw [FileSystem.takenFrom_congr halike] at hanalyser' hcontainers'
  exact ⟨again, hagain, hanalyser'.trans hanalyser.symm, hcontainers'.trans hcontainers.symm⟩

theorem exists_walkLibs_of_alike {analyser : Analyser} {walked : Walked}
    (ok : (walkLibs fs s analyser).answer = .ok walked) (halike : WalksAlike fs fs' s) :
    ∃ again, (walkLibs fs' s analyser).answer = .ok again ∧
      again.analyser = walked.analyser ∧ again.containers = walked.containers := by
  obtain ⟨filter, hfilter, hwalk⟩ := walkLibs_cases ok
  have hmem : (Depth.dependencies, Walk.Source.directory s.binaries filter) ∈ walksOf s := by
    rw [walksOf, libsWalk, hfilter]
    exact List.mem_append_left _ (List.mem_append_left _ (List.mem_singleton_self _))
  obtain ⟨hsource, hscan⟩ := halike _ hmem
  obtain ⟨again, hagain, hsame⟩ := exists_walk_of_alike hwalk hsource hscan
  refine ⟨again, ?_, hsame⟩
  unfold walkLibs
  rw [hfilter]
  exact Logged.within_of_ok hagain

theorem exists_walkDeps_of_alike {analyser after : Analyser} {summaries : List Walk.Summary}
    (ok : (walkDeps fs s analyser).answer = .ok (after, summaries))
    (halike : WalksAlike fs fs' s) :
    ∃ others, (walkDeps fs' s analyser).answer = .ok (after, others) := by
  unfold walkDeps
  rcases walkDeps_cases ok with ⟨hnone, rfl⟩ | ⟨filter, walked, hsome, hfilter, hwalk, rfl, -⟩
  · rw [hnone]
    exact ⟨[], rfl⟩
  · have hmem : (Depth.inventory, Walk.Source.directory s.binaries filter) ∈ walksOf s := by
      rw [walksOf, depsWalk, hsome, if_pos rfl, hfilter]
      exact List.mem_append_left _ (List.mem_append_right _ (List.mem_singleton_self _))
    obtain ⟨hsource, hscan⟩ := halike _ hmem
    obtain ⟨again, hagain, hsame, -⟩ := exists_walk_of_alike hwalk hsource hscan
    rw [hsome, if_pos rfl, hfilter, ← hsame]
    exact ⟨[again.summary], Logged.bind_of_ok (Logged.within_of_ok hagain) rfl⟩

theorem exists_walkDependencyFiles_of_alike {analyser after : Analyser}
    {summaries : List Walk.Summary}
    (ok : (walkDependencyFiles fs s analyser).answer = .ok (after, summaries))
    (halike : WalksAlike fs fs' s) :
    ∃ others, (walkDependencyFiles fs' s analyser).answer = .ok (after, others) := by
  unfold walkDependencyFiles at ok ⊢
  split at ok
  · rename_i hempty
    rw [if_pos hempty]
    exact ⟨summaries, ok⟩
  · rename_i hsome
    rw [if_neg hsome]
    obtain ⟨walked, hwalked, hafter⟩ := Logged.bind_ok ok
    obtain ⟨rfl, -⟩ := Prod.mk.inj (Except.ok.inj hafter)
    obtain ⟨hsource, hscan⟩ := halike _ (List.mem_append_right _ (List.mem_singleton_self _))
    obtain ⟨again, hagain, hsame, -⟩ :=
      exists_walk_of_alike (Logged.within_ok hwalked) hsource hscan
    rw [← hsame]
    exact ⟨[again.summary], Logged.bind_of_ok (Logged.within_of_ok hagain) rfl⟩

/-- **An analysis that came to its end** comes to the same where its walks meet the same. -/
theorem exists_analyse_of_alike (ok : (analyse fs s).answer = .ok a)
    (halike : WalksAlike fs fs' s) :
    ∃ again, (analyse fs' s).answer = .ok again ∧ again.result = a.result ∧
      again.containers = a.containers := by
  obtain ⟨start, hstart, ok⟩ := Logged.bind_ok ok
  obtain ⟨libs, hlibs, ok⟩ := Logged.bind_ok ok
  obtain ⟨⟨afterDeps, below⟩, hdeps, ok⟩ := Logged.bind_ok ok
  obtain ⟨⟨afterFiles, files⟩, hfiles, ok⟩ := Logged.bind_ok ok
  obtain rfl := Except.ok.inj ok
  obtain ⟨libs', hlibs', hanalyser, hcontainers⟩ := exists_walkLibs_of_alike hlibs halike
  rw [← hanalyser] at hdeps
  obtain ⟨below', hdeps'⟩ := exists_walkDeps_of_alike hdeps halike
  obtain ⟨files', hfiles'⟩ := exists_walkDependencyFiles_of_alike hfiles halike
  refine ⟨⟨afterFiles.result, libs'.containers, libs'.summary, below' ++ files'⟩, ?_, rfl,
    hcontainers⟩
  exact Logged.bind_of_ok hstart (Logged.bind_of_ok hlibs' (Logged.bind_of_ok hdeps'
    (Logged.bind_of_ok hfiles' rfl)))

/-! ## The description -/

/-- The files that are described read alike where the walks meet the same. -/
theorem readsAlike_of_mem_taken (halike : WalksAlike fs fs' s)
    (h : ∃ x, (file, x) ∈ taken fs s) : ReadsAlike fs fs' file := by
  obtain ⟨x, hx⟩ := h
  obtain ⟨walk, hwalk, hfile⟩ := exists_walk_of_mem_taken hx
  exact (halike walk hwalk).1.reads file hfile

/-- **The description of an analysis** is the same where its walks meet the same. -/
theorem describe_of_alike {again : Analysis} {set : Artifact.ArtifactSet}
    (ok : (analyse fs s).answer = .ok a) (halike : WalksAlike fs fs' s)
    (hresult : again.result = a.result) (hcontainers : again.containers = a.containers)
    (h : (describe fs s a).answer = .ok set) : (describe fs' s again).answer = .ok set := by
  unfold describe at h ⊢
  rw [hresult, hcontainers]
  split at h
  · cases h
  rename_i registry hregistry
  generalize hset : registry.artifactSet fs a.result.fileEdges a.containers.toList = described at h
  obtain ⟨after, answer, log⟩ := described
  cases answer with
  | error cause => cases h
  | ok made =>
    obtain rfl := Except.ok.inj h
    have hagain := Artifact.Registry.artifactSet_of_alike
      (fun file hfile => readsAlike_of_mem_taken halike (mem_taken_of_mem_containers ok hfile))
      (fun source target hedge => (mem_taken_of_mem_fileEdges ok hedge).imp
        (readsAlike_of_mem_taken halike) (readsAlike_of_mem_taken halike)) hset
    rw [hagain]
    rfl

end Analysis

end JarGraph
