import JarGraph.Proofs.Artifact.Failures
import JarGraph.Proofs.Run.Analysis
import JarGraph.Proofs.Walk.Transcript
/-!
# Failed containers that are identified all the same

A lenient run goes on after a container that fails, with the classes that
it had taken in of it before. From then on this container is one of the
run's like any other: where a class of it was taken in it is described,
for which its archive is read again, and so its failure ends the run after
all (`exists_unidentified_failed`). A container that fails before a class
of it was taken in is left out, and does not (`holds_of_unidentified`).
-/

namespace JarGraph

/-- The file that cannot be identified, where that is what a failure comes from. -/
def Failure.unidentified? (failure : Failure) : Option Path :=
  match failure.cause with
  | .artifact cause => cause.unidentified?
  | _ => none

namespace Analysis

open Analyser (Call)

variable {fs : FileSystem} {s : Settings} {a : Analysis} {file : Path}

/-! ## The classes that a run takes in -/

/-- The walk of a run over the containers that are analysed. -/
def libsWalk (s : Settings) : List (Depth × Walk.Source) :=
  match PathFilter.ofPatterns s.libsIncludes s.libsExcludes with
  | .ok filter => [(.dependencies, .directory s.binaries filter)]
  | .error _ => []

/-- The walk of a run over the containers below the binaries that are only listed, if any are. -/
def depsWalk (s : Settings) : List (Depth × Walk.Source) :=
  if s.hasDepsWalk then
    match PathFilter.ofPatterns s.depsIncludes s.depsExcludes with
    | .ok filter => [(.inventory, .directory s.binaries filter)]
    | .error _ => []
  else []

/-- The walks of a run, each with how it reads its classes and where its containers come from. -/
def walksOf (s : Settings) : List (Depth × Walk.Source) :=
  libsWalk s ++ depsWalk s ++ [(.inventory, .files s.binaries s.dependencyFiles)]

/-- What some walks take in. -/
def takenBy (fs : FileSystem) (walks : List (Depth × Walk.Source)) : List (Path × Extraction) :=
  walks.flatMap fun walk => fs.takenFrom walk.1 walk.2

/-- The classes that a run takes in, also those of containers that failed later. -/
def taken (fs : FileSystem) (s : Settings) : List (Path × Extraction) :=
  takenBy fs (walksOf s)

theorem takenBy_append (fs : FileSystem) (walks more : List (Depth × Walk.Source)) :
    takenBy fs (walks ++ more) = takenBy fs walks ++ takenBy fs more :=
  List.flatMap_append

theorem takenBy_singleton (fs : FileSystem) (depth : Depth) (source : Walk.Source) :
    takenBy fs [(depth, source)] = fs.takenFrom depth source :=
  List.flatMap_singleton ..

theorem extracted_taken (fs : FileSystem) (s : Settings) : Extracted (taken fs s) := by
  intro p x h
  obtain ⟨⟨depth, source⟩, -, h⟩ := List.mem_flatMap.1 h
  obtain ⟨file, -, h⟩ := List.mem_flatMap.1 h
  obtain ⟨rfl, data, -, hx⟩ := Walk.mem_extractions.1 h
  exact ⟨data, depth, hx⟩

theorem taken_walkLibs {analyser : Analyser} {walked : Walked}
    (ok : (walkLibs fs s analyser).answer = .ok walked) :
    walked.analyser = feed analyser (takenBy fs (libsWalk s)) ∧
      walked.containers =
        ((takenBy fs (libsWalk s)).map Prod.fst).foldl OrderedSet.insert .empty := by
  obtain ⟨filter, hfilter, hwalk⟩ := walkLibs_cases ok
  obtain ⟨hanalyser, hcontainers, -⟩ := walk_fed hwalk
  simp only [libsWalk, hfilter, takenBy_singleton]
  exact ⟨hanalyser, hcontainers⟩

theorem taken_walkDeps {analyser after : Analyser} {summaries : List Walk.Summary}
    (ok : (walkDeps fs s analyser).answer = .ok (after, summaries)) :
    after = feed analyser (takenBy fs (depsWalk s)) := by
  rcases walkDeps_cases ok with ⟨hwalk, rfl⟩ | ⟨filter, walked, hwalk, hfilter, hok, rfl, -⟩
  · simp only [depsWalk, hwalk]
    rfl
  · simp only [depsWalk, hwalk, hfilter, if_true, takenBy_singleton]
    exact (walk_fed hok).1

theorem taken_walkDependencyFiles {analyser after : Analyser} {summaries : List Walk.Summary}
    (ok : (walkDependencyFiles fs s analyser).answer = .ok (after, summaries)) :
    after = feed analyser (fs.takenFrom .inventory (.files s.binaries s.dependencyFiles)) := by
  rcases walkDependencyFiles_cases ok with ⟨hempty, rfl⟩ | ⟨walked, hok, rfl, -⟩
  · rw [hempty]
    rfl
  · exact (walk_fed hok).1

/-- **A run that comes to its end**, with failed containers or without, has gone through the history
of the classes that it took in, and lists the containers of those that it analyses. -/
theorem analyse_taken (ok : (analyse fs s).answer = .ok a) :
    a.result = (Analyser.replay (calls s.allProvided (taken fs s))).result ∧
      a.containers = ((takenBy fs (libsWalk s)).map Prod.fst).foldl OrderedSet.insert .empty := by
  obtain ⟨libs, afterDeps, afterFiles, below, files, hlibs, hdeps, hfiles, rfl⟩ :=
    analyse_cases ok
  obtain ⟨hanalyser, hcontainers⟩ := taken_walkLibs hlibs
  refine ⟨?_, hcontainers⟩
  rw [taken, walksOf, takenBy_append, takenBy_append, takenBy_singleton, ← feed_replay,
    feed_append, feed_append, ← hanalyser, ← taken_walkDeps hdeps,
    ← taken_walkDependencyFiles hfiles]

/-! ## The files that are described -/

/-- A container is listed where a class of it was taken in. -/
theorem holds_of_mem_containers (ok : (analyse fs s).answer = .ok a)
    (h : file ∈ a.containers.toList) : ∃ name, Holds (taken fs s) file name := by
  have hcontains := OrderedSet.contains_iff.2 ⟨file, h, Std.ReflOrd.compare_self⟩
  rw [(analyse_taken ok).2, contains_containers] at hcontains
  obtain ⟨name, hname⟩ := hcontains
  refine ⟨name, hname.mono ?_⟩
  rw [taken, walksOf, List.append_assoc, takenBy_append]
  exact List.subset_append_left ..

/-- A dependency between containers comes from classes that were taken in of both. -/
theorem holds_of_mem_fileEdges (ok : (analyse fs s).answer = .ok a) {source target : Path}
    (h : .edge source target ∈ a.result.fileEdges.toList) :
    (∃ name, Holds (taken fs s) source name) ∧ ∃ name, Holds (taken fs s) target name := by
  have hcontains := OrderedSet.contains_iff.2 ⟨_, h, Std.ReflOrd.compare_self⟩
  have shown := Analyser.shown_result (Analyser.records_replay _) (Analyser.fresh_replay
    (calls s.allProvided (taken fs s)))
  rw [← (analyse_taken ok).1] at shown
  obtain ⟨source', target', hedge, -, user, name, -, hsource, htarget⟩ :=
    (shown.fileEdges _).1 hcontains
  cases hedge
  exact ⟨⟨user, holds_of_lastHome? (extracted_taken fs s) hsource⟩,
    ⟨name, holds_of_lastHome? (extracted_taken fs s) htarget⟩⟩

/-- The hints of the settings are added before any file is described. -/
theorem failsAs_registryOf (s : Settings) :
    Artifact.FailsAs (fun cause => cause.file? = none) (registryOf s) :=
  .foldlM Artifact.failsAs_addHint _ _

theorem describe_error {failure : Failure} (h : (describe fs s a).answer = .error failure)
    (hfile : failure.unidentified? = some file) :
    file ∈ a.containers.toList ∨ ∃ source target, .edge source target ∈ a.result.fileEdges.toList ∧
      (file = source ∨ file = target) := by
  unfold describe at h
  split at h
  · rename_i cause hregistry
    obtain rfl := Except.error.inj h
    have hnone : cause.file? = none := failsAs_registryOf s cause hregistry
    rw [Artifact.file?_of_unidentified? hfile] at hnone
    cases hnone
  · rename_i registry hregistry
    generalize hset : registry.artifactSet fs a.result.fileEdges a.containers.toList = described at h
    obtain ⟨after, answer, log⟩ := described
    cases answer with
    | ok set => cases h
    | error cause =>
      obtain rfl := Except.error.inj h
      obtain ⟨other, hother, hplace⟩ := Artifact.Registry.artifactSet_error hset
      rw [Artifact.file?_of_unidentified? hfile] at hother
      obtain rfl := Option.some.inj hother
      exact hplace

/-- **A file that a run fails to identify** is one of which a class was taken in: for a container
that failed in a walk, a class before the break. A container that broke before is left out of what
is described. -/
theorem holds_of_unidentified {failure : Failure} (ok : (analyse fs s).answer = .ok a)
    (h : (describe fs s a).answer = .error failure) (hfile : failure.unidentified? = some file) :
    ∃ name, Holds (taken fs s) file name := by
  rcases describe_error h hfile with hmem | ⟨source, target, hedge, rfl | rfl⟩
  · exact holds_of_mem_containers ok hmem
  · exact (holds_of_mem_fileEdges ok hedge).1
  · exact (holds_of_mem_fileEdges ok hedge).2

/-! ## A run that a failed container ends -/

/-- Settings of a lenient run over the binaries. -/
def lenientRun : Settings :=
  { Settings.default with
    binaries := ⟨"bin"⟩
    policy := .lenient
    machineProvided := some [] }

/-- The file that an answer failed for, if it could not be identified. -/
def unidentifiedIn {α : Type} : Except Failure α → Option Path
  | .error failure => failure.unidentified?
  | .ok _ => none

/-- The only archive breaks after its first class. It is reported as failed, and the description
fails for it all the same. -/
theorem lenientRun_oneHalfBroken :
    ∃ a failure, (analyse Walk.oneHalfBroken lenientRun).answer = .ok a ∧
      a.libs.failed = [⟨"bin/a.jar"⟩] ∧
      (describe Walk.oneHalfBroken lenientRun a).answer = .error failure ∧
      failure.unidentified? = some ⟨"bin/a.jar"⟩ := by
  have check : (analyse Walk.oneHalfBroken lenientRun).answer.toOption.map (fun a =>
      (a.libs.failed,
        unidentifiedIn (describe Walk.oneHalfBroken lenientRun a).answer)) = some ([⟨"bin/a.jar"⟩], some ⟨"bin/a.jar"⟩) := by
    decide +kernel
  cases ok : (analyse Walk.oneHalfBroken lenientRun).answer with
  | error cause => simp [ok, Except.toOption] at check
  | ok a =>
    simp only [ok, Except.toOption, Option.map_some, Option.some.injEq, Prod.mk.injEq] at check
    obtain ⟨hfailed, hunidentified⟩ := check
    cases h : (describe Walk.oneHalfBroken lenientRun a).answer with
    | ok set => simp [unidentifiedIn, h] at hunidentified
    | error failure =>
      rw [h] at hunidentified
      exact ⟨a, failure, rfl, hfailed, h, hunidentified⟩

theorem holds_of_unidentified_oneHalfBroken :
    ∃ a failure, (analyse Walk.oneHalfBroken lenientRun).answer = .ok a ∧
      (describe Walk.oneHalfBroken lenientRun a).answer = .error failure ∧
      failure.unidentified? = some ⟨"bin/a.jar"⟩ ∧
      ∃ name, Holds (taken Walk.oneHalfBroken lenientRun) ⟨"bin/a.jar"⟩ name := by
  obtain ⟨a, failure, ok, -, h, hfile⟩ := lenientRun_oneHalfBroken
  exact ⟨a, failure, ok, h, hfile, holds_of_unidentified ok h hfile⟩

/-- **That a container was reported as failed does not keep a lenient run from failing for it.** -/
theorem exists_unidentified_failed :
    ¬ ∀ (fs : FileSystem) (s : Settings) (a : Analysis) (failure : Failure) (file : Path),
      s.policy = .lenient → (analyse fs s).answer = .ok a →
      (describe fs s a).answer = .error failure → failure.unidentified? = some file →
        file ∉ a.libs.failed ∧ ∀ summary ∈ a.deps, file ∉ summary.failed := by
  intro never
  obtain ⟨a, failure, ok, hfailed, h, hfile⟩ := lenientRun_oneHalfBroken
  obtain ⟨hlibs, -⟩ := never _ _ a failure _ rfl ok h hfile
  rw [hfailed] at hlibs
  exact hlibs List.mem_cons_self

end Analysis

end JarGraph
