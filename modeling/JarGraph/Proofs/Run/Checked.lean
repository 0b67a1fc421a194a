import JarGraph.Proofs.Artifact.Failures
import JarGraph.Proofs.Artifact.Hints
import JarGraph.Proofs.Run.Analysis
import JarGraph.Proofs.Settings.Validate
/-!
# Runs of checked settings

The checks of settings go through the patterns and the hints in a way of
their own, and a run goes through them again: the patterns of provided
classes one by one into an analyser, those of the containers into two
filters, the hints into a registry. Both ways accept the same lists
(`provided_foldlM_addProvided`, `foldlM_addHint`), so a run of settings
that passed their checks fails for what it finds in the files and never
for a pattern or for a name that comes up twice (`failures_of_validate`).
-/

namespace JarGraph

namespace Logged

variable {α β : Type} {p : Cause → Prop}

/-- Where there is a failure, its cause is of this kind. -/
def FailsFor (p : Cause → Prop) (l : Logged α) : Prop :=
  ∀ failure, l.answer = .error failure → p failure.cause

namespace FailsFor

theorem pure (a : α) : FailsFor p (.pure a) := fun _ h => by cases h

theorem bind {first : Logged α} {next : α → Logged β} (h : FailsFor p first)
    (hnext : ∀ a, FailsFor p (next a)) : FailsFor p (first >>= next) := by
  intro failure hfailure
  change (first.bind next).answer = .error failure at hfailure
  unfold Logged.bind at hfailure
  split at hfailure
  · rename_i cause hfirst
    obtain rfl := Except.error.inj hfailure
    exact h _ hfirst
  · exact hnext _ _ hfailure

theorem within {l : Logged α} (h : FailsFor p l) (remark : String) :
    FailsFor p (l.within remark) := by
  obtain ⟨answer, log⟩ := l
  cases answer with
  | error cause =>
    intro failure hfailure
    obtain rfl := Except.error.inj hfailure
    exact h cause rfl
  | ok a => exact fun _ hfailure => by cases hfailure

end FailsFor

end Logged

/-! ## The contents of checked settings -/

namespace Settings

variable {fs : FileSystem} {given s : Settings} {α : Type} {a : α}

theorem checkPattern_eq_ok {answer : Except PatternError α} :
    checkPattern answer = .ok a ↔ answer = .ok a := by
  cases answer with
  | error cause => simp [checkPattern, Except.mapError]
  | ok b => simp [checkPattern, Except.mapError]

/-- The contents of settings are in order: every pattern can be compiled, and no two hints have the
same name. -/
structure InOrder (s : Settings) : Prop where
  provided : ∃ provided, s.allProvided.foldlM ProvidedClasses.add .empty = .ok provided
  libs : ∃ filter, PathFilter.ofPatterns s.libsIncludes s.libsExcludes = .ok filter
  deps : ∃ filter, PathFilter.ofPatterns s.depsIncludes s.depsExcludes = .ok filter
  names : repeatedName [] s.artifacts = none

theorem inOrder_of_checkContents (h : checkContents s = .ok ()) : s.InOrder := by
  unfold checkContents at h
  obtain ⟨provided, hprovided, h⟩ := Answer.bind_eq_ok.1 h
  obtain ⟨libs, hlibs, h⟩ := Answer.bind_eq_ok.1 h
  obtain ⟨deps, hdeps, h⟩ := Answer.bind_eq_ok.1 h
  refine ⟨⟨provided, checkPattern_eq_ok.1 hprovided⟩, ⟨libs, checkPattern_eq_ok.1 hlibs⟩,
    ⟨deps, checkPattern_eq_ok.1 hdeps⟩, ?_⟩
  split at h
  · assumption
  · cases h

theorem inOrder_of_validate (h : validate fs given = .ok s) : s.InOrder := by
  obtain ⟨-, -, -, -, -, -, hcontents⟩ := validate_eq_ok.1 h
  exact inOrder_of_checkContents hcontents

end Settings

/-! ## The patterns of a run -/

/-- An analyser takes the patterns that a list of them takes, and holds the same list then. -/
theorem Analyser.provided_foldlM_addProvided (patterns : List String) (a : Analyser) :
    (patterns.foldlM Analyser.addProvided a).map Analyser.provided =
      patterns.foldlM ProvidedClasses.add a.provided := by
  induction patterns generalizing a with
  | nil => rfl
  | cons pattern patterns ih =>
    rw [List.foldlM_cons, List.foldlM_cons, Analyser.addProvided]
    cases a.provided.add pattern with
    | error cause => rfl
    | ok provided => exact ih _

namespace Analysis

variable {fs : FileSystem} {s : Settings}

theorem analyser_eq_ok (h : s.InOrder) : ∃ a, analyser s = .ok a := by
  obtain ⟨provided, hprovided⟩ := h.provided
  have hmap : (analyser s).map Analyser.provided = .ok provided :=
    (Analyser.provided_foldlM_addProvided s.allProvided .empty).trans hprovided
  obtain ⟨a, ha, -⟩ := Answer.map_eq_ok.1 hmap
  exact ⟨a, ha⟩

/-- A walk met something that it could not go through. -/
def IsWalk (cause : Cause) : Prop :=
  ∃ e, cause = .walk e

theorem failsFor_walk (analyser : Analyser) (depth : Depth) (source : Walk.Source) :
    (walk fs s analyser depth source).FailsFor IsWalk := by
  intro failure hfailure
  unfold walk at hfailure
  dsimp only at hfailure
  split at hfailure
  · obtain rfl := Except.error.inj hfailure
    exact ⟨_, rfl⟩
  · cases hfailure

theorem failsFor_walkLibs (h : s.InOrder) (analyser : Analyser) :
    (walkLibs fs s analyser).FailsFor IsWalk := by
  obtain ⟨filter, hfilter⟩ := h.libs
  unfold walkLibs
  rw [hfilter]
  exact (failsFor_walk _ _ _).within _

theorem failsFor_walkDeps (h : s.InOrder) (analyser : Analyser) :
    (walkDeps fs s analyser).FailsFor IsWalk := by
  obtain ⟨filter, hfilter⟩ := h.deps
  unfold walkDeps
  rw [hfilter]
  split
  · exact ((failsFor_walk _ _ _).within _).bind fun _ => .pure _
  · exact .pure _

theorem failsFor_walkDependencyFiles (analyser : Analyser) :
    (walkDependencyFiles fs s analyser).FailsFor IsWalk := by
  unfold walkDependencyFiles
  split
  · exact .pure _
  · exact ((failsFor_walk _ _ _).within _).bind fun _ => .pure _

end Analysis

/-- **An analysis of settings in order** fails in a walk or not at all. -/
theorem failsFor_analyse {s : Settings} (h : s.InOrder) (fs : FileSystem) :
    (analyse fs s).FailsFor Analysis.IsWalk := by
  obtain ⟨start, hstart⟩ := Analysis.analyser_eq_ok h
  unfold analyse
  rw [hstart]
  refine .bind (.pure start) fun start => ?_
  refine (Analysis.failsFor_walkLibs h _).bind fun libs => ?_
  refine (Analysis.failsFor_walkDeps h _).bind fun below => ?_
  exact (Analysis.failsFor_walkDependencyFiles _).bind fun listed => .pure _

/-! ## The hints of a run -/

open Artifact (Hint Registry)

/-- A registry refuses hints for the name that comes up twice among them, or else takes them all:
the names before are those that the registry has hints for. -/
theorem foldlM_addHint (hints : List Hint) (before : List (Option String)) {r : Registry}
    (hbefore : ∀ name, (r.hint? name).isSome = before.contains name) :
    hints.foldlM Registry.addHint r =
      (Settings.repeatedName before hints).elim (.ok { r with hints := r.hints ++ hints })
        fun name => .error (.duplicateHint name) := by
  induction hints generalizing before r with
  | nil => simp [Settings.repeatedName, pure, Except.pure]
  | cons h hints ih =>
    rw [List.foldlM_cons, Settings.repeatedName, Registry.addHint, ← hbefore]
    cases hhint : r.hint? h.name with
    | some known => rfl
    | none =>
      -- The hint that was taken is the only one more, and its name is the only one more before.
      have hnext : ∀ name, (({ r with hints := r.hints ++ [h] } : Registry).hint? name).isSome =
          (h.name :: before).contains name := by
        intro name
        rw [Registry.hint?_append, Option.isSome_or, List.contains_cons, ← hbefore, Bool.or_comm,
          BEq.comm (a := name)]
        cases h.name == name <;> rfl
      refine (ih _ hnext).trans ?_
      simp

theorem registryOf_eq_ok {s : Settings} (h : s.InOrder) :
    registryOf s = .ok { Registry.empty s.repository with hints := s.artifacts } := by
  rw [registryOf, foldlM_addHint s.artifacts [] fun _ => rfl, h.names]
  rfl

/-- A failure is about a file that cannot be described. -/
def IsAboutFile (cause : Cause) : Prop :=
  ∃ e file, cause = .artifact e ∧ e.file? = some file

/-- **A description for settings in order** fails for a file or not at all. -/
theorem failsFor_describe {s : Settings} (h : s.InOrder) (fs : FileSystem) (a : Analysis) :
    (describe fs s a).FailsFor IsAboutFile := by
  intro failure hfailure
  unfold describe at hfailure
  rw [registryOf_eq_ok h] at hfailure
  dsimp only at hfailure
  generalize hset : Registry.artifactSet _ fs a.result.fileEdges a.containers.toList = made
    at hfailure
  obtain ⟨r, answer, log⟩ := made
  cases answer with
  | ok set => cases hfailure
  | error cause =>
    obtain rfl := Except.error.inj hfailure
    obtain ⟨file, hfile, -⟩ := Registry.artifactSet_error hset
    exact ⟨cause, file, rfl, hfile⟩

/-- **Settings that passed their checks** make no run fail for a pattern or for a name that comes up
twice among the hints, whatever has become of the files since. -/
theorem failures_of_validate {fs : FileSystem} {given s : Settings}
    (h : Settings.validate fs given = .ok s) (now : FileSystem) :
    (∀ failure, (analyse now s).answer = .error failure →
        ∀ cause, failure.cause ≠ .pattern cause) ∧
      ∀ a failure, (describe now s a).answer = .error failure →
        ∀ name, failure.cause ≠ .artifact (.duplicateHint name) := by
  have inOrder := Settings.inOrder_of_validate h
  constructor
  · intro failure hfailure cause hcause
    obtain ⟨e, he⟩ := failsFor_analyse inOrder now failure hfailure
    cases he.symm.trans hcause
  · intro a failure hfailure name hcause
    obtain ⟨e, file, he, hfile⟩ := failsFor_describe inOrder now a failure hfailure
    obtain rfl := Cause.artifact.inj (he.symm.trans hcause)
    cases hfile

/-- Settings with patterns of each kind, a hint for one file and a hint for all others. -/
def hintedRun : Settings :=
  { Analysis.besideBinaries with
    libsExcludes := ["**/test/*"]
    depsIncludes := ["*.jar"]
    provided := ["org.osgi.**"]
    artifacts :=
      [⟨some "a-1.jar", none, none, some "1", none⟩, ⟨none, some "g", none, none, none⟩] }

/-- The files of `Analysis.twoClasses` once the binaries are gone. -/
def withoutBinaries : FileSystem :=
  { Analysis.twoClasses with root := .folder (.folder "work" .nil 0 .nil) 0 }

theorem failures_of_validate_hintedRun :
    ∃ s failure, Settings.validate Analysis.twoClasses hintedRun = .ok s ∧
      (analyse withoutBinaries s).answer = .error failure ∧
      ∀ cause, failure.cause ≠ .pattern cause := by
  have check : (Settings.validate Analysis.twoClasses hintedRun).toOption.any (fun s =>
      !(analyse withoutBinaries s).answer.toOption.isSome) = true := by
    decide +kernel
  generalize hvalid : Settings.validate Analysis.twoClasses hintedRun = checked at check
  cases checked with
  | error cause => cases check
  | ok s =>
    cases hfails : (analyse withoutBinaries s).answer with
    | ok a => simp [hfails, Except.toOption] at check
    | error failure =>
      exact ⟨s, failure, hvalid ▸ rfl, hfails,
        (failures_of_validate hvalid withoutBinaries).1 failure hfails⟩

end JarGraph
