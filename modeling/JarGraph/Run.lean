import JarGraph.Artifact.Report
import JarGraph.AtomicWrite
import JarGraph.Freshness
import JarGraph.Settings.Resolve
import JarGraph.Walk.Analysis
/-!
# A run

A run walks the binaries, then the containers that are only listed, describes the containers of the
analysed classes and what they depend on, and writes the description. It is skipped where the
description is fresh. A run that fails leaves no description behind.
-/

namespace JarGraph

/-- What the walks of a run come to. -/
structure Analysis where
  result : AnalysisResult
  /-- The containers of the analysed classes. -/
  containers : OrderedSet Path
  libs : Walk.Summary
  /-- The walks over containers that are only listed. -/
  deps : List Walk.Summary
  deriving Inhabited

/-- What a run answers with, and what it logs. -/
structure Logged (α : Type) where
  answer : Except Failure α
  log : List Walk.LogEntry

namespace Logged

variable {α β : Type}

/-- An answer without a log. -/
def pure (a : α) : Logged α := ⟨.ok a, []⟩

/-- A failure or an answer without a log. -/
def ofExcept (answer : Except Failure α) : Logged α := ⟨answer, []⟩

/-- Goes on with an answer. -/
def bind (first : Logged α) (next : α → Logged β) : Logged β :=
  match first.answer with
  | .error cause => ⟨.error cause, first.log⟩
  | .ok a =>
    let second := next a
    ⟨second.answer, first.log ++ second.log⟩

instance : Monad Logged where
  pure := pure
  bind := bind

/-- An answer with a remark around its failure. -/
def within (remark : String) (l : Logged α) : Logged α :=
  ⟨l.answer.mapError (Failure.within remark), l.log⟩

end Logged

namespace Analysis

/-- An analyser with the patterns of the settings. -/
def analyser (s : Settings) : Except PatternError Analyser :=
  s.allProvided.foldlM Analyser.addProvided .empty

/-- What one walk brings: the analyser after it, the containers of its classes, and its summary. -/
structure Walked where
  analyser : Analyser
  containers : OrderedSet Path
  summary : Walk.Summary

/-- Walks a source into an analyser. -/
def walk (fs : FileSystem) (s : Settings) (analyser : Analyser) (depth : Depth)
    (source : Walk.Source) : Logged Walked :=
  let plan : Walk.Plan Walk.AnalysisState := ⟨s.policy, s.debug, [Walk.analysisListener]⟩
  let (state, outcome) := plan.run fs source (.start analyser depth)
  let after := state.listeners
  match outcome with
  | .error cause => ⟨.error (.of (.walk cause)), after.log⟩
  | .ok summary =>
    let after :=
      if after.conflicts > 0 then
        after.logging .warn "Some classes were found in several containers"
          [("conflicts", toString after.conflicts)]
      else after
    ⟨.ok ⟨after.analyser, after.containers, summary⟩, after.log⟩

/-- The walk over the containers that are analysed. -/
def walkLibs (fs : FileSystem) (s : Settings) (analyser : Analyser) : Logged Walked :=
  match PathFilter.ofPatterns s.libsIncludes s.libsExcludes with
  | .error cause => .ofExcept (.error (.of (.pattern cause)))
  | .ok filter =>
    (walk fs s analyser .dependencies (.directory s.binaries filter)).within
      "Dependency analysis failed"

/-- The walk over the containers below the binaries that are only listed, if there are to be any. -/
def walkDeps (fs : FileSystem) (s : Settings) (analyser : Analyser) :
    Logged (Analyser × List Walk.Summary) :=
  if s.hasDepsWalk then
    match PathFilter.ofPatterns s.depsIncludes s.depsExcludes with
    | .error cause => .ofExcept (.error (.of (.pattern cause)))
    | .ok filter => do
      let walked ←
        (walk fs s analyser .inventory (.directory s.binaries filter)).within
          "Listing dependency classes failed"
      return (walked.analyser, [walked.summary])
  else return (analyser, [])

/-- The walk over the files that are only listed, if there are any. -/
def walkDependencyFiles (fs : FileSystem) (s : Settings) (analyser : Analyser) :
    Logged (Analyser × List Walk.Summary) :=
  if s.dependencyFiles.isEmpty then return (analyser, [])
  else do
    let walked ←
      (walk fs s analyser .inventory (.files s.binaries s.dependencyFiles)).within
        "Listing dependency files failed"
    return (walked.analyser, [walked.summary])

end Analysis

/-- Walks the binaries, and then the containers that are only listed. -/
def analyse (fs : FileSystem) (s : Settings) : Logged Analysis := do
  let analyser ← .ofExcept (Settings.checkPattern (Analysis.analyser s))
  let libs ← Analysis.walkLibs fs s analyser
  let (analyser, below) ← Analysis.walkDeps fs s libs.analyser
  let (analyser, listed) ← Analysis.walkDependencyFiles fs s analyser
  return ⟨analyser.result, libs.containers, libs.summary, below ++ listed⟩

/-- A registry with the hints of the settings. -/
def registryOf (s : Settings) : Except Artifact.Error Artifact.Registry :=
  s.artifacts.foldlM Artifact.Registry.addHint (.empty s.repository)

/-- The artifacts of an analysis: the containers of the analysed classes and what they depend on. -/
def describe (fs : FileSystem) (s : Settings) (a : Analysis) : Logged Artifact.ArtifactSet :=
  match registryOf s with
  | .error cause => .ofExcept (.error (.of (.artifact cause)))
  | .ok registry =>
    let (_, answer, log) := registry.artifactSet fs a.result.fileEdges a.containers.toList
    ⟨answer.mapError fun cause => .of (.artifact cause), log⟩

/-- The report of some artifacts. -/
def render (s : Settings) (set : Artifact.ArtifactSet) : String :=
  Artifact.Report.render ⟨some s.binaries, s.repository⟩ set

/-- What a run leaves: the files, its answer, which is nothing where it was skipped, and its log. -/
structure RunOutcome where
  files : FileSystem
  answer : Except Failure (Option Analysis)
  log : List Walk.LogEntry

/-- Analyses, describes, and writes the description. -/
def analyseAndWrite (fs : FileSystem) (s : Settings) (breakdown : Option Breakdown) :
    RunOutcome :=
  let analysed := analyse fs s
  match analysed.answer with
  | .error cause => ⟨fs, .error cause, analysed.log⟩
  | .ok a =>
    let described := (describe fs s a).within "Error while describing the analysed artifacts"
    let log := analysed.log ++ described.log
    match described.answer with
    | .error cause => ⟨(removeIfThere fs s.output).1, .error cause, log⟩
    | .ok set =>
      match AtomicWrite.write fs s.output (Text.utf8Bytes (render s set)) breakdown with
      | (fs, .error cause) => ⟨fs, .error cause, log⟩
      | (fs, .ok ()) =>
        ⟨fs, .ok (some a),
          log ++ [⟨.info, "Wrote analysis result", [("output", s.output.text)]⟩]⟩

/-- A run, which is skipped where the description is fresh, unless it is forced. -/
def run (fs : FileSystem) (s : Settings) (breakdown : Option Breakdown) : RunOutcome :=
  match (if s.force then .ok false else fs.isUpToDate s.binaries s.output) with
  | .error cause => ⟨fs, .error cause, []⟩
  | .ok true =>
    ⟨fs, .ok none,
      [⟨.info, "No changes in binaries detected, skipping dependency analysis.", []⟩]⟩
  | .ok false => analyseAndWrite fs s breakdown

end JarGraph
