import JarGraph.Artifact.Coordinates
import JarGraph.ProvidedClasses
import JarGraph.Walk.Basic
/-!
# Settings

What a run is to do: where the binaries are and the result goes, which containers count, what is
supplied from elsewhere, and what the user knows of the artifacts.
-/

namespace JarGraph

/-- The settings of a run. -/
structure Settings where
  binaries : Path
  output : Path
  repository : Option Path
  libsIncludes : List String
  libsExcludes : List String
  depsIncludes : List String
  depsExcludes : List String
  /-- Containers that are only listed, never analysed. -/
  dependencyFiles : List Path
  /-- What takes the place of the patterns for the virtual machine. -/
  machineProvided : Option (List String)
  provided : List String
  artifacts : List Artifact.Hint
  policy : Walk.Policy
  debug : Bool
  force : Bool
  deriving DecidableEq, Repr, Inhabited

namespace Settings

/-- Where the result goes unless the user says otherwise. -/
def defaultOutput : Path := ⟨"target/mavenizer/mavenizer.xml"⟩

/-- The settings where the user says nothing. -/
def default : Settings :=
  { binaries := ⟨"."⟩
    output := defaultOutput
    repository := none
    libsIncludes := []
    libsExcludes := []
    depsIncludes := []
    depsExcludes := []
    dependencyFiles := []
    machineProvided := none
    provided := []
    artifacts := []
    policy := .strict
    debug := false
    force := false }

/-- All patterns of provided classes, those of the virtual machine first. -/
def allProvided (s : Settings) : List String :=
  s.machineProvided.getD defaultMachinePatterns ++ s.provided

/-- Whether some containers are listed only. -/
def hasDepsWalk (s : Settings) : Bool :=
  !s.depsIncludes.isEmpty || !s.depsExcludes.isEmpty

end Settings

end JarGraph
