import JarGraph.AtomicWrite
import JarGraph.CommandLine
import JarGraph.Settings.Json
/-!
# Resolving settings

Settings come from a file, if one is named, and from the command line, which goes over it. Before a
run they are checked: what would only fail later is refused, and the paths of the binaries and of
the result are made absolute.
-/

namespace JarGraph.Settings

/-- The settings that a file holds. -/
def load (fs : FileSystem) (path : Path) : Except Failure Settings := do
  let text ← remarking ("Failed to read config file: " ++ path.text) (fs.readText path)
  match ofText? text with
  | some s => return s
  | none => throw ⟨["Failed to parse config file: " ++ path.text], .json⟩

/-- The settings of a file, if one is named, and the default ones else. -/
def start (fs : FileSystem) (config : Option Path) : Except Failure Settings :=
  match config with
  | some path => load fs path
  | none => .ok default

/-- Where archives are stored unless the user says otherwise. -/
def defaultRepository (fs : FileSystem) : Path :=
  (fs.home.child ".m2").child "repository"

/-- A pattern's failure as a failure of the run. -/
def checkPattern {α : Type} (answer : Except PatternError α) : Except Failure α :=
  answer.mapError fun cause => .of (.pattern cause)

/-- The first name that comes up twice among some hints. -/
def repeatedName : List (Option String) → List Artifact.Hint → Option (Option String)
  | _, [] => none
  | before, h :: more =>
    if before.contains h.name then some h.name else repeatedName (h.name :: before) more

/-- What the checks of settings come to: the settings, whose paths may have been changed although a
later check failed, and the failure, if there is one. -/
abbrev Checked := Settings × Except Failure Unit

/-- Makes the path of the binaries canonical. -/
def resolveBinaries (fs : FileSystem) (s : Settings) : Checked :=
  match fs.canonical s.binaries with
  | .error cause =>
    (s, .error ⟨["Binaries directory not found: " ++ s.binaries.text], .io cause⟩)
  | .ok path =>
    ({ s with binaries := path },
      if fs.hasFolder path then .ok ()
      else .error ⟨["Binaries path is not a directory: " ++ path.text], .none⟩)

/-- Makes the path of the result absolute, and gives the repository its default. -/
def resolveOutput (fs : FileSystem) (s : Settings) : Checked :=
  match fs.absolute s.output with
  | .error cause => (s, .error ⟨["Invalid output path: " ++ s.output.text], .io cause⟩)
  | .ok path =>
    ({ s with
        output := path
        repository := s.repository.or (some (defaultRepository fs)) },
      .ok ())

/-- Checks the patterns and the hints. -/
def checkContents (s : Settings) : Except Failure Unit := do
  let _ ← checkPattern (s.allProvided.foldlM ProvidedClasses.add .empty)
  let _ ← checkPattern (PathFilter.ofPatterns s.libsIncludes s.libsExcludes)
  let _ ← checkPattern (PathFilter.ofPatterns s.depsIncludes s.depsExcludes)
  match repeatedName [] s.artifacts with
  | none => return ()
  | some name =>
    throw ⟨["Duplicate artifact information for " ++ name.getD "default values"], .none⟩

/-- Checks settings and makes their paths absolute. -/
def check (fs : FileSystem) (s : Settings) : Checked :=
  match resolveBinaries fs s with
  | (s, .error cause) => (s, .error cause)
  | (s, .ok ()) =>
    match resolveOutput fs s with
    | (s, .error cause) => (s, .error cause)
    | (s, .ok ()) => (s, checkContents s)

/-- Settings that are in order, with absolute paths. -/
def validate (fs : FileSystem) (s : Settings) : Except Failure Settings :=
  match check fs s with
  | (s, .ok ()) => .ok s
  | (_, .error cause) => .error cause

/-- Settings with what the command line says over them. -/
def override (s : Settings) (args : CommandLine.AnalysisArgs) (debug : Bool) : Settings :=
  { binaries := args.binaries.getD s.binaries
    output := args.output.getD s.output
    repository := args.localRepository.or s.repository
    libsIncludes := s.libsIncludes ++ args.includes
    libsExcludes := s.libsExcludes ++ args.excludes
    depsIncludes := s.depsIncludes ++ args.depsIncludes
    depsExcludes := s.depsExcludes ++ args.depsExcludes
    dependencyFiles := s.dependencyFiles ++ args.dependencyFiles
    machineProvided :=
      if args.jvmProvided.isEmpty then s.machineProvided else some args.jvmProvided
    provided := s.provided ++ args.provided
    artifacts := s.artifacts ++ args.artifacts
    policy := if args.lenient then .lenient else s.policy
    debug := s.debug || debug
    force := s.force || args.force }

/-- The settings of a run that the command line asks for. -/
def resolve (fs : FileSystem) (config : Option Path) (debug : Bool)
    (args : CommandLine.AnalysisArgs) : Except Failure Settings := do
  let s ← start fs config
  validate fs (s.override args debug)

/-- Where the result to be removed lies: as the command line says, else as the settings say. -/
def outputOf (fs : FileSystem) (config : Option Path) (output : Option Path) :
    Except Failure Path :=
  match output with
  | some path => .ok path
  | none => (start fs config).map Settings.output

end JarGraph.Settings
