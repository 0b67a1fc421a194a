import JarGraph.Run
/-!
# The program

What the program does with its arguments: it analyses, lists what is unresolved, or removes the
description.
-/

namespace JarGraph

/-- What the program leaves. -/
structure ProgramOutcome where
  files : FileSystem
  /-- The exit code. -/
  code : Nat
  /-- The lines of the standard output. -/
  lines : List String
  log : List Walk.LogEntry
  /-- Why the program failed. -/
  failure : Option Failure
  /-- Why the arguments were refused. -/
  fault : Option CommandLine.Fault

namespace ProgramOutcome

/-- A run that comes to its end. -/
def done (files : FileSystem) (lines : List String) (log : List Walk.LogEntry) : ProgramOutcome :=
  ⟨files, 0, lines, log, none, none⟩

/-- A run that fails. -/
def failed (files : FileSystem) (cause : Failure) (log : List Walk.LogEntry) : ProgramOutcome :=
  ⟨files, 1, [], log, some cause, none⟩

/-- Arguments that ask for no run. Help that was asked for is no failure. -/
def refused (files : FileSystem) (fault : CommandLine.Fault) : ProgramOutcome :=
  ⟨files, if fault = .displayHelp then 0 else 2, [], [], none, some fault⟩

/-- A run that comes to its end with an analysis, whose unresolved classes are listed. -/
def reported (files : FileSystem) (a : Analysis) (log : List Walk.LogEntry) : ProgramOutcome :=
  let lines := a.result.unresolvedReport
  let note := if lines.isEmpty then "No unresolved classes." else "Unresolved classes:"
  done files lines (log ++ [⟨.info, note, []⟩])

end ProgramOutcome

/-- The command that analyses and writes the description. -/
def runAnalyze (fs : FileSystem) (request : CommandLine.Request)
    (args : CommandLine.AnalysisArgs) : ProgramOutcome :=
  match Settings.resolve fs request.config request.debug args with
  | .error cause => .failed fs cause []
  | .ok s =>
    let outcome := run fs s none
    match outcome.answer with
    | .error cause => .failed outcome.files cause outcome.log
    | .ok none => .done outcome.files [] outcome.log
    | .ok (some a) => .reported outcome.files a outcome.log

/-- The command that lists what is unresolved. -/
def runUnresolved (fs : FileSystem) (request : CommandLine.Request)
    (args : CommandLine.AnalysisArgs) : ProgramOutcome :=
  match Settings.resolve fs request.config request.debug args with
  | .error cause => .failed fs cause []
  | .ok s =>
    let outcome := analyse fs s
    match outcome.answer with
    | .error cause => .failed fs cause outcome.log
    | .ok a => .reported fs a outcome.log

/-- The command that removes the description. -/
def runClean (fs : FileSystem) (request : CommandLine.Request) (output : Option Path) :
    ProgramOutcome :=
  match Settings.outputOf fs request.config output with
  | .error cause => .failed fs cause []
  | .ok path =>
    match removeIfThere fs path with
    | (fs, .error cause) => .failed fs cause []
    | (fs, .ok true) =>
      .done fs [] [⟨.info, "Removed analysis result", [("output", path.text)]⟩]
    | (fs, .ok false) => .done fs [] []

/-- The program as a whole. -/
def runProgram (fs : FileSystem) (args : List String) : ProgramOutcome :=
  match CommandLine.parse args with
  | .error fault => .refused fs fault
  | .ok request =>
    match request.command with
    | .analyze args => runAnalyze fs request args
    | .unresolved args => runUnresolved fs request args
    | .clean output => runClean fs request output

end JarGraph
