import JarGraph.Artifact.Coordinates
/-!
# The command line

The commands of the program and their arguments. Arguments are read one after the other. An option
that takes a value waits for it; what it holds is checked when the next option is known or the
arguments end. An argument that is not known is told before what is wrong with a waiting option. Two
dashes alone end the options. The general options may stand before and after the command.
-/

namespace JarGraph.CommandLine

/-- Why arguments are refused, or answered without a run. -/
inductive Fault where
  | displayHelp
  /-- Nothing was asked for, and help is shown. -/
  | missingCommandHelp
  | missingCommand
  | unknownCommand
  | unknownArgument
  | conflict
  /-- A value is missing or empty. -/
  | invalidValue
  | tooManyValues
  /-- A value does not have the form that it needs. -/
  | refusedValue
  deriving DecidableEq, Repr, Inhabited

/-- The words of a fault. -/
def Fault.message : Fault → String
  | displayHelp => "help was asked for"
  | missingCommandHelp => "nothing was asked for"
  | missingCommand => "a command is missing"
  | unknownCommand => "there is no such command"
  | unknownArgument => "an argument is not known"
  | conflict => "an argument may be given only once"
  | invalidValue => "an argument needs a value"
  | tooManyValues => "an argument takes no value"
  | refusedValue => "a value does not have the form [name=]groupId:artifactId:version[:classifier]"

/-- How the program is called. -/
def usage : List String :=
  ["usage: (analyze | unresolved) [DIR] [-o FILE] [--local-repository DIR] [--include GLOB]",
    "         [--exclude GLOB] [--deps-include GLOB] [--deps-exclude GLOB]",
    "         [--dependency-file FILE] [--jvm-provided PATTERN] [--provided PATTERN]",
    "         [--artifact HINT] [--lenient] [--force] [--config FILE] [--debug]",
    "       clean [-o FILE] [--config FILE] [--debug]"]

/-- The name of a command. -/
inductive CommandName where
  | analyze
  | unresolved
  | clean
  deriving DecidableEq, Repr, Inhabited

/-- The command of a word. -/
def CommandName.ofWord? : String → Option CommandName
  | "analyze" => some .analyze
  | "unresolved" => some .unresolved
  | "clean" => some .clean
  | _ => none

/-- The options that take values, and the directory that is given without an option. -/
inductive Opt where
  | config
  | binaries
  | output
  | localRepository
  | includes
  | excludes
  | depsIncludes
  | depsExcludes
  | dependencyFile
  | jvmProvided
  | provided
  | artifact
  deriving DecidableEq, Repr, Inhabited

/-- The options that take no value. -/
inductive Flag where
  | debug
  | lenient
  | force
  | help
  deriving DecidableEq, Repr, Inhabited

/-- What a long or a short option stands for. -/
inductive Meaning where
  | opt (o : Opt)
  | flag (f : Flag)
  deriving DecidableEq, Repr, Inhabited

/-- The long options that every part of the command line knows. -/
def generalOptions : List (String × Meaning) :=
  [("config", .opt .config), ("debug", .flag .debug), ("help", .flag .help)]

/-- The long options of the two commands that analyse. -/
def analysisOptions : List (String × Meaning) :=
  [("output", .opt .output), ("local-repository", .opt .localRepository),
    ("include", .opt .includes), ("exclude", .opt .excludes),
    ("deps-include", .opt .depsIncludes), ("deps-exclude", .opt .depsExcludes),
    ("dependency-file", .opt .dependencyFile), ("jvm-provided", .opt .jvmProvided),
    ("provided", .opt .provided), ("artifact", .opt .artifact), ("lenient", .flag .lenient),
    ("force", .flag .force)]

/-- What a part of the command line knows: before the command, or after it. -/
structure Grammar where
  long : List (String × Meaning)
  short : List (Char × Meaning)
  /-- Whether a directory may be given. -/
  takesDirectory : Bool
  /-- Whether a command has to come. -/
  takesCommand : Bool

/-- The part before the command. -/
def topGrammar : Grammar :=
  ⟨generalOptions, [('h', .flag .help)], false, true⟩

/-- The part after a command. -/
def CommandName.grammar : CommandName → Grammar
  | clean =>
    ⟨("output", .opt .output) :: generalOptions, [('o', .opt .output), ('h', .flag .help)], false,
      false⟩
  | _ =>
    ⟨analysisOptions ++ generalOptions, [('o', .opt .output), ('h', .flag .help)], true, false⟩

/-- Whether an option may be given once only. -/
def Opt.isSingle : Opt → Bool
  | config | binaries | output | localRepository => true
  | _ => false

/-- Whether the value of an option is a path, which may not be empty. -/
def Opt.isPath : Opt → Bool
  | config | binaries | output | localRepository | dependencyFile => true
  | _ => false

/-- What was given in a part of the command line. -/
structure Given where
  /-- The options with their values, in order. -/
  values : List (Opt × String)
  flags : List Flag
  deriving DecidableEq, Repr, Inhabited

/-- An option that waits for its value. -/
structure Waiting where
  opt : Opt
  value : Option String
  deriving DecidableEq, Repr, Inhabited

/-- What has been read of a part of the command line. -/
structure State where
  given : Given
  waiting : Option Waiting
  /-- Whether the next argument is the value of the waiting option. -/
  needsValue : Bool
  /-- Whether the directory was given. -/
  hasDirectory : Bool
  deriving Repr, Inhabited

namespace State

/-- Nothing was given. -/
def start : State := ⟨⟨[], []⟩, none, false, false⟩

/-- Takes in the value of an option. -/
def accept (s : State) (o : Opt) (value : String) : Except Fault State :=
  if o.isSingle && s.given.values.any (·.1 == o) then .error .conflict
  else if o.isPath && value.isEmpty then .error .invalidValue
  else if o == .artifact && !(Artifact.Hint.parse value).toBool then .error .refusedValue
  else .ok { s with given := { s.given with values := s.given.values ++ [(o, value)] } }

/-- Takes in the option that waits, if there is one. -/
def settle (s : State) : Except Fault State :=
  match s.waiting with
  | none => .ok s
  | some ⟨o, some value⟩ => { s with waiting := none, needsValue := false }.accept o value
  | some ⟨_, none⟩ => .error .invalidValue

/-- Takes in a flag. -/
def acceptFlag (s : State) (f : Flag) : Except Fault State := do
  let s ← s.settle
  if f == .help then throw .displayHelp
  if s.given.flags.contains f then throw .conflict
  return { s with given := { s.given with flags := s.given.flags ++ [f] } }

/-- Takes in an option, with its value if it stands in the same argument. -/
def acceptOption (s : State) (o : Opt) (value : Option String) : Except Fault State := do
  let s ← s.settle
  match value with
  | some value => s.accept o value
  | none => return { s with waiting := some ⟨o, none⟩, needsValue := true }

/-- Takes in a long option without its dashes. -/
def acceptLong (s : State) (g : Grammar) (text : List Char) : Except Fault State :=
  let (name, value) :=
    match Text.cutWhere (· == '=') text with
    | some (name, value) => (name, some (String.ofList value))
    | none => (text, none)
  match g.long.lookup (String.ofList name) with
  | none => .error .unknownArgument
  | some (.opt o) => s.acceptOption o value
  | some (.flag f) =>
    match value with
    | some _ => .error .tooManyValues
    | none => s.acceptFlag f

/-- Takes in short options without their dash. One that takes a value takes the rest of them, less
an equals sign. -/
def acceptShort (s : State) (g : Grammar) : List Char → Except Fault State
  | [] => .ok s
  | c :: rest =>
    match g.short.lookup c with
    | none => .error .unknownArgument
    | some (.flag f) =>
      match s.acceptFlag f with
      | .ok s => acceptShort s g rest
      | .error fault => .error fault
    | some (.opt o) =>
      match rest with
      | [] => s.acceptOption o none
      | '=' :: value => s.acceptOption o (some (String.ofList value))
      | value => s.acceptOption o (some (String.ofList value))

/-- Takes in an argument that is no option and no value of one: the directory. -/
def acceptPlain (s : State) (g : Grammar) : String → Except Fault State := fun text =>
  if g.takesDirectory && !s.hasDirectory then do
    let s ← s.settle
    return { s with waiting := some ⟨.binaries, some text⟩, hasDirectory := true }
  else if g.takesCommand then .error .unknownCommand
  else .error .unknownArgument

end State

/-- What the arguments of one part come to: what was given, and the command that follows with the
arguments after it. -/
structure PartResult where
  state : State
  command : Option (CommandName × List String)

/-- The answer to a request for help on some commands. -/
def helpFault : List String → Fault
  | [] => .displayHelp
  | [word] =>
    if word = "help" ∨ (CommandName.ofWord? word).isSome then .displayHelp else .unknownCommand
  | _ => .unknownCommand

/-- Reads the arguments of one part after two dashes. -/
def readTrailing (g : Grammar) (s : State) : List String → Except Fault PartResult
  | [] => .ok ⟨s, none⟩
  | text :: more =>
    if g.takesCommand then
      if text = "help" ∨ (CommandName.ofWord? text).isSome then .error .unknownArgument
      else .error .unknownCommand
    else
      match s.acceptPlain g text with
      | .ok s => readTrailing g s more
      | .error fault => .error fault

/-- Reads the arguments of one part. -/
def readPart (g : Grammar) (s : State) : List String → Except Fault PartResult
  | [] => .ok ⟨s, none⟩
  | text :: more =>
    if g.takesCommand ∧ ¬ s.needsValue ∧ text = "help" then .error (helpFault more)
    else
      match (if g.takesCommand && !s.needsValue then CommandName.ofWord? text else none) with
      | some command => .ok ⟨s, some (command, more)⟩
      | none =>
        match text.toList with
        | ['-', '-'] => readTrailing g s more
        | '-' :: '-' :: long =>
          match s.acceptLong g long with
          | .ok s => readPart g s more
          | .error fault => .error fault
        | '-' :: c :: short =>
          match s.acceptShort g (c :: short) with
          | .ok s => readPart g s more
          | .error fault => .error fault
        | _ =>
          match s.waiting, s.needsValue with
          | some w, true =>
            readPart g { s with waiting := some { w with value := some text }, needsValue := false }
              more
          | _, _ =>
            match s.acceptPlain g text with
            | .ok s => readPart g s more
            | .error fault => .error fault

/-- The arguments of a command that analyses. -/
structure AnalysisArgs where
  binaries : Option Path
  output : Option Path
  localRepository : Option Path
  includes : List String
  excludes : List String
  depsIncludes : List String
  depsExcludes : List String
  dependencyFiles : List Path
  jvmProvided : List String
  provided : List String
  artifacts : List Artifact.Hint
  lenient : Bool
  force : Bool
  deriving DecidableEq, Repr, Inhabited

/-- A command with its arguments. -/
inductive Command where
  | analyze (args : AnalysisArgs)
  | unresolved (args : AnalysisArgs)
  | clean (output : Option Path)
  deriving DecidableEq, Repr, Inhabited

/-- What a command line asks for. -/
structure Request where
  command : Command
  config : Option Path
  debug : Bool
  deriving DecidableEq, Repr, Inhabited

namespace Given

/-- The values of an option, in order. -/
def all (g : Given) (o : Opt) : List String :=
  g.values.filterMap fun v => if v.1 = o then some v.2 else none

/-- The path that an option gives. -/
def path? (g : Given) (o : Opt) : Option Path :=
  (g.all o).head?.map Path.mk

/-- The hint of a value that was accepted as one. -/
def hint? (text : String) : Option Artifact.Hint :=
  (Artifact.Hint.parse text).toOption

/-- The arguments of a command that analyses. -/
def analysisArgs (g : Given) : AnalysisArgs :=
  { binaries := g.path? .binaries
    output := g.path? .output
    localRepository := g.path? .localRepository
    includes := g.all .includes
    excludes := g.all .excludes
    depsIncludes := g.all .depsIncludes
    depsExcludes := g.all .depsExcludes
    dependencyFiles := (g.all .dependencyFile).map Path.mk
    jvmProvided := g.all .jvmProvided
    provided := g.all .provided
    artifacts := (g.all .artifact).filterMap hint?
    lenient := g.flags.contains .lenient
    force := g.flags.contains .force }

/-- A command with what was given after it. -/
def command (g : Given) : CommandName → Command
  | .analyze => .analyze g.analysisArgs
  | .unresolved => .unresolved g.analysisArgs
  | .clean => .clean (g.path? .output)

end Given

/-- Whether something was given before the command. -/
def Given.isEmpty (g : Given) : Bool :=
  g.values.isEmpty && g.flags.isEmpty

/-- What the arguments ask for. What is wrong after the command is told before what is wrong with an
option that waits before it. -/
def parse (args : List String) : Except Fault Request := do
  let top ← readPart topGrammar .start args
  match top.command with
  | some (name, rest) =>
    let part ← readPart name.grammar .start rest
    let after ← part.state.settle
    let before ← top.state.settle
    let config := (after.given.path? .config).or (before.given.path? .config)
    let debug := after.given.flags.contains .debug || before.given.flags.contains .debug
    return ⟨after.given.command name, config, debug⟩
  | none =>
    let before ← top.state.settle
    if before.given.isEmpty then throw .missingCommandHelp else throw .missingCommand

end JarGraph.CommandLine
