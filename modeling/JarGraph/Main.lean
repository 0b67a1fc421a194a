import JarGraph.FileSystem.Difference
import JarGraph.Program
/-!
# The command line program

Reads the files that a run may look at into a file system, runs the program on it, and writes back
what has changed.
-/

namespace JarGraph.Main

/-- The time of a change; one before the epoch counts as the epoch. -/
def instantOf (time : IO.FS.SystemTime) : Instant :=
  time.sec.toNat * 1000000000 + time.nsec.toNat

/-- What is at the end of a row of names. Of a directory its entries are read when they are asked
for. Files below a directory that are no containers are read as empty. -/
partial def load (deep : Bool) (below : Bool) (names : List String) : IO (Option Node) := do
  let place := (← IO.currentDir) / (FileSystem.pathOf names).text
  let data? ← try pure (some (← place.metadata)) catch _ => pure none
  match data? with
  | none => return none
  | some data =>
    let modified := instantOf data.modified
    match data.type with
    | .dir =>
      let mut inside := Listing.nil
      if deep then
        for entry in ← place.readDir do
          if let some node ← load true true (names ++ [entry.fileName]) then
            inside := inside.put entry.fileName node
      return some (.folder inside modified)
    | _ =>
      if below && Container.ofPath ⟨names.getLastD ""⟩ == .other then
        return some (.file [] modified)
      else
        return some (.file (← IO.FS.readBinFile place).toList modified)

/-- Puts what is at the end of a row of names into a file system, with the directories above it. -/
def gather (deep : Bool) (names : List String) (fs : FileSystem) : IO FileSystem := do
  let mut fs := fs
  for n in List.range names.length do
    let above := names.take (n + 1)
    let isLast := n + 1 == names.length
    match fs.root.at? above, deep && isLast with
    | some (.folder _ _), false => continue
    | _, _ =>
      match ← load (deep && isLast) false above with
      | some node => fs := fs.putNode above node
      | none => return fs
  return fs

/-- The names that the components of a path lead through. -/
def namesOf (fs : FileSystem) (p : Path) : List String :=
  p.components.foldl (fun names c =>
    match c with
    | .root => []
    | .here => names
    | .up => names.dropLast
    | .name text => names ++ [text]) fs.workingNames

/-- Puts what is at a path into a file system. -/
def gatherPath (deep : Bool) (p : Path) (fs : FileSystem) : IO FileSystem :=
  gather deep (namesOf fs p) fs

/-- Puts everything that a command looks at into a file system. -/
def gatherFor (request : CommandLine.Request) (fs : FileSystem) : IO FileSystem := do
  let mut fs := fs
  if let some config := request.config then
    fs ← gatherPath false config fs
  match Settings.start fs request.config, request.command with
  | .error _, _ => return fs
  | .ok s, .clean output => gatherPath false (output.getD s.output) fs
  | .ok s, .analyze args => gatherRun (s.override args request.debug) fs
  | .ok s, .unresolved args => gatherRun (s.override args request.debug) fs
where
  /-- Puts everything that a run looks at into a file system. -/
  gatherRun (s : Settings) (fs : FileSystem) : IO FileSystem := do
    let mut fs ← gatherPath true s.binaries fs
    for file in s.dependencyFiles do
      fs ← gatherPath false file fs
    fs ← gatherPath false (AtomicWrite.temporary s.output) fs
    gatherPath false s.output fs

/-- The file system before a run, as far as the arguments need it. -/
def before (args : List String) : IO FileSystem := do
  let working := namesOf ⟨.folder .nil 0, [], ⟨""⟩, 0⟩ ⟨(← IO.currentDir).toString⟩
  let home := (← IO.getEnv "HOME").getD "/"
  let fs ← gather false working ⟨.folder .nil 0, working, ⟨home⟩, 0⟩
  match CommandLine.parse args with
  | .ok request => gatherFor request fs
  | .error _ => return fs

/-- Writes back what has changed. -/
def writeBack (old new : FileSystem) : IO Unit := do
  let root ← IO.currentDir
  for file in FileSystem.written old new do
    let place := root / (FileSystem.pathOf file.names).text
    let beside := root / (AtomicWrite.temporary (FileSystem.pathOf file.names)).text
    IO.FS.createDirAll (root / (FileSystem.pathOf file.names.dropLast).text)
    IO.FS.writeBinFile beside (ByteArray.mk file.content.toArray)
    IO.FS.rename beside place
  for names in FileSystem.removed old new do
    IO.FS.removeFile (root / (FileSystem.pathOf names).text)

/-- One line of the log. -/
def logLine (entry : Walk.LogEntry) : String :=
  let level :=
    match entry.level with
    | .info => "INFO"
    | .warn => "WARN"
    | .error => "ERROR"
  String.intercalate " " ([level, entry.message] ++ entry.fields.map fun f => f.1 ++ "=" ++ f.2)

end JarGraph.Main

open JarGraph in
/-- Runs the program on the files of the machine. -/
def main (args : List String) : IO UInt32 := do
  let old ← Main.before args
  let outcome := runProgram old args
  Main.writeBack old outcome.files
  for entry in outcome.log do
    IO.eprintln (Main.logLine entry)
  for line in outcome.lines do
    IO.println line
  if let some cause := outcome.failure then
    IO.eprintln ("Error: " ++ cause.headline)
    for reason in cause.chain.drop 1 do
      IO.eprintln ("  caused by: " ++ reason)
  if let some fault := outcome.fault then
    if fault = .displayHelp then
      CommandLine.usage.forM IO.println
    else
      (("error: " ++ fault.message) :: CommandLine.usage).forM IO.eprintln
  return UInt32.ofNat outcome.code
