import JarGraph.Analyser
import JarGraph.Extraction.Receiver
import JarGraph.Walk.Basic
/-!
# Walking into an analysis

The listener that hands the classes of a walk to an analyser. It keeps track of the container that
is open, of the containers that held classes, and of classes that were found in more than one.
-/

namespace JarGraph.Walk

/-- How much a line of the log matters. -/
inductive Level where
  | info
  | warn
  | error
  deriving DecidableEq, Repr, Inhabited

/-- One line of the log, with named values. -/
structure LogEntry where
  level : Level
  message : String
  fields : List (String × String)
  deriving DecidableEq, Repr, Inhabited

/-- The container that is open, and how many classes it held so far. -/
structure Tracker where
  current : Option Path
  classes : Nat
  deriving DecidableEq, Repr, Inhabited

namespace Tracker

/-- No container is open. -/
def empty : Tracker := ⟨none, 0⟩

/-- Opens a container. -/
def start (_ : Tracker) (file : Path) : Tracker :=
  ⟨some file, 0⟩

/-- Counts a class. -/
def record (t : Tracker) : Tracker :=
  { t with classes := t.classes + 1 }

/-- Closes the container, and tells which it was and how many classes it held. Where none is open
nothing changes. -/
def close (t : Tracker) : Tracker × Option (Path × Nat) :=
  match t.current with
  | none => (t, none)
  | some file => (⟨none, 0⟩, some (file, t.classes))

end Tracker

/-- The state of a listener that feeds an analyser. -/
structure AnalysisState where
  analyser : Analyser
  depth : Depth
  tracker : Tracker
  /-- The containers of the classes that were extracted. -/
  containers : OrderedSet Path
  /-- How often a class was found that was known from another container. -/
  conflicts : Nat
  /-- How many failures were reported. -/
  errors : Nat
  log : List LogEntry
  deriving Inhabited

namespace AnalysisState

/-- The state before a walk. -/
def start (analyser : Analyser) (depth : Depth) : AnalysisState :=
  ⟨analyser, depth, .empty, .empty, 0, 0, []⟩

/-- Adds a line to the log. -/
def logging (s : AnalysisState) (level : Level) (message : String)
    (fields : List (String × String)) : AnalysisState :=
  { s with log := s.log ++ [⟨level, message, fields⟩] }

/-- Notes a conflict where a class is known from another container. -/
def checkConflict (s : AnalysisState) (container : Path) (name : String) : AnalysisState :=
  match s.analyser.containerOf name with
  | none => s
  | some previous =>
    if previous.same container then s
    else
      { s with conflicts := s.conflicts + 1 }.logging .warn
        "Class found in more than one container"
        [("class", name), ("previous", previous.text), ("container", container.text)]

/-- Takes in one thing that a class reports. -/
def receive (s : AnalysisState) (sighting : Sighting) : AnalysisState :=
  let s :=
    match sighting with
    | .class container name => s.checkConflict container name
    | _ => s
  { s with analyser := s.analyser.receive sighting }

/-- The container that classes belong to; outside of any it is the empty path. -/
def container (s : AnalysisState) : Path :=
  s.tracker.current.getD ⟨""⟩

/-- Takes in a class. Its sightings are received while it is extracted, and it counts once that is
done. -/
def examine (data : Bytes) (s : AnalysisState) : AnalysisState × Option ClassFile.Error :=
  match (extractInto receive data s.container s.depth).run.run s with
  | (.error cause, s') => (s', some cause)
  | (.ok _, s') =>
    ({ s' with
        tracker := s'.tracker.record
        containers := s'.containers.insert s.container },
      none)

/-- Takes in an event that brings no class. -/
def notice (event : Event) (s : AnalysisState) : AnalysisState :=
  match event with
  | .started base =>
    match s.depth with
    | .dependencies =>
      s.logging .info ("Analysing dependencies in classes from " ++ base.text) []
    | .inventory => s.logging .info ("Listing classes from " ++ base.text) []
  | .opened _ file => { s with tracker := s.tracker.start file }
  | .classData _ _ => s
  | .closed =>
    match s.tracker.close with
    | (_, none) => s
    | (tracker, some (file, count)) =>
      let s := { s with tracker := tracker }
      match s.depth with
      | .dependencies =>
        s.logging .info
          ("Analysed " ++ toString count ++ " classes in file " ++ file.text) []
      | .inventory =>
        s.logging .info ("Found " ++ toString count ++ " classes in file " ++ file.text) []
  | .finished =>
    match s.depth with
    | .dependencies => s.logging .info "Dependency analysis done." []
    | .inventory => s.logging .info "Listing done." []
  | .failed file cause =>
    { s with errors := s.errors + 1 }.logging .error cause.message [("file", file.text)]
  | .remark _ => s

end AnalysisState

/-- The listener that feeds an analyser. -/
def analysisListener : Listener AnalysisState where
  notice := AnalysisState.notice
  examine := fun _ => AnalysisState.examine

end JarGraph.Walk
