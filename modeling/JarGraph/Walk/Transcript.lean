import JarGraph.Walk.Basic
/-!
# Transcripts of a walk

What one listener hears of a walk, as a structured whole: the start, failures of the scan, remarks
on files that are no containers, one episode for each container, and the end. The events of a
transcript are its content in order, so that a class is only ever heard of inside an open container
and every opening has its closing.
-/

namespace JarGraph.Walk

/-- What a listener hears while a container is open. -/
inductive Detail where
  | classData (progress : Nat) (data : Bytes)
  | remark (message : String)
  deriving DecidableEq, Repr, Inhabited

/-- The event of a detail. -/
def Detail.event : Detail → Event
  | classData progress data => .classData progress data
  | remark message => .remark message

/-- A container from its opening on. -/
structure Opening where
  progress : Nat
  details : List Detail
  deriving DecidableEq, Repr, Inhabited

/-- What a listener hears of one container: it is opened or not, and it fails or not. -/
structure Episode where
  file : Path
  opening : Option Opening
  failure : Option Error
  deriving DecidableEq, Repr, Inhabited

namespace Episode

/-- The events of a container that was opened. -/
def openEvents (file : Path) (o : Opening) : List Event :=
  .opened o.progress file :: o.details.map Detail.event ++ [.closed]

/-- The events of failures. -/
def failureEvents (failures : List Error) : List Event :=
  failures.map fun cause => .failed cause.file cause

/-- The events of an episode. -/
def events (e : Episode) : List Event :=
  e.opening.elim [] (openEvents e.file) ++ failureEvents e.failure.toList

/-- Whether a container was walked to its end. -/
def isWhole (e : Episode) : Bool :=
  e.opening.isSome && e.failure.isNone

/-- How many classes a listener was handed from a container. -/
def classCount (e : Episode) : Nat :=
  e.opening.elim 0 fun o =>
    o.details.countP fun
      | .classData _ _ => true
      | .remark _ => false

end Episode

/-- What a listener hears of a walk. -/
structure Transcript where
  base : Path
  /-- The failures of the scan, if the walk goes on after them. -/
  scanFailures : List Error
  /-- Remarks on files that are no containers. -/
  remarks : List String
  episodes : List Episode
  /-- Whether the walk came to its end. -/
  finished : Bool
  deriving DecidableEq, Repr, Inhabited

namespace Transcript

/-- The events of a transcript, in order. -/
def events (t : Transcript) : List Event :=
  .started t.base :: Episode.failureEvents t.scanFailures ++ t.remarks.map .remark
    ++ t.episodes.flatMap Episode.events ++ (if t.finished then [.finished] else [])

/-- The failures of a transcript, in order. -/
def failures (t : Transcript) : List Error :=
  t.scanFailures ++ t.episodes.filterMap Episode.failure

/-- The progress of every opening, in order. -/
def progress (t : Transcript) : List Nat :=
  t.episodes.filterMap fun e => e.opening.map Opening.progress

end Transcript

/-- The events that one listener was told of, in order. -/
def State.heard {σ : Type} (s : State σ) (listener : Nat) : List Event :=
  s.delivered.reverse.filterMap fun d => if d.listener = listener then some d.event else none

end JarGraph.Walk
