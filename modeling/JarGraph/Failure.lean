import JarGraph.Artifact.Coordinates
import JarGraph.Glob.Fault
import JarGraph.Walk.Event
/-!
# Failures of a run

A failure is a cause with remarks on what was being done, the outermost first. It is told by all
remarks and then the words of the cause, the words of what lies behind the cause included.
-/

namespace JarGraph

/-- What lies at the bottom of a failure. -/
inductive Cause where
  | walk (cause : Walk.Error)
  | artifact (cause : Artifact.Error)
  | pattern (cause : PatternError)
  | io (cause : IoError)
  | scan (cause : ScanError)
  /-- A text is no settings in JSON. -/
  | json
  /-- The remarks say it all. -/
  | none
  deriving DecidableEq, Repr, Inhabited

namespace Archive

/-- The words of an archive's failure, followed by those of what lies behind it. -/
def Error.chain (e : Error) : List String :=
  e.message :: (match e with
    | .io cause => [cause.message]
    | _ => [])

end Archive

namespace Cause

/-- The words of the cause, followed by those of what lies behind it. -/
def chain : Cause → List String
  | walk cause =>
    cause.message :: (match cause with
      | .unreadable _ inner => [inner.message]
      | .badArchive _ inner => inner.chain
      | .badClass _ inner => [inner.message]
      | .scan _ inner => [inner.message])
  | artifact cause =>
    cause.message :: (match cause with
      | .unreadable _ inner => [inner.message]
      | .badArchive _ inner => inner.chain
      | _ => [])
  | pattern cause => [cause.message, cause.cause]
  | io cause => [cause.message]
  | scan cause => [cause.message]
  | json => []
  | none => []

end Cause

/-- Why a run fails. -/
structure Failure where
  /-- What was being done, outermost first. -/
  remarks : List String
  cause : Cause
  deriving DecidableEq, Repr, Inhabited

namespace Failure

/-- A failure with nothing to remark. -/
def of (cause : Cause) : Failure := ⟨[], cause⟩

/-- The words of the failure, outermost first. -/
def chain (f : Failure) : List String :=
  f.remarks ++ f.cause.chain

/-- The words of the failure as one text. -/
def message (f : Failure) : String :=
  String.intercalate ": " f.chain

/-- The outermost words of the failure. -/
def headline (f : Failure) : String :=
  f.chain.headD ""

/-- The failure with one more remark around it. -/
def within (remark : String) (f : Failure) : Failure :=
  { f with remarks := remark :: f.remarks }

end Failure

/-- A refusal of the file system as a failure, with a remark on what was being done. -/
def remarking {α : Type} (remark : String) (answer : Except IoError α) : Except Failure α :=
  answer.mapError fun cause => ⟨[remark], .io cause⟩

end JarGraph
