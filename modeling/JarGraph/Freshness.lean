import JarGraph.Failure
/-!
# Freshness

A result is fresh when it was written after every file below the directory that it describes was
last changed. The result itself does not count, should it lie below that directory.
-/

namespace JarGraph

/-- The times of the oldest and the newest of some files. -/
structure TimeRange where
  oldest : Instant
  newest : Instant
  deriving DecidableEq, Repr, Inhabited

namespace TimeRange

/-- The range of some times; there is none without a time. -/
def ofList : List Instant → Option TimeRange
  | [] => none
  | t :: more =>
    match ofList more with
    | none => some ⟨t, t⟩
    | some range => some ⟨min range.oldest t, max range.newest t⟩

end TimeRange

namespace FileSystem

/-- The range of the times of the files below a directory, with one path left out. Everything below
the directory has to be readable. -/
def timeRange (fs : FileSystem) (directory : Path) (skip : Option Path) :
    Except Failure (Option TimeRange) :=
  match (fs.findings directory fun _ => false).mapM id with
  | .error cause => .error ⟨["Failed to walk " ++ directory.text], .scan cause⟩
  | .ok files =>
    let counted := files.filter fun file => !skip.any file.path.same
    .ok (TimeRange.ofList (counted.map ScannedFile.modified))

/-- Whether a result is there and newer than every file below a directory. -/
def isUpToDate (fs : FileSystem) (binaries result : Path) : Except Failure Bool :=
  match fs.modified? result with
  | none => .ok false
  | some written =>
    match fs.timeRange binaries (some result) with
    | .error cause => .error cause
    | .ok none => .ok true
    | .ok (some range) => .ok (range.newest < written)

end FileSystem

end JarGraph
