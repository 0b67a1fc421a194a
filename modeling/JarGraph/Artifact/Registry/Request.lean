import JarGraph.Artifact.Registry
/-!
# Requests to a registry

What a registry can be asked to do, each request on a file system of its own, since files may change
between two requests.
-/

namespace JarGraph.Artifact.Registry

/-- One request. -/
inductive Request where
  | addHint (hint : Hint)
  | describe (fs : FileSystem) (file : Path)
  | register (file : Path) (coordinates : Coordinates) (dependencies : Option (OrderedSet Path))
  | artifactSet (fs : FileSystem) (edges : DependencySet Path) (roots : List Path)

/-- The tree that a request looks into for archives. -/
def Request.tree? : Request → Option FileSystem
  | describe fs _ => some fs
  | artifactSet fs _ _ => some fs
  | addHint _ => none
  | register _ _ _ => none

/-- The request registers the file with coordinates of the caller. -/
def Request.Registers (file : Path) : Request → Prop
  | .register other _ _ => file.same other = true
  | _ => False

/-- The registry after a request, and whether the request succeeded. -/
def Request.perform (r : Registry) : Request → Registry × Bool
  | addHint hint =>
    match r.addHint hint with
    | .ok after => (after, true)
    | .error _ => (r, false)
  | describe fs file =>
    match r.describe fs file with
    | .ok (after, _) => (after, true)
    | .error _ => (r, false)
  | register file coordinates dependencies =>
    match r.register file coordinates dependencies with
    | .ok (after, _) => (after, true)
    | .error _ => (r, false)
  | artifactSet fs edges roots =>
    let (after, answer, _) := r.artifactSet fs edges roots
    (after, answer.toBool)

/-- The registry after some requests. -/
def performAll (r : Registry) (requests : List Request) : Registry :=
  requests.foldl (fun r request => (request.perform r).1) r

end JarGraph.Artifact.Registry
