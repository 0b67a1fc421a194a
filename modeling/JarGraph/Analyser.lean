import JarGraph.Dependency.Set
import JarGraph.Extraction
import JarGraph.Ordered.Map
import JarGraph.ProvidedClasses
/-!
# The analyser

What is known of the classes that were seen: the container of each, and the edges between them. Two
sets are derived from that: the dependencies between containers, and the classes that are referenced
and not known. They are recomputed when they are asked for and something has changed since.
-/

namespace JarGraph

/-- The state of an analysis. -/
structure Analyser where
  /-- The container of each class. -/
  classes : OrderedMap String Path
  provided : ProvidedClasses
  classEdges : DependencySet String
  /-- The dependencies between containers, as last derived. -/
  fileEdges : DependencySet Path
  /-- Pairs of an unresolved class and a class that references it, as last derived. -/
  unresolved : DependencySet String
  /-- Whether nothing has changed since the derived sets were computed. -/
  isResolved : Bool
  deriving Inhabited

/-- What an analysis comes to. -/
structure AnalysisResult where
  classes : OrderedMap String Path
  classEdges : DependencySet String
  fileEdges : DependencySet Path
  /-- Pairs of an unresolved class and a class that references it. -/
  unresolved : DependencySet String
  deriving Inhabited

namespace Analyser

/-- The analysis of no class. -/
def empty : Analyser :=
  ⟨.empty, .empty, .empty, .empty, .empty, true⟩

/-- The container of a class. -/
def containerOf (a : Analyser) (name : String) : Option Path :=
  a.classes.get? name

/-- Whether a class is known to be in a container. -/
def isHome (a : Analyser) (container : Path) (name : String) : Bool :=
  match a.containerOf name with
  | some known => known.same container
  | none => false

/-- Records the container of a class. The answer tells whether the class is new or has moved. -/
def addClass (a : Analyser) (container : Path) (name : String) : Analyser × Bool :=
  if a.isHome container name then (a, false)
  else ({ a with classes := a.classes.put name container, isResolved := false }, true)

/-- Records a pair. The answer tells whether it is new. -/
def addPair (a : Analyser) (d : Dependency String) : Analyser × Bool :=
  if a.classEdges.contains d then (a, false)
  else ({ a with classEdges := a.classEdges.insert d, isResolved := false }, true)

/-- Records a reference, or that a class was observed. One to a provided class is dropped. -/
def addDependency (a : Analyser) (source : String) (target : Option String) : Analyser × Bool :=
  match target with
  | some name => if a.provided.isMatch name then (a, false) else a.addPair (.edge source name)
  | none => a.addPair (.observed source)

/-- Counts the classes that a pattern matches as provided, from the next reference and the next
resolution on. -/
def addProvided (a : Analyser) (pattern : String) : Except PatternError Analyser :=
  (a.provided.add pattern).map fun provided =>
    { a with provided := provided, isResolved := false }

/-- Takes in what a class reports. -/
def receive (a : Analyser) : Sighting → Analyser
  | .class container name => (a.addClass container name).1
  | .observed name => (a.addDependency name none).1
  | .reference source target => (a.addDependency source (some target)).1

/-- Whether a referenced class that is not known counts as unresolved. -/
def isMissing (a : Analyser) (name : String) : Bool :=
  !isPlatformClass name && !a.provided.isMatch name

/-- The two derived sets. -/
structure Derived where
  fileEdges : DependencySet Path
  unresolved : DependencySet String

/-- What one class edge adds to the derived sets. -/
def deriveEdge (a : Analyser) (d : Derived) (edge : String × String) : Derived :=
  match a.containerOf edge.2 with
  | some target =>
    match a.containerOf edge.1 with
    | some source =>
      if source.same target then d
      else { d with fileEdges := d.fileEdges.insert (.edge source target) }
    | none => d
  | none =>
    if a.isMissing edge.2 then
      { d with unresolved := d.unresolved.insert (.edge edge.2 edge.1) }
    else d

/-- The derived sets, computed from the class edges. -/
def derived (a : Analyser) : Derived :=
  (DependencySet.edges a.classEdges).foldl a.deriveEdge ⟨.empty, .empty⟩

/-- Brings the derived sets up to date. -/
def resolve (a : Analyser) : Analyser :=
  if a.isResolved then a
  else
    let d := a.derived
    { a with fileEdges := d.fileEdges, unresolved := d.unresolved, isResolved := true }

/-- What the analysis comes to. -/
def result (a : Analyser) : AnalysisResult :=
  let a := a.resolve
  ⟨a.classes, a.classEdges, a.fileEdges, a.unresolved⟩

end Analyser

namespace AnalysisResult

/-- The dependencies between containers, with paths below a directory given from there. -/
def fileEdgesBelow (r : AnalysisResult) (base : Path) : DependencySet Path :=
  .ofList ((DependencySet.edges r.fileEdges).map fun edge =>
    .edge (edge.1.relativeTo base) (edge.2.relativeTo base))

/-- A class name with dots, as users write it. -/
def dotted (name : String) : String :=
  Text.replace '/' '.' name

/-- One line for each unresolved class and class that references it. -/
def unresolvedReport (r : AnalysisResult) : List String :=
  (DependencySet.edges r.unresolved).map fun edge =>
    dotted edge.1 ++ " (referenced by " ++ dotted edge.2 ++ ")"

end AnalysisResult

end JarGraph
