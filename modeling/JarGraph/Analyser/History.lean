import JarGraph.Analyser
/-!
# Histories of an analysis

An analysis as the calls that were made, and what these calls say by themselves: where a class was
last found, which references counted when they were made, and which patterns were accepted. None of
it depends on when the derived sets were brought up to date.
-/

namespace JarGraph

namespace Analyser

/-- One call. -/
inductive Call where
  | addClass (container : Path) (name : String)
  /-- A reference, or the marker of an observed class. -/
  | addDependency (source : String) (target : Option String)
  /-- A pattern; one that is malformed changes nothing. -/
  | addProvided (pattern : String)
  /-- Brings the derived sets up to date, as every question for them does. -/
  | resolve
  deriving DecidableEq, Repr, Inhabited

/-- The state after a call. -/
def apply (a : Analyser) : Call → Analyser
  | .addClass container name => (a.addClass container name).1
  | .addDependency source target => (a.addDependency source target).1
  | .addProvided pattern => (a.addProvided pattern).toOption.getD a
  | .resolve => a.resolve

/-- The state after some calls. -/
def replay (calls : List Call) : Analyser :=
  calls.foldl apply .empty

namespace Call

/-- Where a call says that a class is. -/
def home? (name : String) : Call → Option Path
  | addClass container found => if found = name then some container else none
  | _ => none

/-- The container that a class was found in last. -/
def lastHome? (calls : List Call) (name : String) : Option Path :=
  (calls.filterMap (home? name)).getLast?

/-- The pattern that a call makes known, if it is well formed. -/
def pattern? : Call → Option ProvidedPattern
  | addProvided pattern => (ProvidedPattern.compile pattern).toOption
  | _ => none

/-- The patterns that the calls made known. -/
def provided (calls : List Call) : ProvidedClasses :=
  ⟨calls.filterMap pattern?⟩

/-- The pair that a call records, given the patterns known before it. -/
def pair? (known : ProvidedClasses) : Call → Option (Dependency String)
  | addDependency source (some target) =>
    if known.isMatch target then none else some (.edge source target)
  | addDependency source none => some (.observed source)
  | _ => none

/-- The pairs that the calls record, each as its call is made. -/
def pairs (calls : List Call) : List (Dependency String) :=
  calls.zipIdx.filterMap fun (call, n) => pair? (provided (calls.take n)) call

/-- Whether one container depends on another, judged by the calls. -/
def LeadsTo (calls : List Call) (source target : Path) : Prop :=
  source.same target = false ∧
    ∃ a b, .edge a b ∈ pairs calls ∧ (∃ p ∈ lastHome? calls a, p.same source) ∧
      ∃ p ∈ lastHome? calls b, p.same target

/-- Whether a class is missing that another one references, judged by the calls. -/
def IsMissing (calls : List Call) (name user : String) : Prop :=
  .edge user name ∈ pairs calls ∧ lastHome? calls name = none ∧ isPlatformClass name = false ∧
    (provided calls).isMatch name = false

end Call

end Analyser

end JarGraph
