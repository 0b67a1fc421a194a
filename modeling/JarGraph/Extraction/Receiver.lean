import JarGraph.Extraction
/-!
# Extraction into a receiver

A listener does not wait for the report of a class: it receives each sighting as soon as the visit
of the class comes to it. A visit that fails does not take back what was received by then.
-/

namespace JarGraph

open ClassFile (Element)

namespace Extraction

/-- Where a visit of a class stands. -/
structure Visit (σ : Type) where
  /-- The class that is being walked. -/
  current : String
  /-- The classes that it was seen to reference. -/
  seen : List String
  /-- What the receiver has made of the sightings. -/
  receiver : σ
  deriving Repr, Inhabited

/-- A step of a visit, which may fail. -/
abbrev VisitM (σ : Type) := ExceptT ClassFile.Error (StateM (Visit σ))

variable {σ : Type} (receive : σ → Sighting → σ)

/-- Hands a sighting to the receiver. -/
def send (sighting : Sighting) : VisitM σ PUnit :=
  modify fun v => { v with receiver := receive v.receiver sighting }

/-- Sends a reference, unless it leads to the class itself or was sent before. -/
def sendReference (name : String) : VisitM σ PUnit := do
  let v ← get
  unless name = v.current ∨ name ∈ v.seen do
    set { v with seen := name :: v.seen }
    send receive (.reference v.current name)

/-- Sends what one element of a class reports. -/
def sendElement (container : Path) : Element → VisitM σ PUnit
  | .thisClass name => do
    modify fun v => { v with current := name }
    send receive (.class container name)
    send receive (.observed name)
  | element => (names element).forM (sendReference receive)

/-- Sends what a class reports, and answers its name. -/
def sendClass (container : Path) (c : ClassFile.Class) :
    ExceptT ClassFile.Error (StateM σ) String :=
  ExceptT.mk fun r =>
    let (answer, visit) := (c.visit (sendElement receive container)).run.run ⟨"", [], r⟩
    (answer.map fun _ => visit.current, visit.receiver)

end Extraction

/-- Extracts one class that was found in a container, and answers its name. A receiver takes in the
sightings while they come. -/
def extractInto {σ : Type} (receive : σ → Sighting → σ) (data : Bytes) (container : Path) :
    Depth → ExceptT ClassFile.Error (StateM σ) String
  | .inventory => do
    let header ← ClassFile.Header.parse data
    modify (receive · (.class container header.name))
    return header.name
  | .dependencies => do
    let c ← ClassFile.Class.parse data
    Extraction.sendClass receive container c

end JarGraph
