import JarGraph.ClassFile.Visit
import JarGraph.Descriptor.Basic
import JarGraph.Signature.Basic
import JarGraph.Path.Basic
/-!
# Extraction

What one class has to report: the class itself, and, when its dependencies are asked for, a marker
that it was observed and every distinct class that it references, in order of first occurrence.
-/

namespace JarGraph

open ClassFile (Member Element)

/-- How much of a class is reported. -/
inductive Depth where
  /-- The class and the classes that it references. -/
  | dependencies
  /-- The class alone, for containers that are merely available. -/
  | inventory
  deriving DecidableEq, Repr, Inhabited

/-- One thing that a class reports. -/
inductive Sighting where
  /-- A class was found in a container. -/
  | class (container : Path) (name : String)
  /-- The references of a class follow. -/
  | observed (name : String)
  /-- A class references another one. -/
  | reference (source target : String)
  deriving DecidableEq, Repr, Inhabited

namespace Extraction

/-- The class names of a signature. One that cannot be read is scanned as a descriptor. -/
def signatureNames (signature : String) : List String :=
  match Signature.classNames signature with
  | .ok names => names
  | .error _ => Descriptor.classNames signature

/-- The class names of a field or a method. -/
def memberNames (member : Member) : List String :=
  Descriptor.classNames member.descriptor
    ++ member.signature.toList.flatMap signatureNames
    ++ member.exceptions.filterMap Descriptor.internalName
    ++ member.marks.flatMap Descriptor.classNames

/-- The class names that an element of a class references. -/
def names : Element → List String
  | .thisClass _ => []
  | .superclass name => (Descriptor.internalName name).toList
  | .interface name => (Descriptor.internalName name).toList
  | .signature text => signatureNames text
  | .mark descriptor => Descriptor.classNames descriptor
  | .field member => memberNames member
  | .method member => memberNames member
  | .innerClass name => (Descriptor.internalName name).toList
  | .pooledClass name => (Descriptor.internalName name).toList
  | .pooledDescriptor text => Descriptor.classNames text
  | .finish => []

/-- What has been reported of a class so far. -/
structure Progress where
  /-- The class that is being walked. -/
  current : String
  /-- The classes that it was seen to reference. -/
  seen : List String
  /-- What was reported, latest first. -/
  reported : List Sighting
  deriving Repr, Inhabited

/-- Reports a reference, unless it leads to the class itself or was reported before. -/
def Progress.reference (p : Progress) (name : String) : Progress :=
  if name = p.current ∨ name ∈ p.seen then p
  else
    { p with
      seen := name :: p.seen
      reported := .reference p.current name :: p.reported }

/-- What one element of a class adds to the report. -/
def visitElement (container : Path) (element : Element) : StateM Progress PUnit :=
  modify fun p =>
    match element with
    | .thisClass name =>
      { p with
        current := name
        reported := .observed name :: .class container name :: p.reported }
    | element => (names element).foldl Progress.reference p

/-- The report of a class with its dependencies. -/
def report (container : Path) (c : ClassFile.Class) : List Sighting :=
  let walked := (c.visit (visitElement container)).run ⟨"", [], []⟩
  walked.2.reported.reverse

end Extraction

/-- What extraction finds in the bytes of a class. -/
structure Extraction where
  /-- The name of the class. -/
  name : String
  /-- What the class reports, in order. -/
  sightings : List Sighting
  deriving DecidableEq, Repr, Inhabited

/-- Extracts one class that was found in a container. -/
def extract (data : Bytes) (container : Path) :
    Depth → Except ClassFile.Error Extraction
  | .inventory => do
    let header ← ClassFile.Header.parse data
    return ⟨header.name, [.class container header.name]⟩
  | .dependencies => do
    let c ← ClassFile.Class.parse data
    return ⟨c.name, Extraction.report container c⟩

end JarGraph
