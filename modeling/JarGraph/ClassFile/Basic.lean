import JarGraph.ClassFile.Marks
/-!
# Class files

The parts of a class file that can name other classes: the header, the fields and methods, their
signatures, exceptions and annotations, and the constant pool. Code and debugging attributes name
classes through the pool alone and are passed over.
-/

namespace JarGraph.ClassFile

/-- What identifies a class: versions, flags, its name, and the classes it extends. -/
structure Header where
  minor : UInt16
  major : UInt16
  access : UInt16
  name : String
  superclass : Option String
  interfaces : List String
  deriving DecidableEq, Repr, Inhabited

/-- A field or a method. -/
structure Member where
  access : UInt16
  name : String
  descriptor : String
  signature : Option String
  exceptions : List String
  /-- The descriptors that the member's annotations name. -/
  marks : List String
  deriving DecidableEq, Repr, Inhabited

/-- What the attributes of a class or a member say. -/
structure Attributes where
  /-- The signature; of several the last counts. -/
  signature : Option String
  exceptions : List String
  marks : List String
  innerClasses : List String
  deriving DecidableEq, Repr, Inhabited

/-- A decoded class file. -/
structure Class where
  header : Header
  fields : List Member
  methods : List Member
  signature : Option String
  marks : List String
  innerClasses : List String
  references : List Pool.Reference
  deriving DecidableEq, Repr, Inhabited

/-- The name of the class. -/
def Class.name (c : Class) : String :=
  c.header.name

namespace Attributes

/-- No attributes. -/
def empty : Attributes := ⟨none, [], [], []⟩

/-- The attributes that annotations stand in, with the read of each. -/
def markReads (pool : Pool) : List (String × Noting) :=
  [("RuntimeVisibleAnnotations", ClassFile.marks pool),
    ("RuntimeInvisibleAnnotations", ClassFile.marks pool),
    ("RuntimeVisibleParameterAnnotations", parameterMarks pool),
    ("RuntimeInvisibleParameterAnnotations", parameterMarks pool),
    ("AnnotationDefault", elementValue pool)]

/-- One row of the inner classes: the class itself, and the class around it, if any. -/
def readInner (pool : Pool) : Reader (List String) := do
  let inner ← Reader.u2
  let outer ← Reader.u2
  Reader.skip 4
  let name ← Reader.ofExcept (pool.className inner)
  let around ← Reader.ofExcept (pool.className? outer)
  return name :: around.toList

/-- The contents of an attribute, added to what the attributes before it say. Contents that come
after what is read, and attributes of other names, are passed over. -/
def readContents (pool : Pool) (name : String) (before : Attributes) : Reader Attributes :=
  if name = "Signature" then do
    let index ← Reader.u2
    let text ← Reader.ofExcept (pool.utf8 index)
    return { before with signature := some text }
  else if name = "Exceptions" then do
    let count ← Reader.u2
    let names ← Reader.times count.toNat do
      let index ← Reader.u2
      Reader.ofExcept (pool.className index)
    return { before with exceptions := before.exceptions ++ names }
  else if name = "InnerClasses" then do
    let count ← Reader.u2
    let rows ← Reader.times count.toNat (readInner pool)
    return { before with innerClasses := before.innerClasses ++ rows.flatten }
  else
    match (markReads pool).lookup name with
    | some read => do
      let found ← read.toReader
      return { before with marks := before.marks ++ found }
    | none => return before

/-- One attribute: its name, its length and its contents. -/
def readOne (pool : Pool) (before : Attributes) : Reader Attributes := do
  let index ← Reader.u2
  let name ← Reader.ofExcept (pool.utf8 index)
  let length ← Reader.u4
  let contents ← Reader.take length.toNat
  Reader.within contents (readContents pool name before)

/-- A counted list of attributes. -/
def read (pool : Pool) : Reader Attributes := do
  let count ← Reader.u2
  Reader.fold count.toNat (readOne pool) empty

end Attributes

namespace Header

/-- The number that every class file starts with. -/
def magic : UInt32 := 0xCAFEBABE

/-- The header, with the pool that stands in its midst. -/
def read : Reader (Header × Pool) := do
  let found ← Reader.u4
  if found ≠ magic then
    Reader.fail (.badMagic found)
  let minor ← Reader.u2
  let major ← Reader.u2
  let pool ← Pool.read
  let access ← Reader.u2
  let index ← Reader.u2
  let name ← Reader.ofExcept (pool.className index)
  let index ← Reader.u2
  let superclass ← Reader.ofExcept (pool.className? index)
  let count ← Reader.u2
  let interfaces ← Reader.times count.toNat do
    let index ← Reader.u2
    Reader.ofExcept (pool.className index)
  return (⟨minor, major, access, name, superclass, interfaces⟩, pool)

/-- The header at the front of some data; what follows it is not looked at. -/
def parse (data : Bytes) : Except Error Header :=
  (read data).1.map Prod.fst

end Header

/-- A field or a method. -/
def Member.read (pool : Pool) : Reader Member := do
  let access ← Reader.u2
  let index ← Reader.u2
  let name ← Reader.ofExcept (pool.utf8 index)
  let index ← Reader.u2
  let descriptor ← Reader.ofExcept (pool.utf8 index)
  let attributes ← Attributes.read pool
  return ⟨access, name, descriptor, attributes.signature, attributes.exceptions, attributes.marks⟩

/-- A class and nothing after it. -/
def Class.read : Reader Class := do
  let (header, pool) ← Header.read
  let count ← Reader.u2
  let fields ← Reader.times count.toNat (Member.read pool)
  let count ← Reader.u2
  let methods ← Reader.times count.toNat (Member.read pool)
  let attributes ← Attributes.read pool
  Reader.atEnd
  let references ← Reader.ofExcept pool.references
  return ⟨header, fields, methods, attributes.signature, attributes.marks, attributes.innerClasses,
    references⟩

/-- The class that the data holds. -/
def Class.parse (data : Bytes) : Except Error Class :=
  (Class.read data).1

end JarGraph.ClassFile
