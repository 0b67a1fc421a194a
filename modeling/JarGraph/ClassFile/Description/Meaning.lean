import JarGraph.ClassFile.Basic
import JarGraph.ClassFile.Description.Basic
/-!
# What a description means

The class that a description stands for, by look-up in its own pool; a description means nothing
where an index leads to no entry of the sort that its place asks for.
-/

namespace JarGraph.ClassFile.Description

/-- What the indices of a pool lead to, from the first one on. The second index of a wide entry
leads to nothing that can be named. -/
def slots : List Entry → List (Option Entry)
  | [] => []
  | e :: more => if e.isWide then none :: none :: slots more else some e :: slots more

/-- The entry at an index. -/
def entryAt? (pool : List Entry) (index : UInt16) : Option Entry :=
  if index = 0 then none else (slots pool)[index.toNat - 1]?.join

/-- The text of an entry. -/
def Entry.text? : Entry → Option String
  | utf8 data =>
    (ModifiedUtf8.units? data).map fun units => String.ofList (ModifiedUtf8.chars units)
  | _ => none

/-- The text at an index. -/
def textAt? (pool : List Entry) (index : UInt16) : Option String :=
  (entryAt? pool index).bind Entry.text?

/-- The name of the class at an index. -/
def classAt? (pool : List Entry) (index : UInt16) : Option String :=
  match entryAt? pool index with
  | some (.classEntry name) => textAt? pool name
  | _ => none

/-- The name of the class at an index, where 0 stands for no class. -/
def optionalClassAt? (pool : List Entry) (index : UInt16) : Option (Option String) :=
  if index = 0 then some none else (classAt? pool index).map some

mutual

/-- The descriptors that an annotation names, in document order. -/
def Mark.descriptors? (pool : List Entry) : Mark → Option (List String)
  | .mk type pairs => do
    let first ← textAt? pool type
    let more ← Pair.allDescriptors? pool pairs
    return first :: more

/-- The descriptors of a named value. -/
def Pair.descriptors? (pool : List Entry) : Pair → Option (List String)
  | .mk _ value => value.descriptors? pool

/-- The descriptors of named values in a row. -/
def Pair.allDescriptors? (pool : List Entry) : List Pair → Option (List String)
  | [] => some []
  | p :: more => do
    let first ← p.descriptors? pool
    let rest ← Pair.allDescriptors? pool more
    return first ++ rest

/-- The descriptors that an element value names. -/
def Value.descriptors? (pool : List Entry) : Value → Option (List String)
  | .constant _ _ => some []
  | .enumConstant type _ => (textAt? pool type).map ([·])
  | .classLiteral descriptor => (textAt? pool descriptor).map ([·])
  | .nested mark => mark.descriptors? pool
  | .array values => Value.allDescriptors? pool values

/-- The descriptors of element values in a row. -/
def Value.allDescriptors? (pool : List Entry) : List Value → Option (List String)
  | [] => some []
  | v :: more => do
    let first ← v.descriptors? pool
    let rest ← Value.allDescriptors? pool more
    return first ++ rest

end

/-- The descriptors of annotations in a row. -/
def marks? (pool : List Entry) (list : List Mark) : Option (List String) :=
  (list.mapM (Mark.descriptors? pool)).map List.flatten

/-- The classes that a row of inner classes names. -/
def InnerRow.names? (pool : List Entry) (row : InnerRow) : Option (List String) := do
  let inner ← classAt? pool row.inner
  let outer ← optionalClassAt? pool row.outer
  return inner :: outer.toList

/-- What the contents of an attribute say by themselves. -/
def Contents.meaning? (pool : List Entry) : Contents → Option Attributes
  | signature text =>
    (textAt? pool text).map fun text => { Attributes.empty with signature := some text }
  | exceptions classes =>
    (classes.mapM (classAt? pool)).map fun names => { Attributes.empty with exceptions := names }
  | innerClasses rows =>
    (rows.mapM (InnerRow.names? pool)).map fun names =>
      { Attributes.empty with innerClasses := names.flatten }
  | marks _ list => (marks? pool list).map fun found => { Attributes.empty with marks := found }
  | parameterMarks _ lists =>
    (lists.mapM (marks? pool)).map fun found => { Attributes.empty with marks := found.flatten }
  | default value =>
    (value.descriptors? pool).map fun found => { Attributes.empty with marks := found }
  | unknown _ _ => some Attributes.empty

/-- What an attribute says by itself, if its name is that of its contents. -/
def Attribute.meaning? (pool : List Entry) (a : Attribute) : Option Attributes :=
  if textAt? pool a.name = some a.contents.label then a.contents.meaning? pool else none

/-- What attributes in a row say: all of what each says, and the last signature. -/
def joined (all : List Attributes) : Attributes where
  signature := (all.filterMap Attributes.signature).getLast?
  exceptions := all.flatMap Attributes.exceptions
  marks := all.flatMap Attributes.marks
  innerClasses := all.flatMap Attributes.innerClasses

/-- What a row of attributes says. -/
def attributes? (pool : List Entry) (list : List Attribute) : Option Attributes :=
  (list.mapM (Attribute.meaning? pool)).map joined

/-- The field or method that is described. -/
def Member.meaning? (pool : List Entry) (m : Member) : Option ClassFile.Member := do
  let name ← textAt? pool m.name
  let descriptor ← textAt? pool m.descriptor
  let attributes ← attributes? pool m.attributes
  return ⟨m.access, name, descriptor, attributes.signature, attributes.exceptions, attributes.marks⟩

/-- The name that an entry holds by itself, if it is of a sort that holds one. -/
def Entry.reference? (pool : List Entry) : Entry → Option (Option Pool.Reference)
  | classEntry name => (textAt? pool name).map fun text => some (.class text)
  | nameAndType _ descriptor => (textAt? pool descriptor).map fun text => some (.descriptor text)
  | methodType descriptor => (textAt? pool descriptor).map fun text => some (.descriptor text)
  | utf8 data => (text? (utf8 data)).map fun _ => none
  | _ => some none

/-- The header that is described. -/
def header? (d : Description) : Option Header := do
  let name ← classAt? d.pool d.name
  let superclass ← optionalClassAt? d.pool d.superclass
  let interfaces ← d.interfaces.mapM (classAt? d.pool)
  return ⟨d.minor, d.major, d.access, name, superclass, interfaces⟩

/-- The class that is described. -/
def meaning? (d : Description) : Option Class := do
  let header ← d.header?
  let fields ← d.fields.mapM (Member.meaning? d.pool)
  let methods ← d.methods.mapM (Member.meaning? d.pool)
  let attributes ← attributes? d.pool d.attributes
  let references ← d.pool.mapM (Entry.reference? d.pool)
  return ⟨header, fields, methods, attributes.signature, attributes.marks, attributes.innerClasses,
    references.reduceOption⟩

end JarGraph.ClassFile.Description
