import JarGraph.Text.Utf8
/-!
# Descriptions of class files

A class as the format lays it out: entries refer to each other by their indices in the constant
pool, and every item that the format has is there, also those that reading passes over. How a
description is written as bytes, and what it means, is told in the modules beside this one.
-/

namespace JarGraph.ClassFile.Description

/-- One entry of the constant pool. -/
inductive Entry where
  /-- A text, by its bytes. -/
  | utf8 (data : Bytes)
  | integer (value : UInt32)
  | float (bits : UInt32)
  | long (value : UInt64)
  | double (bits : UInt64)
  | classEntry (name : UInt16)
  | string (text : UInt16)
  | fieldReference (owner nameAndType : UInt16)
  | methodReference (owner nameAndType : UInt16)
  | interfaceMethodReference (owner nameAndType : UInt16)
  | nameAndType (name descriptor : UInt16)
  | methodHandle (sort : UInt8) (member : UInt16)
  | methodType (descriptor : UInt16)
  | dynamic (bootstrap nameAndType : UInt16)
  | invokeDynamic (bootstrap nameAndType : UInt16)
  | moduleEntry (name : UInt16)
  | packageEntry (name : UInt16)
  deriving DecidableEq, Repr, Inhabited

/-- Whether an entry takes two indices. -/
def Entry.isWide : Entry → Bool
  | long _ => true
  | double _ => true
  | _ => false

/-- The tags of element values that refer to one constant. -/
inductive ConstantTag where
  | byte
  | char
  | double
  | float
  | int
  | long
  | short
  | boolean
  | string
  deriving DecidableEq, Repr, Inhabited

mutual

/-- An annotation: its type and its named values. -/
inductive Mark where
  | mk (type : UInt16) (pairs : List Pair)

/-- A named value. -/
inductive Pair where
  | mk (name : UInt16) (value : Value)

/-- An element value. -/
inductive Value where
  | constant (tag : ConstantTag) (index : UInt16)
  | enumConstant (type name : UInt16)
  | classLiteral (descriptor : UInt16)
  | nested (mark : Mark)
  | array (values : List Value)

end

/-- One row of the table of inner classes. -/
structure InnerRow where
  inner : UInt16
  /-- The class around it; 0 stands for none. -/
  outer : UInt16
  name : UInt16
  access : UInt16
  deriving DecidableEq, Repr, Inhabited

/-- Whether annotations are there for programs at run time. -/
inductive Visibility where
  | visible
  | invisible
  deriving DecidableEq, Repr, Inhabited

/-- The contents of an attribute. -/
inductive Contents where
  | signature (text : UInt16)
  | exceptions (classes : List UInt16)
  | innerClasses (rows : List InnerRow)
  | marks (visibility : Visibility) (list : List Mark)
  | parameterMarks (visibility : Visibility) (lists : List (List Mark))
  | default (value : Value)
  /-- The contents of an attribute of another name. -/
  | unknown (name : String) (data : Bytes)

namespace Contents

/-- The name of the attribute that has such contents. -/
def label : Contents → String
  | signature _ => "Signature"
  | exceptions _ => "Exceptions"
  | innerClasses _ => "InnerClasses"
  | marks .visible _ => "RuntimeVisibleAnnotations"
  | marks .invisible _ => "RuntimeInvisibleAnnotations"
  | parameterMarks .visible _ => "RuntimeVisibleParameterAnnotations"
  | parameterMarks .invisible _ => "RuntimeInvisibleParameterAnnotations"
  | default _ => "AnnotationDefault"
  | unknown name _ => name

/-- The names of the attributes whose contents are laid out here. -/
def knownLabels : List String :=
  [label (.signature 0), label (.exceptions []), label (.innerClasses []),
    label (.marks .visible []), label (.marks .invisible []), label (.parameterMarks .visible []),
    label (.parameterMarks .invisible []), label (.default (.array []))]

end Contents

/-- An attribute: the index of its name, and its contents. -/
structure Attribute where
  name : UInt16
  contents : Contents

/-- A field or a method. -/
structure Member where
  access : UInt16
  name : UInt16
  descriptor : UInt16
  attributes : List Attribute

end Description

/-- A class as the format lays it out. -/
structure Description where
  minor : UInt16
  major : UInt16
  pool : List Description.Entry
  access : UInt16
  name : UInt16
  /-- The class that it extends; 0 stands for none. -/
  superclass : UInt16
  interfaces : List UInt16
  fields : List Description.Member
  methods : List Description.Member
  attributes : List Description.Attribute

end JarGraph.ClassFile
