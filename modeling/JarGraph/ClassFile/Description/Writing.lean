import JarGraph.ClassFile.Description.Basic
/-!
# Writing class files

The bytes of a description, numbers with their high byte first, and the sizes up to which the format
can write it.
-/

namespace JarGraph.ClassFile

namespace Description

/-- The low bytes of a number, as many as asked, the high one first. -/
def bigEndian : Nat → Nat → Bytes
  | 0, _ => []
  | width + 1, n => bigEndian width (n / 256) ++ [UInt8.ofNat n]

/-- The first number that takes more than two bytes. -/
def countLimit : Nat := 65536

/-- An index, a count or flags. -/
def bytes2 (n : UInt16) : Bytes := bigEndian 2 n.toNat

/-- A counted row: how many items there are, and the items. -/
def counted {α : Type} (write : α → Bytes) (items : List α) : Bytes :=
  bigEndian 2 items.length ++ items.flatMap write

/-- The tag of an entry. -/
def Entry.tag : Entry → UInt8
  | utf8 _ => 1
  | integer _ => 3
  | float _ => 4
  | long _ => 5
  | double _ => 6
  | classEntry _ => 7
  | string _ => 8
  | fieldReference _ _ => 9
  | methodReference _ _ => 10
  | interfaceMethodReference _ _ => 11
  | nameAndType _ _ => 12
  | methodHandle _ _ => 15
  | methodType _ => 16
  | dynamic _ _ => 17
  | invokeDynamic _ _ => 18
  | moduleEntry _ => 19
  | packageEntry _ => 20

/-- The bytes of an entry after its tag. -/
def Entry.body : Entry → Bytes
  | utf8 data => bigEndian 2 data.length ++ data
  | integer value => bigEndian 4 value.toNat
  | float bits => bigEndian 4 bits.toNat
  | long value => bigEndian 8 value.toNat
  | double bits => bigEndian 8 bits.toNat
  | classEntry name => bytes2 name
  | string text => bytes2 text
  | fieldReference owner type => bytes2 owner ++ bytes2 type
  | methodReference owner type => bytes2 owner ++ bytes2 type
  | interfaceMethodReference owner type => bytes2 owner ++ bytes2 type
  | nameAndType name descriptor => bytes2 name ++ bytes2 descriptor
  | methodHandle sort member => sort :: bytes2 member
  | methodType descriptor => bytes2 descriptor
  | dynamic bootstrap type => bytes2 bootstrap ++ bytes2 type
  | invokeDynamic bootstrap type => bytes2 bootstrap ++ bytes2 type
  | moduleEntry name => bytes2 name
  | packageEntry name => bytes2 name

/-- The bytes of an entry. -/
def Entry.bytes (e : Entry) : Bytes :=
  e.tag :: e.body

/-- The letter of a tag. -/
def ConstantTag.letter : ConstantTag → Char
  | byte => 'B'
  | char => 'C'
  | double => 'D'
  | float => 'F'
  | int => 'I'
  | long => 'J'
  | short => 'S'
  | boolean => 'Z'
  | string => 's'

/-- The byte of a letter. -/
def letterByte (c : Char) : UInt8 := UInt8.ofNat c.toNat

/-- The bytes of a text of plain characters. -/
def plainBytes (text : String) : Bytes :=
  text.toList.map letterByte

mutual

/-- The bytes of an annotation. -/
def Mark.bytes : Mark → Bytes
  | .mk type pairs => bytes2 type ++ bigEndian 2 pairs.length ++ Pair.allBytes pairs

/-- The bytes of a named value. -/
def Pair.bytes : Pair → Bytes
  | .mk name value => bytes2 name ++ value.bytes

/-- The bytes of named values in a row. -/
def Pair.allBytes : List Pair → Bytes
  | [] => []
  | p :: more => p.bytes ++ Pair.allBytes more

/-- The bytes of an element value. -/
def Value.bytes : Value → Bytes
  | .constant tag index => letterByte tag.letter :: bytes2 index
  | .enumConstant type name => letterByte 'e' :: bytes2 type ++ bytes2 name
  | .classLiteral descriptor => letterByte 'c' :: bytes2 descriptor
  | .nested mark => letterByte '@' :: mark.bytes
  | .array values => letterByte '[' :: bigEndian 2 values.length ++ Value.allBytes values

/-- The bytes of element values in a row. -/
def Value.allBytes : List Value → Bytes
  | [] => []
  | v :: more => v.bytes ++ Value.allBytes more

end

mutual

/-- Whether every row of an annotation is short enough to be counted. -/
def Mark.Fits : Mark → Prop
  | .mk _ pairs => pairs.length < countLimit ∧ Pair.AllFit pairs

/-- Whether every row of a named value is short enough. -/
def Pair.Fits : Pair → Prop
  | .mk _ value => value.Fits

/-- Whether every row of some named values is short enough. -/
def Pair.AllFit : List Pair → Prop
  | [] => True
  | p :: more => p.Fits ∧ Pair.AllFit more

/-- Whether every row of an element value is short enough. -/
def Value.Fits : Value → Prop
  | .constant _ _ => True
  | .enumConstant _ _ => True
  | .classLiteral _ => True
  | .nested mark => mark.Fits
  | .array values => values.length < countLimit ∧ Value.AllFit values

/-- Whether every row of some element values is short enough. -/
def Value.AllFit : List Value → Prop
  | [] => True
  | v :: more => v.Fits ∧ Value.AllFit more

end

/-- The bytes of a row of inner classes. -/
def InnerRow.bytes (row : InnerRow) : Bytes :=
  bytes2 row.inner ++ bytes2 row.outer ++ bytes2 row.name ++ bytes2 row.access

namespace Contents

/-- The bytes of the contents. -/
def bytes : Contents → Bytes
  | signature text => bytes2 text
  | exceptions classes => counted bytes2 classes
  | innerClasses rows => counted InnerRow.bytes rows
  | marks _ list => counted Mark.bytes list
  | parameterMarks _ lists => UInt8.ofNat lists.length :: lists.flatMap (counted Mark.bytes)
  | default value => value.bytes
  | unknown _ data => data

/-- Whether every row is short enough to be counted, and an unknown attribute is indeed unknown. -/
def RowsFit : Contents → Prop
  | signature _ => True
  | exceptions classes => classes.length < countLimit
  | innerClasses rows => rows.length < countLimit
  | marks _ list => list.length < countLimit ∧ ∀ m ∈ list, m.Fits
  | parameterMarks _ lists =>
    lists.length < 256 ∧ ∀ list ∈ lists, list.length < countLimit ∧ ∀ m ∈ list, m.Fits
  | default value => value.Fits
  | unknown name _ => name ∉ knownLabels

end Contents

namespace Attribute

/-- The bytes of an attribute. -/
def bytes (a : Attribute) : Bytes :=
  bytes2 a.name ++ bigEndian 4 a.contents.bytes.length ++ a.contents.bytes

/-- Whether an attribute is short enough to be written. -/
def Fits (a : Attribute) : Prop :=
  a.contents.RowsFit ∧ a.contents.bytes.length < 4294967296

end Attribute

/-- Whether a row of attributes is short enough to be written. -/
def AttributesFit (list : List Attribute) : Prop :=
  list.length < countLimit ∧ ∀ a ∈ list, a.Fits

namespace Member

/-- The bytes of a field or a method. -/
def bytes (m : Member) : Bytes :=
  bytes2 m.access ++ bytes2 m.name ++ bytes2 m.descriptor ++ counted Attribute.bytes m.attributes

/-- Whether a field or a method is short enough to be written. -/
def Fits (m : Member) : Prop :=
  AttributesFit m.attributes

end Member

/-- How many indices the entries of a pool take, the unused index 0 included. -/
def indexCount (pool : List Entry) : Nat :=
  pool.foldr (fun e count => (if e.isWide then 2 else 1) + count) 1

/-- The bytes of a class. -/
def bytes (d : Description) : Bytes :=
  [0xCA, 0xFE, 0xBA, 0xBE] ++ bytes2 d.minor ++ bytes2 d.major
    ++ bigEndian 2 (indexCount d.pool) ++ d.pool.flatMap Entry.bytes
    ++ bytes2 d.access ++ bytes2 d.name ++ bytes2 d.superclass ++ counted bytes2 d.interfaces
    ++ counted Member.bytes d.fields ++ counted Member.bytes d.methods
    ++ counted Attribute.bytes d.attributes

/-- Whether an entry is short enough to be written. -/
def Entry.Fits : Entry → Prop
  | utf8 data => data.length < countLimit
  | _ => True

/-- Whether every row of a class is short enough to be counted. -/
structure Fits (d : Description) : Prop where
  pool : indexCount d.pool < countLimit
  entries : ∀ e ∈ d.pool, e.Fits
  interfaces : d.interfaces.length < countLimit
  fields : d.fields.length < countLimit ∧ ∀ m ∈ d.fields, m.Fits
  methods : d.methods.length < countLimit ∧ ∀ m ∈ d.methods, m.Fits
  attributes : AttributesFit d.attributes

end Description

end JarGraph.ClassFile
