import JarGraph.Text.Printable
/-!
# What can be wrong with a class file

The causes for which the bytes of a class, or a signature in it, are refused, and the words of each.
-/

namespace JarGraph.ClassFile

/-- The sorts of constants that a pool entry is told apart by. -/
inductive ConstantKind where
  | utf8
  | classEntry
  | nameAndType
  | methodType
  | number
  /-- Either slot of a constant that takes two. -/
  | wide
  | named
  | memberReference
  | methodHandle
  | dynamic
  deriving DecidableEq, Repr, Inhabited

/-- The name of a sort of constants in messages. -/
def ConstantKind.label : ConstantKind → String
  | utf8 => "Utf8"
  | classEntry => "Class"
  | nameAndType => "NameAndType"
  | methodType => "MethodType"
  | number => "Number"
  | wide => "Wide"
  | named => "Named"
  | memberReference => "MemberRef"
  | methodHandle => "MethodHandle"
  | dynamic => "Dynamic"

/-- Why the bytes of a class, or a signature, are refused. -/
inductive Error where
  /-- The data ends inside an item. -/
  | unexpectedEnd
  /-- The data does not start with the magic number. -/
  | badMagic (found : UInt32)
  /-- An index leads to no entry of the constant pool, or the last entry claims a slot too many. -/
  | badPoolIndex (index : UInt16)
  /-- A pool entry has no known tag. -/
  | badPoolTag (tag : UInt8)
  /-- A pool entry is of another sort than its use asks for. -/
  | poolMismatch (index : UInt16) (expected found : ConstantKind)
  /-- An element value of an annotation has no known tag. -/
  | badElementTag (tag : UInt8)
  /-- A text constant is no modified UTF-8. -/
  | badModifiedUtf8
  /-- A text is no signature. -/
  | badSignature (text : String)
  /-- Bytes are left after the class. -/
  | trailingBytes
  deriving DecidableEq, Repr, Inhabited

/-- Eight hexadecimal digits. -/
def eightHexDigits (n : Nat) : List Char :=
  let digits := Text.hexDigits n
  List.replicate (8 - digits.length) '0' ++ digits

/-- The words of a cause. -/
def Error.message : Error → String
  | unexpectedEnd => "unexpected end of class data"
  | badMagic found =>
    "invalid class file magic: 0x" ++ String.ofList (eightHexDigits found.toNat)
  | badPoolIndex index => "invalid constant pool index: " ++ toString index.toNat
  | badPoolTag tag => "invalid constant pool tag: " ++ toString tag.toNat
  | poolMismatch index expected found =>
    "constant pool type mismatch at index " ++ toString index.toNat ++ ": expected "
      ++ expected.label ++ ", found " ++ found.label
  | badElementTag tag => "invalid annotation element tag: " ++ toString tag.toNat
  | badModifiedUtf8 => "invalid modified UTF-8 constant"
  | badSignature text => "invalid signature: " ++ text
  | trailingBytes => "trailing bytes after class data"

end JarGraph.ClassFile
