import JarGraph.Descriptor.Basic
/-!
# The grammar of descriptors

The types that descriptors write, as trees: a tree has a text, and the classes that its text names.
Nothing here reads a text. A class name is any text without a semicolon that is not empty. A class
constant holds such a name, by itself or in a descriptor.
-/

namespace JarGraph.Descriptor

/-- The primitive types. -/
inductive Primitive where
  | byte
  | char
  | double
  | float
  | int
  | long
  | short
  | boolean
  deriving DecidableEq, Repr, Inhabited

/-- The letter of a primitive type. -/
def Primitive.letter : Primitive → Char
  | byte => 'B'
  | char => 'C'
  | double => 'D'
  | float => 'F'
  | int => 'I'
  | long => 'J'
  | short => 'S'
  | boolean => 'Z'

/-- The name of a class as a descriptor can write it. -/
structure ClassName where
  chars : List Char
  nonempty : chars ≠ []
  no_semicolon : ';' ∉ chars
  deriving DecidableEq, Repr

/-- The name as a text. -/
def ClassName.toString (name : ClassName) : String :=
  String.ofList name.chars

/-- The type of a field, of a parameter or of a result. -/
inductive FieldType where
  | primitive (type : Primitive)
  | object (name : ClassName)
  | array (element : FieldType)
  deriving DecidableEq, Repr

namespace FieldType

/-- The characters that write a type. -/
def chars : FieldType → List Char
  | primitive type => [type.letter]
  | object name => 'L' :: name.chars ++ [';']
  | array element => '[' :: element.chars

/-- The class of a type; an array has that of its elements. -/
def className? : FieldType → Option String
  | primitive _ => none
  | object name => some name.toString
  | array element => element.className?

end FieldType

/-- A descriptor. -/
inductive Tree where
  | field (type : FieldType)
  /-- A method; one without a result returns nothing. -/
  | method (parameters : List FieldType) (result : Option FieldType)
  deriving DecidableEq, Repr

namespace Tree

/-- The types of a descriptor, in order. -/
def types : Tree → List FieldType
  | field type => [type]
  | method parameters result => parameters ++ result.toList

/-- The characters that write a descriptor. -/
def chars : Tree → List Char
  | field type => type.chars
  | method parameters result =>
    '(' :: parameters.flatMap FieldType.chars ++ ')' :: (result.elim ['V'] FieldType.chars)

/-- The text of a descriptor. -/
def text (tree : Tree) : String :=
  String.ofList tree.chars

/-- The classes that a descriptor names, in order. -/
def classNames (tree : Tree) : List String :=
  tree.types.filterMap FieldType.className?

end Tree

/-- The name in a class constant. -/
inductive ClassConstant where
  /-- The name of a class by itself. It does not start as an array does. -/
  | plain (name : ClassName) (notArray : name.chars.head? ≠ some '[')
  /-- The name of a class, wrapped as a descriptor. -/
  | wrapped (name : ClassName)
  /-- The descriptor of an array. -/
  | array (element : FieldType)
  deriving DecidableEq, Repr

namespace ClassConstant

/-- The characters that write a class constant. -/
def chars : ClassConstant → List Char
  | plain name _ => name.chars
  | wrapped name => (FieldType.object name).chars
  | array element => (FieldType.array element).chars

/-- The text of a class constant. -/
def text (constant : ClassConstant) : String :=
  String.ofList constant.chars

/-- The class that a constant stands for. -/
def className? : ClassConstant → Option String
  | plain name _ => some name.toString
  | wrapped name => some name.toString
  | array element => element.className?

end ClassConstant

end JarGraph.Descriptor
