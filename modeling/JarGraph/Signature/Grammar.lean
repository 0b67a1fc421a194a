import JarGraph.Descriptor.Grammar
import JarGraph.Signature.Basic
/-!
# The grammar of signatures

The generic forms of classes, fields and methods, as trees: a tree has a text, and the classes that
its text names, in order. Nothing here reads a text. An inner class is named by the classes around
it and its own name, joined by `$`; type variables and primitive types name no class.
-/

namespace JarGraph.Signature

/-- The characters that no identifier holds. -/
def reserved : List Char := ['.', ';', '[', '/', '<', '>', ':']

/-- A name that is one part of the name of a class, or the name of a type variable. -/
structure Identifier where
  chars : List Char
  nonempty : chars ≠ []
  not_reserved : ∀ c ∈ chars, c ∉ reserved
  deriving Repr

mutual

/-- A class with its packages, and the inner classes that the type goes on to. -/
inductive ClassType where
  | mk (packages : List Identifier) (outermost : Segment) (inner : List Segment)

/-- The own name of a class, and its type arguments. -/
inductive Segment where
  | mk (name : Identifier) (arguments : List Argument)

/-- A type argument. -/
inductive Argument where
  /-- Any type. -/
  | any
  | exactly (type : Reference)
  /-- Any type that extends the given one. -/
  | atMost (type : Reference)
  /-- Any type that the given one extends. -/
  | atLeast (type : Reference)

/-- A type that is not primitive. -/
inductive Reference where
  | ofClass (type : ClassType)
  | ofVariable (name : Identifier)
  | ofArray (element : AnyType)

/-- A type. -/
inductive AnyType where
  | primitive (type : Descriptor.Primitive)
  | reference (type : Reference)

end

/-- Something in angle brackets; nothing needs none. -/
def bracketed (inside : List Char) : List Char :=
  if inside = [] then [] else '<' :: inside ++ ['>']

mutual

/-- The characters of a class type. -/
def ClassType.chars : ClassType → List Char
  | .mk packages outermost inner =>
    'L' :: packages.flatMap (fun p => p.chars ++ ['/']) ++ outermost.chars
      ++ Segment.innerChars inner ++ [';']

/-- The characters of one class. -/
def Segment.chars : Segment → List Char
  | .mk name arguments => name.chars ++ bracketed (Argument.allChars arguments)

/-- The characters of inner classes, each after a dot. -/
def Segment.innerChars : List Segment → List Char
  | [] => []
  | s :: more => '.' :: s.chars ++ Segment.innerChars more

/-- The characters of a type argument. -/
def Argument.chars : Argument → List Char
  | .any => ['*']
  | .exactly type => type.chars
  | .atMost type => '+' :: type.chars
  | .atLeast type => '-' :: type.chars

/-- The characters of type arguments in a row. -/
def Argument.allChars : List Argument → List Char
  | [] => []
  | a :: more => a.chars ++ Argument.allChars more

/-- The characters of a type that is not primitive. -/
def Reference.chars : Reference → List Char
  | .ofClass type => type.chars
  | .ofVariable name => 'T' :: name.chars ++ [';']
  | .ofArray element => '[' :: element.chars

/-- The characters of a type. -/
def AnyType.chars : AnyType → List Char
  | .primitive type => [type.letter]
  | .reference type => type.chars

end

mutual

/-- The classes that a class type names. -/
def ClassType.names : ClassType → List (List Char)
  | .mk packages outermost inner =>
    let around := packages.flatMap fun p => p.chars ++ ['/']
    outermost.names around ++ Segment.innerNames (around ++ outermost.ownName) inner

/-- The name of a class without those around it. -/
def Segment.ownName : Segment → List Char
  | .mk name _ => name.chars

/-- The classes that a class and its type arguments name, given what stands before its own name. -/
def Segment.names : Segment → List Char → List (List Char)
  | .mk name arguments, around => (around ++ name.chars) :: Argument.allNames arguments

/-- The classes that inner classes name, given the full name of the class around them. -/
def Segment.innerNames : List Char → List Segment → List (List Char)
  | _, [] => []
  | around, s :: more =>
    s.names (around ++ ['$']) ++ Segment.innerNames (around ++ '$' :: s.ownName) more

/-- The classes that a type argument names. -/
def Argument.names : Argument → List (List Char)
  | .any => []
  | .exactly type => type.names
  | .atMost type => type.names
  | .atLeast type => type.names

/-- The classes that type arguments name. -/
def Argument.allNames : List Argument → List (List Char)
  | [] => []
  | a :: more => a.names ++ Argument.allNames more

/-- The classes that a type names which is not primitive. -/
def Reference.names : Reference → List (List Char)
  | .ofClass type => type.names
  | .ofVariable _ => []
  | .ofArray element => element.names

/-- The classes that a type names. -/
def AnyType.names : AnyType → List (List Char)
  | .primitive _ => []
  | .reference type => type.names

end

/-- A type parameter. The class bound may be left out where there is a bound by an interface. -/
structure TypeParameter where
  name : Identifier
  classBound : Option Reference
  interfaceBounds : List Reference
  bounded : classBound.isSome ∨ interfaceBounds ≠ []

namespace TypeParameter

/-- The bounds, in order. -/
def bounds (p : TypeParameter) : List Reference :=
  p.classBound.toList ++ p.interfaceBounds

/-- The characters of a type parameter. -/
def chars (p : TypeParameter) : List Char :=
  p.name.chars ++ ':' :: p.classBound.toList.flatMap Reference.chars
    ++ p.interfaceBounds.flatMap fun bound => ':' :: bound.chars

/-- The classes that a type parameter names. -/
def names (p : TypeParameter) : List (List Char) :=
  p.bounds.flatMap Reference.names

end TypeParameter

/-- A type that a method throws. -/
inductive Thrown where
  | ofClass (type : ClassType)
  | ofVariable (name : Identifier)

/-- The type as any other. -/
def Thrown.type : Thrown → Reference
  | .ofClass type => .ofClass type
  | .ofVariable name => .ofVariable name

/-- A signature. -/
inductive Tree where
  | ofClass (parameters : List TypeParameter) (superclass : ClassType) (interfaces : List ClassType)
  | ofField (type : Reference)
  /-- A method; one without a result returns nothing. -/
  | ofMethod (parameters : List TypeParameter) (arguments : List AnyType) (result : Option AnyType)
    (thrown : List Thrown)

namespace Tree

/-- The characters of a signature. -/
def chars : Tree → List Char
  | ofClass parameters superclass interfaces =>
    bracketed (parameters.flatMap TypeParameter.chars) ++ superclass.chars
      ++ interfaces.flatMap ClassType.chars
  | ofField type => type.chars
  | ofMethod parameters arguments result thrown =>
    bracketed (parameters.flatMap TypeParameter.chars)
      ++ '(' :: arguments.flatMap AnyType.chars ++ ')' :: result.elim ['V'] AnyType.chars
      ++ thrown.flatMap fun t => '^' :: t.type.chars

/-- The text of a signature. -/
def text (tree : Tree) : String :=
  String.ofList tree.chars

/-- The classes that a signature names, in order. -/
def names : Tree → List (List Char)
  | ofClass parameters superclass interfaces =>
    parameters.flatMap TypeParameter.names ++ superclass.names ++ interfaces.flatMap ClassType.names
  | ofField type => type.names
  | ofMethod parameters arguments result thrown =>
    parameters.flatMap TypeParameter.names ++ arguments.flatMap AnyType.names
      ++ result.elim [] AnyType.names ++ thrown.flatMap fun t => t.type.names

/-- The classes that a signature names, as texts. -/
def classNames (tree : Tree) : List String :=
  tree.names.map String.ofList

end Tree

end JarGraph.Signature
