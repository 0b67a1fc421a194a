import JarGraph.Text.Cut
/-!
# Class names in descriptors

A descriptor writes the type of a field or a method: one letter for a primitive type, `[` before the
element type of an array, and `L` name `;` for a class. Reading is lenient: what is no class type is
passed over, and a name that nothing ends runs to the end of the text.
-/

namespace JarGraph.Descriptor

/-- The characters that may stand before a type: parentheses, array marks and primitive types. -/
def isMarker (c : Char) : Bool :=
  ['(', ')', '[', 'B', 'C', 'D', 'F', 'I', 'J', 'S', 'Z', 'V'].contains c

/-- A name that was read, given backwards, unless it is empty. -/
def emit (name : List Char) : List String :=
  if name = [] then [] else [String.ofList name.reverse]

/-- The class names of the rest of a descriptor. Inside a name, what has been read of it is given
backwards. -/
def scan : Option (List Char) → List Char → List String
  | none, [] => []
  | none, c :: rest =>
    if c = 'L' then scan (some []) rest
    else if isMarker c then scan none rest
    else []
  | some name, [] => emit name
  | some name, c :: rest =>
    if c = ';' then emit name ++ scan none rest else scan (some (c :: name)) rest

/-- The classes that a descriptor names, in order. -/
def classNames (descriptor : String) : List String :=
  scan none descriptor.toList

/-- A text, unless it is empty. -/
def nonEmpty? (cs : List Char) : Option String :=
  if cs = [] then none else some (String.ofList cs)

/-- The class that the name of a class constant stands for. The name may be that of a class, a class
written as a descriptor, or the descriptor of an array, which stands for its element class; an array
of a primitive type stands for none. -/
def internalName (raw : String) : Option String :=
  let text := raw.toList
  let element := text.dropWhile (· == '[')
  if text.head? = some '[' then
    match element with
    | 'L' :: name => nonEmpty? ((Text.dropEnd? [';'] name).getD name)
    | _ => none
  else
    match text with
    | 'L' :: rest =>
      match Text.dropEnd? [';'] rest with
      | some name => nonEmpty? name
      | none => nonEmpty? text
    | _ => nonEmpty? text

end JarGraph.Descriptor
