import JarGraph.ClassFile.Error
/-!
# Class names in signatures

A signature writes the generic form of a class, a field or a method: type parameters with their
bounds, then either parameter types, a result and thrown types, or a row of class types. A class
type may carry type arguments, and may go on with the name of an inner class after a dot.

The text is read by one step for each character. The state says what may come next and holds the
classes whose type arguments are open, so that types nest to any depth.
-/

namespace JarGraph.Signature

/-- Where in a signature a type stands that is no type argument. -/
inductive Place where
  /-- A bound of a type parameter. -/
  | bound
  /-- A class or interface that a class extends, or the type of a field. -/
  | supertype
  | parameter
  | result
  | thrown
  deriving DecidableEq, Repr, Inhabited

/-- What has been read of a type. -/
inductive Part where
  /-- Nothing; a class, a type variable or an array has to come. -/
  | reference
  /-- Nothing; a primitive type may come as well. -/
  | type
  /-- Part of the name of a type variable. -/
  | variable
  /-- Part of a name: what stands before it, and its own characters backwards. -/
  | name (outer own : List Char)
  /-- The class up to the end of its type arguments. -/
  | class (name : List Char)
  /-- The class, and type arguments that are still open. -/
  | arguments (name : List Char)
  deriving DecidableEq, Repr, Inhabited

/-- What has been read of a signature. -/
inductive State where
  /-- Nothing. -/
  | start
  /-- The type parameters as a whole. -/
  | body
  /-- The type parameters up to the start of one or their end. -/
  | parameterStart
  /-- Part of the name of a type parameter. -/
  | parameterName
  /-- A type parameter up to its class bound, which may be left out. -/
  | classBound
  /-- A type parameter with a bound; more bounds may follow. -/
  | moreBounds
  /-- At least one type of a row. -/
  | supertypes
  /-- The parameter types of a method up to one more or their end. -/
  | parameters
  /-- The parameter types as a whole. -/
  | result
  /-- The result, and perhaps thrown types. -/
  | thrown
  /-- Part of a type, inside the open type arguments of the given classes, innermost first. -/
  | inType (part : Part) (owners : List (List Char)) (place : Place)
  deriving DecidableEq, Repr, Inhabited

/-- The state after the whole of a type. -/
def afterType : List (List Char) → Place → State
  | owner :: owners, place => .inType (.arguments owner) owners place
  | [], .bound => .moreBounds
  | [], .supertype => .supertypes
  | [], .parameter => .parameters
  | [], .result => .thrown
  | [], .thrown => .thrown

/-- The letters of the primitive types. -/
def isPrimitive (c : Char) : Bool :=
  ['B', 'C', 'D', 'F', 'I', 'J', 'S', 'Z'].contains c

/-- The first character of a type that is not primitive. -/
def openReference (owners : List (List Char)) (place : Place) (c : Char) : Option State :=
  if c = 'L' then some (.inType (.name [] []) owners place)
  else if c = 'T' then some (.inType .variable owners place)
  else if c = '[' then some (.inType .type owners place)
  else none

/-- The first character of a type. -/
def openType (owners : List (List Char)) (place : Place) (c : Char) : Option State :=
  if isPrimitive c then some (afterType owners place) else openReference owners place c

/-- What may come after the name or the type arguments of a class. -/
def afterClass (name : List Char) (owners : List (List Char)) (place : Place) (c : Char) :
    Option State :=
  if c = ';' then some (afterType owners place)
  else if c = '<' then some (.inType (.arguments name) owners place)
  else if c = '.' then some (.inType (.name (name ++ ['$']) []) owners place)
  else none

/-- The characters that end a name. -/
def endsName (c : Char) : Bool :=
  [';', '<', '.', '>'].contains c

/-- One character of a type: the state after it, and the class name that it brings to an end. -/
def stepType (part : Part) (owners : List (List Char)) (place : Place) (c : Char) :
    Option (State × Option (List Char)) :=
  match part with
  | .reference => (openReference owners place c).map (·, none)
  | .type => (openType owners place c).map (·, none)
  | .variable =>
    some (if c = ';' then afterType owners place else .inType .variable owners place, none)
  | .name outer own =>
    if endsName c then
      if own = [] then none
      else
        let full := outer ++ own.reverse
        (afterClass full owners place c).map (·, some full)
    else some (.inType (.name outer (c :: own)) owners place, none)
  | .class name => (afterClass name owners place c).map (·, none)
  | .arguments name =>
    if c = '>' then some (.inType (.class name) owners place, none)
    else if c = '*' then some (.inType (.arguments name) owners place, none)
    else if c = '+' ∨ c = '-' then some (.inType .reference (name :: owners) place, none)
    else (openReference (name :: owners) place c).map (·, none)

/-- One character at the start of a type parameter or at the end of them all. -/
def stepParameterStart (c : Char) : State :=
  if c = '>' then .body else if c = ':' then .classBound else .parameterName

/-- One character where the signature proper starts. -/
def stepBody (c : Char) : Option State :=
  if c = '(' then some .parameters else openReference [] .supertype c

/-- One character: the state after it, and the class name that it brings to an end. -/
def step : State → Char → Option (State × Option (List Char))
  | .start, c => if c = '<' then some (.parameterStart, none) else (stepBody c).map (·, none)
  | .body, c => (stepBody c).map (·, none)
  | .parameterStart, c => some (stepParameterStart c, none)
  | .parameterName, c => some (if c = ':' then .classBound else .parameterName, none)
  | .classBound, c =>
    if c = ':' then some (.inType .reference [] .bound, none)
    else some ((openReference [] .bound c).getD (stepParameterStart c), none)
  | .moreBounds, c =>
    if c = ':' then some (.inType .reference [] .bound, none)
    else some (stepParameterStart c, none)
  | .supertypes, c => (openReference [] .supertype c).map (·, none)
  | .parameters, c =>
    if c = ')' then some (.result, none) else (openType [] .parameter c).map (·, none)
  | .result, c => if c = 'V' then some (.thrown, none) else (openType [] .result c).map (·, none)
  | .thrown, c => if c = '^' then some (.inType .reference [] .thrown, none) else none
  | .inType part owners place, c => stepType part owners place c

/-- Whether a signature may end here. -/
def isComplete : State → Bool
  | .supertypes => true
  | .thrown => true
  | _ => false

/-- The class names of the rest of a signature, from the state so far. -/
def scan : State → List Char → Option (List (List Char))
  | state, [] => if isComplete state then some [] else none
  | state, c :: rest =>
    match step state c with
    | none => none
    | some (next, found) => (scan next rest).map (found.toList ++ ·)

/-- The classes that a signature names, in order; an inner class is named by the classes around it
and its own name, joined by `$`. -/
def classNames (signature : String) : Except ClassFile.Error (List String) :=
  match scan .start signature.toList with
  | some names => .ok (names.map String.ofList)
  | none => .error (.badSignature signature)

end JarGraph.Signature
