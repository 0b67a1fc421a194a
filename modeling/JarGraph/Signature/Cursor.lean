import JarGraph.Signature.Basic
import JarGraph.Text.Position
/-!
# Signatures by positions

The class names of a signature, read by descent: one procedure for each sort of the grammar, over a
position that goes from byte to byte. Bytes are told apart by the marks of the grammar, which are
all of ASCII, and names are cut out of the text between two positions. Types nest by recursion, up
to a bound on the depth, and every loop has a bound on its rounds.
-/

namespace JarGraph.Signature

open Text

/-- Where a scanner stands, and what it has found. -/
structure Cursor where
  /-- How many bytes have been passed. -/
  position : Nat
  /-- The class names found, in order. -/
  names : List String
  deriving DecidableEq, Repr, Inhabited

/-- A procedure that moves a cursor. -/
abbrev Scanner := StateT Cursor (Except (Stop ClassFile.Error))

namespace Scanner

section
variable (text : String)

/-- Gives the signature up. -/
def refuse {α : Type} : Scanner α :=
  throw (.refused (.badSignature text))

/-- The byte at the cursor, unless the text ends there. -/
def peek : Scanner (Option UInt8) := do
  return (encoded text.toList)[(← get).position]?

/-- Passes one byte. -/
def advance : Scanner Unit :=
  modify fun cursor => { cursor with position := cursor.position + 1 }

/-- Goes back by one byte. -/
def back : Scanner Unit := do
  match (← get).position with
  | 0 => throw (.fault .beforeStart)
  | position + 1 => modify fun cursor => { cursor with position }

/-- Notes a class name. -/
def note (name : String) : Scanner Unit :=
  modify fun cursor => { cursor with names := cursor.names ++ [name] }

/-- Takes the byte at the cursor, which has to be there. -/
def bump : Scanner UInt8 := do
  match ← peek text with
  | some b =>
    advance
    return b
  | none => refuse text

/-- Takes one of some marks, which has to be there. -/
def expect (mark : Char) : Scanner Unit := do
  let b ← bump text
  if isOneOf [mark] b then return else refuse text

/-- Goes through a body again and again while the byte at the cursor is as asked. -/
def whilePeek (holds : Option UInt8 → Bool) (body : Scanner Unit) : Nat → Scanner Unit
  | 0 => throw .exhausted
  | rounds + 1 => do
    let next ← peek text
    if holds next then
      body
      whilePeek holds body rounds
    else return

/-- Takes bytes up to a mark, and the mark. -/
def bumpThrough (mark : Char) : Nat → Scanner Unit
  | 0 => throw .exhausted
  | rounds + 1 => do
    let b ← bump text
    if isOneOf [mark] b then return else bumpThrough mark rounds

/-- More rounds than any loop can take. -/
def limit : Nat :=
  size text.toList + 1

/-- The marks that end a name. -/
def nameEnds : List Char :=
  [';', '<', '.', '>']

/-- A name up to one of the marks that end it, or to the end of the text. -/
def identifier : Scanner (List Char) := do
  let start := (← get).position
  whilePeek text (fun next => next.isSome && !isAt nameEnds next) advance (limit text)
  let stop := (← get).position
  if stop = start then refuse text else StateT.lift (checked (slice text.toList start stop))

/-- A name behind what stands before it, which is noted. -/
def className (outer : List Char) : Scanner (List Char) := do
  let own ← identifier text
  note (String.ofList (outer ++ own))
  return outer ++ own

section
variable (reference : Scanner Unit)

/-- The letters of the primitive types, as marks. -/
def primitives : List Char :=
  ['B', 'C', 'D', 'F', 'I', 'J', 'S', 'Z']

/-- A type, which may be primitive. -/
def typeSignature : Scanner Unit := do
  let next ← peek text
  if isAt primitives next then
    let _ ← bump text
  else reference

/-- One type argument. -/
def typeArgument : Scanner Unit := do
  let next ← peek text
  if isAt ['*'] next then
    let _ ← bump text
  else if isAt ['+', '-'] next then
    let _ ← bump text
    reference
  else reference

/-- Type arguments in their brackets. -/
def typeArguments : Scanner Unit := do
  expect text '<'
  whilePeek text (fun next => !isAt ['>'] next) (typeArgument text reference) (limit text)
  expect text '>'

/-- What comes after the name of a class, up to the end of the type. -/
def classRest : Nat → List Char → Scanner Unit
  | 0, _ => throw .exhausted
  | rounds + 1, name => do
    let b ← bump text
    if isOneOf [';'] b then return
    else if isOneOf ['<'] b then
      back
      typeArguments text reference
      classRest rounds name
    else if isOneOf ['.'] b then
      let inner ← className text (name ++ ['$'])
      classRest rounds inner
    else refuse text

/-- A class type. -/
def classType : Scanner Unit := do
  expect text 'L'
  let name ← className text []
  classRest text reference (limit text) name

end

/-- A type that is not primitive, and nests no deeper than `depth`. -/
def referenceTypeWithin : Nat → Scanner Unit
  | 0 => throw .exhausted
  | depth + 1 => do
    let next ← peek text
    if isAt ['L'] next then classType text (referenceTypeWithin depth)
    else if isAt ['T'] next then bumpThrough text ';' (limit text)
    else if isAt ['['] next then
      let _ ← bump text
      typeSignature text (referenceTypeWithin depth)
    else refuse text

/-- A type that is not primitive. -/
def referenceType : Scanner Unit :=
  referenceTypeWithin text (limit text)

/-- A type that is not primitive, behind a mark. -/
def markedType : Scanner Unit := do
  let _ ← bump text
  referenceType text

/-- One type parameter: its name, perhaps a bound by a class, and bounds by interfaces. -/
def typeParameter : Scanner Unit := do
  bumpThrough text ':' (limit text)
  let next ← peek text
  if isAt ['L', '[', 'T'] next then referenceType text
  whilePeek text (isAt [':']) (markedType text) (limit text)

/-- Type parameters in their brackets. -/
def typeParameters : Scanner Unit := do
  expect text '<'
  whilePeek text (fun next => !isAt ['>'] next) (typeParameter text) (limit text)
  expect text '>'

/-- The parameter types of a method in their parentheses. -/
def parameters : Scanner Unit := do
  let _ ← bump text
  whilePeek text (fun next => !isAt [')'] next) (typeSignature text (referenceType text))
    (limit text)
  let _ ← bump text

/-- The result of a method, which may be nothing. -/
def result : Scanner Unit := do
  let next ← peek text
  if isAt ['V'] next then
    let _ ← bump text
  else typeSignature text (referenceType text)

/-- What has to be the end of the text. -/
def atEnd : Scanner Unit := do
  let last ← peek text
  if last.isSome then refuse text

/-- The signature proper, up to the end of the text: the types of a method, or a row of other
types. -/
def proper : Scanner Unit := do
  let next ← peek text
  if isAt ['('] next then
    parameters text
    result text
    whilePeek text (isAt ['^']) (markedType text) (limit text)
  else
    if next.isNone then refuse text
    whilePeek text Option.isSome (referenceType text) (limit text)
  atEnd text

/-- A signature of any sort. -/
def signature : Scanner Unit := do
  let first ← peek text
  if isAt ['<'] first then typeParameters text
  proper text

end

end Scanner

/-- The classes that a signature names, by positions. -/
def classNamesByPosition (signature : String) : Except (Stop ClassFile.Error) (List String) :=
  (Scanner.signature signature ⟨0, []⟩).map fun done => done.2.names

end JarGraph.Signature
