import JarGraph.Text.Cut
import JarGraph.Text.Utf8
/-!
# Positions in a text

A text that is held as bytes is taken apart by positions, which count bytes. A position may lie past
the end of the text, where no byte can be read, or inside a character that takes more than one byte,
where the text cannot be cut.
-/

namespace JarGraph.Text

/-- What is wrong with a position. -/
inductive Fault where
  /-- It lies past the end of the text. -/
  | pastEnd
  /-- It lies inside a character. -/
  | insideCharacter
  /-- It would lie before the start of the text. -/
  | beforeStart
  deriving DecidableEq, Repr, Inhabited

/-- Why a program over positions has no answer. -/
inductive Stop (ε : Type) where
  /-- The program refuses its input. -/
  | refused (cause : ε)
  /-- A position is wrong. -/
  | fault (fault : Fault)
  /-- A loop went on for longer than its bound. -/
  | exhausted
  deriving DecidableEq, Repr, Inhabited

/-- The answer of a read at a position, in a program that stops where the position is wrong. -/
def checked {ε α : Type} (answer : Except Fault α) : Except (Stop ε) α :=
  answer.mapError .fault

/-- The bytes of the characters of a text. -/
def encoded (text : List Char) : Bytes :=
  text.flatMap String.utf8EncodeChar

/-- How many bytes a text takes. -/
def size : List Char → Nat
  | [] => 0
  | c :: rest => c.utf8Size + size rest

/-- The byte at a position. -/
def byteAt (text : List Char) (position : Nat) : Except Fault UInt8 :=
  match (encoded text)[position]? with
  | some b => .ok b
  | none => .error .pastEnd

/-- What stands before and behind a position. -/
def cutAt : Nat → List Char → Except Fault (List Char × List Char)
  | 0, rest => .ok ([], rest)
  | _ + 1, [] => .error .pastEnd
  | n + 1, c :: rest =>
    if n + 1 < c.utf8Size then .error .insideCharacter
    else (cutAt (n + 1 - c.utf8Size) rest).map fun halves => (c :: halves.1, halves.2)

/-- The part of a text between two positions. -/
def slice (text : List Char) (start stop : Nat) : Except Fault (List Char) := do
  let upTo ← cutAt stop text
  let part ← cutAt start upTo.1
  return part.2

/-- The part of a text from a position on. -/
def sliceFrom (text : List Char) (start : Nat) : Except Fault (List Char) := do
  let halves ← cutAt start text
  return halves.2

/-- The part of a text up to a position. -/
def sliceTo (text : List Char) (stop : Nat) : Except Fault (List Char) := do
  let halves ← cutAt stop text
  return halves.1

/-- The position of the first place where a character stands. -/
def find? (c : Char) (text : List Char) : Option Nat :=
  (cutWhere (· == c) text).map fun halves => size halves.1

/-- The position of the last place where a character stands. -/
def findLast? (c : Char) (text : List Char) : Option Nat :=
  (cutLast c text).map fun halves => size halves.1

/-- Whether a byte is one of some characters, which are to be of ASCII. -/
def isOneOf (marks : List Char) (b : UInt8) : Bool :=
  marks.any fun mark => b == mark.toUInt8

/-- Whether a byte is there and is one of some characters of ASCII. -/
def isAt (marks : List Char) (next : Option UInt8) : Bool :=
  next.any (isOneOf marks)

end JarGraph.Text
