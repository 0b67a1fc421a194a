import JarGraph.Glob.Expression
/-!
# The room of automata

Expressions are matched by automata, and the room that an automaton may take is limited. A state
takes 32 bytes, and beyond that 8 for each range of bytes of a set, and 4 for each way on of a
choice. Every branch of a choice has states of its own, except that branches of one letter each make
up a set.
-/

namespace JarGraph

namespace GlobToken

/-- The room of one state. -/
def stateRoom : Nat := 32

/-- How many ranges the marked bytes of some make up, after a byte that is marked or not. -/
def rangeCount : Bool → List Bool → Nat
  | _, [] => 0
  | before, marked :: rest => (if marked && !before then 1 else 0) + rangeCount marked rest

/-- The room of a set of several bytes in so many ranges: a state for the set and one after it. -/
def rangesRoom (count : Nat) : Nat :=
  2 * stateRoom + 8 * count

/-- The room of the set of the bytes in some ranges, or of all others. A single byte takes one
state, and so does none. -/
def setRoom (negated : Bool) (ranges : List (UInt8 × UInt8)) : Nat :=
  let marks := (List.range 256).map fun n =>
    ranges.any (fun range => range.1.toNat ≤ n && n ≤ range.2.toNat) != negated
  if marks.count true ≤ 1 then stateRoom else rangesRoom (rangeCount false marks)

/-- The room of a choice, given those of its branches: a state before them and one after. -/
def choiceRoom (rooms : List Nat) : Nat :=
  rooms.foldl (fun sum room => sum + 4 + room) (2 * stateRoom)

/-- The room of what may be left out. -/
def optionalRoom (room : Nat) : Nat :=
  2 * stateRoom + 2 * 4 + room

/-- The room of a repetition, which chooses between one more time and the end. -/
def repeatedRoom (room : Nat) : Nat :=
  stateRoom + 2 * 4 + room

/-- The room of bytes of any kind and number. -/
def anythingRoom : Nat :=
  repeatedRoom (rangesRoom 1)

/-- The letter that a branch is, if it is one letter of ASCII. -/
def letter? : List GlobToken → Option Char
  | [literal c] => if c.toNat < 0x80 then some c else none
  | _ => none

mutual

/-- The room of a token. -/
def room : GlobToken → Nat
  | literal c => c.utf8Size * stateRoom
  | anyByte => rangesRoom 2
  | run => repeatedRoom (rangesRoom 2)
  | leadingComponents => choiceRoom [optionalRoom stateRoom, anythingRoom + stateRoom]
  | trailingComponents => stateRoom + anythingRoom
  | innerComponents => choiceRoom [stateRoom, stateRoom + anythingRoom + stateRoom]
  | set negated ranges => setRoom negated (ranges.flatMap byteRanges)
  | group branches =>
    match roomsOfBranches branches with
    | [] => 0
    | [only] => only
    | several =>
      match branches.mapM letter? with
      | some letters => setRoom false (letters.flatMap fun c => byteRanges (c, c))
      | none => choiceRoom several

/-- The room of a row of tokens. -/
def roomOfTokens : List GlobToken → Nat
  | [] => 0
  | t :: tokens => room t + roomOfTokens tokens

/-- The rooms of the branches that take something. -/
def roomsOfBranches : List (List GlobToken) → List Nat
  | [] => []
  | tokens :: branches =>
    match roomOfTokens tokens with
    | 0 => roomsOfBranches branches
    | n => n :: roomsOfBranches branches

end

end GlobToken

namespace Glob

/-- The room of a pattern among others. There are states for its start and its end, two for what it
matches, and one for the match. -/
def room (g : Glob) : Nat :=
  5 * GlobToken.stateRoom +
    match g.tokens with
    | [.leadingComponents] => GlobToken.anythingRoom
    | tokens => GlobToken.roomOfTokens tokens

/-- The room of the automaton of some patterns, which starts with a state of its own. -/
def roomTogether (globs : List Glob) : Nat :=
  GlobToken.stateRoom +
    match globs.map room with
    | [] => GlobToken.stateRoom
    | [only] => only
    | several => GlobToken.choiceRoom several

/-- The room that an automaton may take. -/
def roomLimit : Nat := 10 * 1024 * 1024

/-- Patterns whose automaton takes more room than it may. -/
def areTooLarge (globs : List Glob) : Bool :=
  roomTogether globs > roomLimit

end Glob

end JarGraph
