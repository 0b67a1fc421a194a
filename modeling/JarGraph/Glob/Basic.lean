import JarGraph.Text.Utf8
/-!
# Glob patterns

A pattern is a row of tokens, and it matches the bytes of a name. A question mark takes one byte and
a star any number of them, but never a slash; two stars that make up a whole component take any
number of components. A bracketed set takes one byte, and a group in braces takes what one of its
branches takes.

Matching goes from the last token to the first and keeps, for every rest of the name, whether the
tokens so far match it. So the work is at most the number of tokens times the length of the name.
-/

namespace JarGraph

/-- One part of a pattern. -/
inductive GlobToken where
  /-- A character that stands for itself. -/
  | literal (c : Char)
  /-- One byte that is no slash. -/
  | anyByte
  /-- Any number of bytes that are no slashes. -/
  | run
  /-- Any number of components at the start. -/
  | leadingComponents
  /-- A slash and anything after it, at the end. -/
  | trailingComponents
  /-- A slash, or two slashes with anything between them. -/
  | innerComponents
  /-- One byte of a set, or one byte outside of it. -/
  | set (negated : Bool) (ranges : List (Char × Char))
  /-- What one of the branches takes. -/
  | group (branches : List (List GlobToken))
  deriving Repr, Inhabited

namespace GlobToken

/-- The byte of a slash. -/
def slash : UInt8 := 0x2F

/-- The ranges of bytes that a range of characters stands for: the bytes of the first character but
its last, those between that one and the first byte of the second character, and the further bytes
of the second. -/
def byteRanges (range : Char × Char) : List (UInt8 × UInt8) :=
  let low := Text.utf8Bytes (String.singleton range.1)
  let high := Text.utf8Bytes (String.singleton range.2)
  let one (b : UInt8) : UInt8 × UInt8 := (b, b)
  if range.1 = range.2 then low.map one
  else
    low.dropLast.map one
      ++ (match low.getLast?, high.head? with
        | some a, some b => [(a, b)]
        | _, _ => [])
      ++ high.tail.map one

/-- Whether a set holds a byte. -/
def setHolds (negated : Bool) (ranges : List (Char × Char)) (b : UInt8) : Bool :=
  let held := (ranges.flatMap byteRanges).any fun range => range.1 ≤ b && b ≤ range.2
  held != negated

/-- A mark for each rest of a name: first for the name itself, then for the name without its first
byte, and last for nothing. Marks tell from which rests on the tokens that follow match to the end,
and every token turns them into the marks of the tokens with itself in front. -/
abbrev Marks := List Bool

namespace Marks

/-- Nothing is left to match: of the rests of a name only the last one is marked. -/
def atEnd (name : Bytes) : Marks :=
  name.map (fun _ => false) ++ [true]

/-- The mark of the longest rest. -/
def whole (marks : Marks) : Bool := marks.headD false

/-- The marks with none set. -/
def cleared (marks : Marks) : Marks := marks.map fun _ => false

/-- The marks set in one of two. -/
def or (one other : Marks) : Marks := one.zipWith (· || ·) other

/-- One byte of some kind, and then a marked rest. -/
def afterByte (fits : UInt8 → Bool) (name : Bytes) (marks : Marks) : Marks :=
  name.zipWith (fun b next => fits b && next) marks.tail ++ [false]

/-- Fixed bytes, and then a marked rest. -/
def afterBytes (fixed name : Bytes) (marks : Marks) : Marks :=
  fixed.foldr (fun b marks => afterByte (· == b) name marks) marks

/-- Bytes that are no slashes, and then a marked rest. -/
def afterRun : Bytes → Marks → Marks
  | b :: name, mark :: marks =>
    let later := afterRun name marks
    (mark || (b != slash && whole later)) :: later
  | _, marks => marks

/-- Any bytes up to a slash, and then a marked rest. -/
def afterSlash : Bytes → Marks → Marks
  | b :: name, _ :: marks =>
    let later := afterSlash name marks
    ((b == slash && whole marks) || whole later) :: later
  | _, _ => [false]

/-- Any bytes, and then a marked rest. -/
def afterAny : Marks → Marks
  | [] => []
  | mark :: marks =>
    let later := afterAny marks
    (mark || whole later) :: later

/-- Any number of components, and then a marked rest. -/
def afterComponents (name : Bytes) (marks : Marks) : Marks :=
  or marks (afterSlash name marks)

end Marks

mutual

/-- A token that takes nothing whatever the name is. -/
def isIdle : GlobToken → Bool
  | group branches => allBranchesIdle branches
  | _ => false

/-- Tokens that all take nothing. -/
def allIdle : List GlobToken → Bool
  | [] => true
  | t :: rest => isIdle t && allIdle rest

/-- Branches of idle tokens only. -/
def allBranchesIdle : List (List GlobToken) → Bool
  | [] => true
  | tokens :: rest => allIdle tokens && allBranchesIdle rest

end

mutual

/-- The marks of a token in front of some tokens, from the marks of these. -/
def marks : GlobToken → Bytes → Marks → Marks
  | literal c, name, after =>
    after.afterBytes (Text.utf8Bytes (String.singleton c)) name
  | anyByte, name, after => after.afterByte (· != slash) name
  | run, name, after => after.afterRun name
  | leadingComponents, name, after => after.afterComponents name
  | trailingComponents, name, after => after.afterAny.afterByte (· == slash) name
  | innerComponents, name, after => (after.afterComponents name).afterByte (· == slash) name
  | set negated ranges, name, after => after.afterByte (setHolds negated ranges) name
  | group branches, name, after =>
    if allBranchesIdle branches then after else marksOfBranches branches name after

/-- The marks of a row of tokens in front of some others. -/
def marksOfTokens : List GlobToken → Bytes → Marks → Marks
  | [], _, after => after
  | t :: tokens, name, after => marks t name (marksOfTokens tokens name after)

/-- The marks of one of some branches in front of some tokens. A branch that takes nothing is
none. -/
def marksOfBranches : List (List GlobToken) → Bytes → Marks → Marks
  | [], _, after => after.cleared
  | tokens :: branches, name, after =>
    let others := marksOfBranches branches name after
    if allIdle tokens then others else (marksOfTokens tokens name after).or others

end

end GlobToken

/-- A pattern as a row of tokens. -/
structure Glob where
  tokens : List GlobToken
  deriving Repr, Inhabited

namespace Glob

/-- Whether the pattern matches a name given as bytes. A pattern that is only a row of leading
components matches everything. -/
def matchesBytes (g : Glob) (name : Bytes) : Bool :=
  match g.tokens with
  | [.leadingComponents] => true
  | tokens => (GlobToken.marksOfTokens tokens name (.atEnd name)).whole

/-- Whether the pattern matches a name. -/
def isMatch (g : Glob) (name : String) : Bool :=
  g.matchesBytes (Text.utf8Bytes name)

end Glob

end JarGraph
