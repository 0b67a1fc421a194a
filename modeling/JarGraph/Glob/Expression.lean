import JarGraph.Glob.Basic
import JarGraph.Text.Printable
/-!
# Patterns as regular expressions

The regular expression over bytes that matches the same names as a pattern, as messages show it, and
how deep it is nested. Every byte beyond ASCII is written as a number, and a character that means
something in an expression follows a backslash.

The parts of a row count for the nesting one by one: a row of several parts is a level of its own,
and so is a choice between several branches, a group, a repetition and a bracketed set.
-/

namespace JarGraph

namespace GlobToken

/-- The characters that mean something in an expression. -/
def expressionMarks : List Char :=
  ['\\', '.', '+', '*', '?', '(', ')', '|', '[', ']', '\x7b', '\x7d', '^', '$', '#', '&', '-', '~']

/-- A byte that stands for itself in an expression. -/
def byteExpression (b : UInt8) : String :=
  if b.toNat < 0x80 then
    let c := Char.ofNat b.toNat
    String.ofList (if expressionMarks.contains c then ['\\', c] else [c])
  else "\\x" ++ String.ofList (Text.hexDigits b.toNat)

/-- A character that stands for itself in an expression. -/
def charExpression (c : Char) : String :=
  String.join ((Text.utf8Bytes (String.singleton c)).map byteExpression)

/-- A range of characters in a bracketed set. -/
def rangeExpression (range : Char × Char) : String :=
  if range.1 = range.2 then charExpression range.1
  else charExpression range.1 ++ "-" ++ charExpression range.2

mutual

/-- The expression of a token. -/
def expression : GlobToken → String
  | literal c => charExpression c
  | anyByte => "[^/]"
  | run => "[^/]*"
  | leadingComponents => "(?:/?|.*/)"
  | trailingComponents => "/.*"
  | innerComponents => "(?:/|/.*/)"
  | set negated ranges =>
    "[" ++ (if negated then "^" else "") ++ String.join (ranges.map rangeExpression) ++ "]"
  | group branches =>
    match expressionsOfBranches branches with
    | [] => ""
    | parts => "(?:" ++ String.intercalate "|" parts ++ ")"

/-- The expressions of a row of tokens, one for each. -/
def expressions : List GlobToken → List String
  | [] => []
  | t :: tokens => expression t :: expressions tokens

/-- The expressions of the branches that take something. -/
def expressionsOfBranches : List (List GlobToken) → List String
  | [] => []
  | tokens :: branches =>
    let part := String.join (expressions tokens)
    if part.isEmpty then expressionsOfBranches branches
    else part :: expressionsOfBranches branches

end

/-- The nesting of several things side by side, given theirs: a single one adds no level. -/
def nestingBeside : List Nat → Nat
  | [] => 0
  | [n] => n
  | n :: more => 1 + more.foldl max n

/-- The nesting of a bracketed set: its bytes and ranges are a level below it if there are
several. -/
def nestingOfSet (ranges : List (Char × Char)) : Nat :=
  1 + nestingBeside ((ranges.flatMap byteRanges).map fun _ => 0)

mutual

/-- The nestings of the parts that a token adds to a row. -/
def nestings : GlobToken → List Nat
  | literal c => (Text.utf8Bytes (String.singleton c)).map fun _ => 0
  | anyByte => [1]
  | run => [2]
  | leadingComponents => [4]
  | trailingComponents => [0, 1]
  | innerComponents => [4]
  | set _ ranges => [nestingOfSet ranges]
  | group branches =>
    match nestingsOfBranches branches with
    | [] => []
    | parts => [1 + nestingBeside parts]

/-- The nestings of the parts of a row of tokens. -/
def nestingsOfTokens : List GlobToken → List Nat
  | [] => []
  | t :: tokens => nestings t ++ nestingsOfTokens tokens

/-- The nestings of the branches that take something. -/
def nestingsOfBranches : List (List GlobToken) → List Nat
  | [] => []
  | tokens :: branches =>
    match nestingsOfTokens tokens with
    | [] => nestingsOfBranches branches
    | parts => nestingBeside parts :: nestingsOfBranches branches

end

end GlobToken

namespace Glob

/-- The expression of a pattern, from the start of a name to its end. -/
def expression (g : Glob) : String :=
  "(?-u)^" ++
    (match g.tokens with
      | [.leadingComponents] => ".*"
      | tokens => String.join (GlobToken.expressions tokens))
    ++ "$"

/-- The nesting of a pattern. Start and end are parts of its row. -/
def nesting (g : Glob) : Nat :=
  GlobToken.nestingBeside (0 :: GlobToken.nestingsOfTokens g.tokens ++ [0])

/-- The nesting that an expression may have. -/
def nestingLimit : Nat := 250

/-- A pattern whose expression is nested deeper than an expression may be. -/
def isTooDeep (g : Glob) : Bool := g.nesting > nestingLimit

end Glob

end JarGraph
