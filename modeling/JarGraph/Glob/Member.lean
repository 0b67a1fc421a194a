import JarGraph.Glob.Automaton
/-!
# Patterns as members of a set

A set of patterns is tried on a path as a whole. Most patterns need no expression for that: they are
looked up by the path, by its file name, or by the extension of that. The others are expressions,
which are tried on their own where all of their matches have one extension, and together otherwise.
-/

namespace JarGraph.Glob

/-- How a set finds out whether one of its patterns matches a path. -/
inductive Lookup where
  /-- By the text of the path, or by how it starts or ends. -/
  | path
  /-- By the file name. -/
  | name
  /-- By the extension of the file name alone. -/
  | extension
  /-- By an expression of its own, where the file name has an extension. -/
  | ownExpression
  /-- By one of the expressions that are tried together. -/
  | expression
  deriving DecidableEq, Repr, Inhabited

/-- The literal that a token is, if it is one. -/
def literal? : GlobToken → Option Char
  | .literal c => some c
  | _ => none

/-- The characters of tokens that are literals; there is no such text without any. -/
def text? (tokens : List GlobToken) : Option (List Char) :=
  match tokens.mapM literal? with
  | some [] => none
  | text => text

/-- Whether tokens, given backwards, end in an extension. -/
def endsInExtension : List GlobToken → Bool
  | .literal c :: before => c = '.' || (c ≠ '/' && endsInExtension before)
  | _ => false

/-- The lookup of a pattern that is more than a text. -/
def lookupOfTokens (tokens : List GlobToken) : Lookup :=
  if endsInExtension tokens.reverse then .ownExpression else .expression

/-- The lookup of a pattern. -/
def lookup (g : Glob) : Lookup :=
  match g.tokens with
  | .leadingComponents :: .run :: .literal '.' :: more =>
    match more.mapM literal? with
    | some text =>
      if text.contains '.' || text.contains '/' then lookupOfTokens g.tokens else .extension
    | none => lookupOfTokens g.tokens
  | .leadingComponents :: tokens =>
    match text? tokens with
    | some text => if text.contains '/' then .path else .name
    | none => lookupOfTokens g.tokens
  | tokens =>
    let endsInAny := tokens.getLast? matches some .trailingComponents
    let start := if endsInAny then tokens.dropLast else tokens
    match start.mapM literal? with
    | some [] => if tokens.isEmpty then .expression else .path
    | some _ => .path
    | none => lookupOfTokens tokens

/-- A lookup that needs the file name of a path. -/
def Lookup.needsName : Lookup → Bool
  | name | extension | ownExpression => true
  | path | expression => false

/-- Whether a path leads to the directory above another: its last component is two dots. Such a path
counts as one without a file name. -/
def isNameless (path : String) : Bool :=
  (path.toList.reverse.takeWhile (· != '/')) == ['.', '.']

/-- Whether the pattern, as a member of a set of patterns, matches a path. -/
def isMemberMatch (g : Glob) (path : String) : Bool :=
  !(isNameless path && g.lookup.needsName) && g.isMatch path

/-- Why patterns make up no set. -/
inductive SetFault where
  /-- The expression of a pattern that is tried on its own is nested too deep. -/
  | ownTooDeep (expression : String)
  /-- The automaton of such an expression is too large. -/
  | ownTooLarge (expression : String)
  /-- One of the expressions that are tried together, at a position among them, is nested too
  deep. -/
  | tooDeep (position : Nat)
  /-- The automaton of those expressions is too large. -/
  | tooLarge
  deriving DecidableEq, Repr, Inhabited

/-- The words of a fault. -/
def SetFault.message : SetFault → String
  | ownTooDeep expression => "error parsing glob '" ++ expression ++ "': error parsing pattern 0"
  | ownTooLarge expression => "error parsing glob '" ++ expression ++ "': error building NFA"
  | tooDeep position => "error parsing pattern " ++ toString position
  | tooLarge => "error building NFA"

/-- What keeps a pattern from being tried on its own. -/
def ownFault? (g : Glob) : Option SetFault :=
  if g.isTooDeep then some (.ownTooDeep g.expression)
  else if areTooLarge [g] then some (.ownTooLarge g.expression)
  else none

/-- What keeps patterns from being tried together. -/
def togetherFault? (globs : List Glob) : Option SetFault :=
  match globs.findIdx? isTooDeep with
  | some position => some (.tooDeep position)
  | none => if areTooLarge globs then some .tooLarge else none

/-- What keeps patterns from making up a set. The expressions that are tried on their own come
first. -/
def setFault? (globs : List Glob) : Option SetFault :=
  let all (lookup : Lookup) := globs.filter fun g => g.lookup == lookup
  ((all .ownExpression).findSome? ownFault?).or (togetherFault? (all .expression))

end JarGraph.Glob
