import JarGraph.Glob.Basic
/-!
# Reading glob patterns

The text of a pattern as tokens. Two stars are a row of components only where they make up a whole
component, and elsewhere two single stars. A comma splits the branches of an open group and stands
for itself outside of groups. A backslash makes the next character stand for itself, or stands for
itself, as the reader is told.
-/

namespace JarGraph.Glob

/-- Why a text is no pattern. -/
inductive Fault where
  | unclosedSet
  /-- The bounds of a range are the wrong way round. -/
  | badRange (low high : Char)
  | unopenedGroup
  | unclosedGroup
  | danglingEscape
  deriving DecidableEq, Repr, Inhabited

/-- The words of a fault. -/
def Fault.message : Fault → String
  | unclosedSet => "unclosed character class; missing ']'"
  | badRange low high =>
    "invalid range; '" ++ String.singleton low ++ "' > '" ++ String.singleton high ++ "'"
  | unopenedGroup =>
    "unopened alternate group; missing '\x7b' (maybe escape '\x7d' with '[\x7d]'?)"
  | unclosedGroup =>
    "unclosed alternate group; missing '\x7d' (maybe escape '\x7b' with '[\x7b]'?)"
  | danglingEscape => "dangling '\\'"

/-- A group that is still open: what stands before it, and its finished branches, latest first. -/
structure OpenGroup where
  /-- The tokens before the group, latest first. -/
  before : List GlobToken
  branches : List (List GlobToken)
  deriving Repr, Inhabited

/-- What has been read of a pattern. -/
structure Draft where
  /-- The tokens of the current branch, latest first. -/
  tokens : List GlobToken
  /-- The groups around the current branch, innermost first. -/
  groups : List OpenGroup
  deriving Repr, Inhabited

namespace Draft

/-- Adds a token. -/
def push (d : Draft) (t : GlobToken) : Draft :=
  { d with tokens := t :: d.tokens }

/-- Adds two single stars. -/
def pushTwoRuns (d : Draft) : Draft :=
  (d.push .run).push .run

/-- Puts a row of components in the place of the slash before it; a row that is there stays. -/
def pushComponents (d : Draft) (row : GlobToken) : Draft :=
  match d.tokens with
  | .leadingComponents :: _ => d
  | .trailingComponents :: _ => d
  | _ :: rest => { d with tokens := row :: rest }
  | [] => d

/-- Opens a group. -/
def openGroup (d : Draft) : Draft :=
  ⟨[], ⟨d.tokens, []⟩ :: d.groups⟩

/-- Closes the innermost group. -/
def closeGroup (d : Draft) : Except Fault Draft :=
  match d.groups with
  | [] => .error .unopenedGroup
  | g :: groups =>
    .ok ⟨.group (d.tokens.reverse :: g.branches).reverse :: g.before, groups⟩

/-- A comma starts the next branch of a group, and stands for itself outside of groups. -/
def comma (d : Draft) : Draft :=
  match d.groups with
  | [] => d.push (.literal ',')
  | g :: groups => ⟨[], { g with branches := d.tokens.reverse :: g.branches } :: groups⟩

/-- The tokens, unless a group is open. -/
def finish (d : Draft) : Except Fault (List GlobToken) :=
  match d.groups with
  | [] => .ok d.tokens.reverse
  | _ :: _ => .error .unclosedGroup

end Draft

/-- What has been read of a set. -/
structure OpenSet where
  negated : Bool
  /-- The ranges, latest first. -/
  ranges : List (Char × Char)
  /-- Whether the latest range waits for its upper bound. -/
  awaiting : Bool
  deriving Repr, Inhabited

namespace OpenSet

/-- Adds a character: the upper bound of the range that waits for one, or a range of its own. -/
def add (s : OpenSet) (c : Char) : Except Fault OpenSet :=
  match s.awaiting, s.ranges with
  | true, (low, _) :: rest =>
    if c < low then .error (.badRange low c)
    else .ok { s with ranges := (low, c) :: rest, awaiting := false }
  | _, ranges => .ok { s with ranges := (c, c) :: ranges, awaiting := false }

/-- The set as a token. A dash that no upper bound followed stands for itself. -/
def token (s : OpenSet) : GlobToken :=
  let ranges := if s.awaiting then ('-', '-') :: s.ranges else s.ranges
  .set s.negated ranges.reverse

end OpenSet

/-- Two stars are a row of components after a slash, or at the start of a branch. -/
def mayFollow (d : Draft) (previous : Option Char) : Bool :=
  previous == some '/' ||
    (!d.groups.isEmpty && (previous == some ',' || previous == some '\x7b'))

/-- The rest of a pattern. `escape` tells whether a backslash escapes, and `previous` is the
character before the rest. Inside a set, the set so far is given. -/
def readFrom (escape : Bool) (d : Draft) (inside : Option OpenSet) (previous : Option Char) :
    List Char → Except Fault (List GlobToken)
  | [] =>
    match inside with
    | some _ => .error .unclosedSet
    | none => d.finish
  | c :: rest =>
    match inside with
    | some s =>
      if c = ']' ∧ s.ranges ≠ [] then readFrom escape (d.push s.token) none (some ']') rest
      else if c = '-' ∧ s.ranges ≠ [] ∧ ¬ s.awaiting then
        readFrom escape d (some { s with awaiting := true }) none rest
      else
        match s.add c with
        | .error fault => .error fault
        | .ok s => readFrom escape d (some s) none rest
    | none =>
      match c, rest with
      | '[', '!' :: rest => readFrom escape d (some ⟨true, [], false⟩) none rest
      | '[', '^' :: rest => readFrom escape d (some ⟨true, [], false⟩) none rest
      | '[', rest => readFrom escape d (some ⟨false, [], false⟩) none rest
      | '?', rest => readFrom escape (d.push .anyByte) none (some '?') rest
      | '{', rest => readFrom escape d.openGroup none (some '{') rest
      | '}', rest =>
        match d.closeGroup with
        | .error fault => .error fault
        | .ok d => readFrom escape d none (some '}') rest
      | ',', rest => readFrom escape d.comma none (some ',') rest
      | '\\', [] => if escape then .error .danglingEscape else (d.push (.literal '\\')).finish
      | '\\', c :: rest =>
        if escape then readFrom escape (d.push (.literal c)) none (some c) rest
        else readFrom escape (d.push (.literal '\\')) none (some '\\') (c :: rest)
      | '*', '*' :: rest =>
        if d.tokens = [] then
          match rest with
          | [] => (d.push .leadingComponents).finish
          | '/' :: rest => readFrom escape (d.push .leadingComponents) none (some '/') rest
          | c :: rest => readFrom escape d.pushTwoRuns none (some '*') (c :: rest)
        else if mayFollow d previous then
          match rest with
          | [] => (d.pushComponents .trailingComponents).finish
          | '/' :: rest =>
            readFrom escape (d.pushComponents .innerComponents) none (some '/') rest
          | c :: rest =>
            if (c = ',' ∨ c = '}') ∧ d.groups ≠ [] then
              readFrom escape (d.pushComponents .trailingComponents) none (some '*') (c :: rest)
            else readFrom escape d.pushTwoRuns none (some '*') (c :: rest)
        else readFrom escape d.pushTwoRuns none (some '*') rest
      | '*', rest => readFrom escape (d.push .run) none (some '*') rest
      | c, rest => readFrom escape (d.push (.literal c)) none (some c) rest

/-- The pattern that a text writes. -/
def parse (escape : Bool) (text : String) : Except Fault Glob :=
  (readFrom escape ⟨[], []⟩ none none text.toList).map Glob.mk

end JarGraph.Glob
