import JarGraph.Glob.Member
import JarGraph.Glob.Parse
import JarGraph.Text.Cut
/-!
# Patterns that users write

How a pattern given by a user becomes a glob pattern, and several of them a set, and the failure
when they do not. Blanks around a pattern do not count, and one that ends in a slash stands for
everything below.
-/

namespace JarGraph

/-- What is wrong with a pattern, or with several. -/
inductive PatternFault where
  /-- The text, as it was read, is no glob pattern. -/
  | unreadable (glob : String) (fault : Glob.Fault)
  /-- The patterns make up no set. -/
  | noSet (fault : Glob.SetFault)
  deriving DecidableEq, Repr, Inhabited

/-- The words of a fault. -/
def PatternFault.message : PatternFault → String
  | unreadable glob fault => "error parsing glob '" ++ glob ++ "': " ++ fault.message
  | noSet fault => fault.message

/-- A pattern that cannot be used, or several that cannot be used together. -/
structure PatternError where
  /-- The pattern as the user wrote it; of several all, with commas. -/
  pattern : String
  fault : PatternFault
  deriving DecidableEq, Repr, Inhabited

namespace PatternError

/-- What is wrong with the pattern. -/
def cause (e : PatternError) : String :=
  e.fault.message

/-- The words of the failure. -/
def message (e : PatternError) : String :=
  "invalid provided class pattern " ++ Text.quoted e.pattern ++ ": " ++ e.cause

end PatternError

namespace Glob

/-- A pattern without the blanks around it, with slashes in the place of another separator. One that
ends in a slash stands for everything below it. -/
def normalize (separator : Char) (pattern : String) : String :=
  let slashed := Text.replace separator '/' (Text.trimmed pattern)
  if slashed.toList.getLast? == some '/' then slashed ++ "**" else slashed

/-- The glob pattern that a user's pattern stands for. -/
def compile (separator : Char) (escape : Bool) (pattern : String) : Except PatternError Glob :=
  let glob := normalize separator pattern
  match parse escape glob with
  | .ok g => .ok g
  | .error fault => .error ⟨pattern, .unreadable glob fault⟩

/-- The set of the glob patterns that users' patterns stand for. -/
def compileSet (separator : Char) (escape : Bool) (patterns : List String) :
    Except PatternError (List Glob) := do
  let globs ← patterns.mapM (compile separator escape)
  match setFault? globs with
  | none => return globs
  | some fault => throw ⟨String.intercalate ", " patterns, .noSet fault⟩

end Glob

end JarGraph
